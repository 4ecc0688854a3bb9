import CodeReader.Pipeline.Answerable

/-!
# A shuffle keeps the question

What the new order of the choices of a trace leaves as it was.

* `textOfChoice`, `attachedText` — the text that an id stands for, and the one that a note is about;
* `whyWrongNotes` — the notes of an explanation;
* `KeepsQuestion` — the same ids and contents, ids exchanged one for one, the same correct text, notes at their texts;
* `reassignShuffledChoiceIds_keeps` — **every order keeps the question**.
-/

namespace CodeReader.Pipeline

open Text

/-! ## Choices and notes -/

/-- The text of the first choice with the id. -/
def textOfChoice (choices : List Choice) (id : String) : Option String := (choices.find? (·.id == id)).map (·.text)

/-- The id that a note is under. -/
def noteId (note : Json) : Option String := (note.get? "choice_id").bind Attempts.readStr

/-- The text of the choice that a note is about. -/
def attachedText (choices : List Choice) (note : Json) : Option String := (noteId note).bind (textOfChoice choices)

/-- `explanation.get("why_wrong", [])`. -/
def whyWrongNotes (explanation : List (String × Json)) : List Json :=
  match (Json.obj explanation).get? "why_wrong" with
  | some (.arr notes) => notes
  | _ => []

/-- The entries as they were shown before. -/
def shownBefore (entries : List TraceEntry) : List Choice := entries.map fun e => ⟨e.oldId, e.text, e.misconception⟩

/-- The result of a shuffle of the entries asks the same question. -/
structure KeepsQuestion (entries : List TraceEntry) (explanation : List (String × Json))
    (choices : List Choice) (correctId : String) (idRemap : List (String × String)) : Prop where
  ids : (choices.map (·.id)).Perm (entries.map (·.oldId))
  contents : (choices.map fun c => (c.text, c.misconception)).Perm (entries.map fun e => (e.text, e.misconception))
  /-- Each old id goes to one new id, and each new id comes from one. -/
  bijective : (idRemap.map (·.1)).Perm (entries.map (·.oldId)) ∧ (idRemap.map (·.2)).Perm (entries.map (·.oldId)) ∧
    (idRemap.map (·.1)).Nodup ∧ (idRemap.map (·.2)).Nodup
  correct : ∃ e ∈ entries, e.isCorrect = true ∧ textOfChoice (shownBefore entries) e.oldId = some e.text ∧
    textOfChoice choices correctId = some e.text
  /-- The notes come in their order, each with its other fields, and about the text that it was about. -/
  notes : whyWrongNotes (remapTraceWhyWrong explanation idRemap) =
      (whyWrongNotes explanation).map (remapEntry idRemap) ∧
    ∀ note, attachedText choices (remapEntry idRemap note) = attachedText (shownBefore entries) note ∧
      ∀ key ≠ "choice_id", (remapEntry idRemap note).get? key = note.get? key

/-! ## One entry under its new id -/

section Assign

variable {order : List TraceEntry}

theorem idRemap_snd (order : List TraceEntry) :
    (reassignShuffledChoiceIds order).2.2.map (·.2) = sortIds (order.map (·.oldId)) := by
  rw [reassignShuffledChoiceIds, List.map_map]
  exact assignIds_fst order

theorem choices_id (order : List TraceEntry) :
    (reassignShuffledChoiceIds order).1.map (·.id) = sortIds (order.map (·.oldId)) := by
  rw [reassignShuffledChoiceIds, List.map_map]
  exact assignIds_fst order

theorem choices_contents (order : List TraceEntry) :
    (reassignShuffledChoiceIds order).1.map (fun c => (c.text, c.misconception)) =
      order.map fun e => (e.text, e.misconception) := by
  rw [reassignShuffledChoiceIds, List.map_map]
  calc (assignIds order).map ((fun c : Choice => (c.text, c.misconception)) ∘ fun x => ⟨x.1, x.2.text, x.2.misconception⟩)
      = ((assignIds order).map (·.2)).map fun e => (e.text, e.misconception) := by rw [List.map_map]; rfl
    _ = order.map fun e => (e.text, e.misconception) := by rw [assignIds_snd]

/-- With ids of their own, the first choice under an id is the one. -/
theorem textOfChoice_of_mem {choices : List Choice} (h : (choices.map (·.id)).Nodup) {c : Choice} (hc : c ∈ choices) :
    textOfChoice choices c.id = some c.text := by
  obtain ⟨before, after, rfl⟩ := List.append_of_mem hc
  rw [List.map_append, List.map_cons, List.nodup_append] at h
  have hbefore : before.find? (·.id == c.id) = none := by
    refine List.find?_eq_none.mpr fun b hb heq => ?_
    exact h.2.2 b.id (List.mem_map_of_mem hb) c.id List.mem_cons_self (eq_of_beq heq)
  have hhere : (c :: after).find? (·.id == c.id) = some c :=
    List.find?_cons_of_pos (p := fun x : Choice => x.id == c.id) (beq_self_eq_true c.id)
  rw [textOfChoice, List.find?_append, hbefore, hhere]
  rfl

theorem textOfChoice_of_notMem {choices : List Choice} {id : String} (h : id ∉ choices.map (·.id)) :
    textOfChoice choices id = none := by
  have hnone : choices.find? (·.id == id) = none :=
    List.find?_eq_none.mpr fun c hc heq => h (eq_of_beq heq ▸ List.mem_map_of_mem hc)
  rw [textOfChoice, hnone]
  rfl

theorem remapped_of_notMem {idRemap : List (String × String)} {id : String} (h : id ∉ idRemap.map (·.1)) :
    remapped idRemap id = none := by
  have hnone : idRemap.reverse.find? (·.1 == id) = none := by
    refine List.find?_eq_none.mpr fun x hx heq => h ?_
    exact eq_of_beq heq ▸ List.mem_map_of_mem (List.mem_reverse.mp hx)
  rw [remapped, hnone]
  rfl

/-- An entry gets one new id, under which its text is shown. -/
theorem exists_newId (hids : (order.map (·.oldId)).Nodup) {e : TraceEntry} (he : e ∈ order) :
    ∃ id, remapped (reassignShuffledChoiceIds order).2.2 e.oldId = some id ∧
      textOfChoice (reassignShuffledChoiceIds order).1 id = some e.text ∧ (id, e) ∈ assignIds order := by
  rw [← assignIds_snd order] at he
  obtain ⟨⟨id, e'⟩, hmem, rfl⟩ := List.mem_map.mp he
  refine ⟨id, remapped_of_mem (idRemap_fst order ▸ hids) (List.mem_map.mpr ⟨_, hmem, rfl⟩), ?_, hmem⟩
  have hchoices : ((reassignShuffledChoiceIds order).1.map (·.id)).Nodup := by
    rw [choices_id]
    exact (sortIds_perm _).nodup_iff.mpr hids
  exact textOfChoice_of_mem hchoices (c := ⟨id, e'.text, e'.misconception⟩) (List.mem_map.mpr ⟨_, hmem, rfl⟩)

theorem shownBefore_ids (entries : List TraceEntry) : (shownBefore entries).map (·.id) = entries.map (·.oldId) := by
  rw [shownBefore, List.map_map]
  rfl

theorem textOfChoice_shownBefore (hids : (order.map (·.oldId)).Nodup) {e : TraceEntry} (he : e ∈ order) :
    textOfChoice (shownBefore order) e.oldId = some e.text :=
  textOfChoice_of_mem (shownBefore_ids order ▸ hids) (c := ⟨e.oldId, e.text, e.misconception⟩)
    (List.mem_map.mpr ⟨e, he, rfl⟩)

end Assign

/-! ## Notes under their new ids -/

section Notes

variable (idRemap : List (String × String))

/-- Fields that keep their names: the one of a name is the changed one. -/
theorem get?_map_fields {f : String × Json → String × Json} (hf : ∀ x, (f x).1 = x.1) (fields : List (String × Json))
    (key : String) : (Json.obj (fields.map f)).get? key = ((fields.reverse.find? (·.1 == key)).map f).map (·.2) := by
  rw [Json.get?, ← List.map_reverse, List.find?_map]
  simp only [Function.comp_def, hf]

/-- What the remapping does to a field of a note, and to one of an explanation. -/
def remapField : String × Json → String × Json
  | ("choice_id", .str old) => ("choice_id", .str ((remapped idRemap old).getD old))
  | f => f

def remapNotes : String × Json → String × Json
  | ("why_wrong", .arr entries) => ("why_wrong", .arr (entries.map (remapEntry idRemap)))
  | f => f

theorem remapField_fst (x : String × Json) : (remapField idRemap x).1 = x.1 := by
  unfold remapField
  split <;> rfl

theorem remapNotes_fst (x : String × Json) : (remapNotes idRemap x).1 = x.1 := by
  unfold remapNotes
  split <;> rfl

theorem remapEntry_obj (fields : List (String × Json)) :
    remapEntry idRemap (.obj fields) = .obj (fields.map (remapField idRemap)) := by
  rw [remapEntry]
  refine congrArg Json.obj (List.map_congr_left fun x _ => ?_)
  unfold remapField
  split
  · rfl
  · rename_i hother
    first
    | rfl
    | split
      · exact (hother _ rfl).elim
      · rfl

theorem remapTraceWhyWrong_eq (explanation : List (String × Json)) :
    remapTraceWhyWrong explanation idRemap = explanation.map (remapNotes idRemap) := by
  rw [remapTraceWhyWrong]
  refine List.map_congr_left fun x _ => ?_
  unfold remapNotes
  split
  · rfl
  · rename_i hother
    first
    | rfl
    | split
      · exact (hother _ rfl).elim
      · rfl

/-- The id of a note is exchanged for the new one. -/
theorem noteId_remapEntry (note : Json) :
    noteId (remapEntry idRemap note) = (noteId note).map fun id => (remapped idRemap id).getD id := by
  cases note with
  | obj fields =>
    rw [noteId, noteId, remapEntry_obj, get?_map_fields (remapField_fst idRemap), Json.get?]
    cases hfind : fields.reverse.find? (·.1 == "choice_id") with
    | none => rfl
    | some field =>
      obtain ⟨key, value⟩ := field
      have hkey := List.find?_some hfind
      rw [beq_iff_eq] at hkey
      subst hkey
      cases value <;> rfl
  | _ => rfl

/-- The other fields of a note stay. -/
theorem get?_remapEntry {key : String} (hkey : key ≠ "choice_id") (note : Json) :
    (remapEntry idRemap note).get? key = note.get? key := by
  cases note with
  | obj fields =>
    rw [remapEntry_obj, get?_map_fields (remapField_fst idRemap), Json.get?]
    cases hfind : fields.reverse.find? (·.1 == key) with
    | none => rfl
    | some field =>
      obtain ⟨key', value⟩ := field
      have hfield := List.find?_some hfind
      rw [beq_iff_eq] at hfield
      subst hfield
      have hsame : remapField idRemap (key', value) = (key', value) := by
        unfold remapField
        split
        · rename_i heq
          exact absurd (congrArg Prod.fst heq) hkey
        · rfl
      rw [Option.map_some, hsame]
  | _ => rfl

theorem whyWrongNotes_remap (explanation : List (String × Json)) :
    whyWrongNotes (remapTraceWhyWrong explanation idRemap) = (whyWrongNotes explanation).map (remapEntry idRemap) := by
  rw [whyWrongNotes, whyWrongNotes, remapTraceWhyWrong_eq, get?_map_fields (remapNotes_fst idRemap), Json.get?]
  cases hfind : explanation.reverse.find? (·.1 == "why_wrong") with
  | none => rfl
  | some field =>
    obtain ⟨key, value⟩ := field
    have hkey := List.find?_some hfind
    rw [beq_iff_eq] at hkey
    subst hkey
    cases value <;> rfl

end Notes

/-! ## The result -/

/-- **A shuffle keeps the question**: of entries with ids of their own, one of them correct, in any order, the ids and the
contents stay, the new ids go one to one with the old ones, the correct id stands for the same text, and every note is
about the text that it was about. -/
theorem reassignShuffledChoiceIds_keeps (rng : Shuffle TraceEntry) (entries : List TraceEntry)
    (explanation : List (String × Json)) (hids : (entries.map (·.oldId)).Nodup)
    (hcorrect : entries.countP (·.isCorrect) = 1) :
    let result := reassignShuffledChoiceIds (rng.order entries)
    KeepsQuestion entries explanation result.1 result.2.1 result.2.2 := by
  intro result
  have hperm := rng.perm entries
  have hids' : ((rng.order entries).map (·.oldId)).Nodup := (hperm.map _).nodup_iff.mpr hids
  have hsorted : (sortIds ((rng.order entries).map (·.oldId))).Perm (entries.map (·.oldId)) :=
    (sortIds_perm _).trans (hperm.map _)
  refine ⟨?_, ?_, ⟨?_, ?_, ?_, ?_⟩, ?_, whyWrongNotes_remap _ explanation, fun note =>
    ⟨?_, fun key hkey => get?_remapEntry _ hkey note⟩⟩
  · rw [choices_id]
    exact hsorted
  · rw [choices_contents]
    exact hperm.map _
  · rw [idRemap_fst]
    exact hperm.map _
  · rw [idRemap_snd]
    exact hsorted
  · rw [idRemap_fst]
    exact hids'
  · rw [idRemap_snd]
    exact hsorted.nodup_iff.mpr hids
  · -- the correct entry keeps its text under the id that it gets
    obtain ⟨before, e, after, hsplit, he, hafter⟩ : ∃ before e after,
        rng.order entries = before ++ e :: after ∧ e.isCorrect = true ∧ ∀ x ∈ after, x.isCorrect = false := by
      have hone : (rng.order entries).countP (·.isCorrect) = 1 := (hperm.countP_eq _).trans hcorrect
      obtain ⟨e, he, hecorrect⟩ := List.countP_pos_iff.mp (hone ▸ Nat.one_pos)
      obtain ⟨before, after, hsplit⟩ := List.append_of_mem he
      refine ⟨before, e, after, hsplit, hecorrect, fun x hx => ?_⟩
      rw [hsplit, List.countP_append, List.countP_cons_of_pos (p := fun x : TraceEntry => x.isCorrect) hecorrect] at hone
      have hnone : after.countP (·.isCorrect) = 0 := by omega
      exact eq_false_of_ne_true (List.countP_eq_zero.mp hnone x hx)
    have hmem : e ∈ rng.order entries := hsplit ▸ List.mem_append_right before List.mem_cons_self
    refine ⟨e, hperm.mem_iff.mp hmem, he, textOfChoice_shownBefore hids (hperm.mem_iff.mp hmem), ?_⟩
    obtain ⟨id, front, back, hassigned, hback, -⟩ := assignIds_split before after e
    have hlast : result.2.1 = id := by
      change correctChoiceId (·.isCorrect) (assignIds (rng.order entries)) = id
      rw [hsplit, hassigned]
      exact correctChoiceId_of_last front back id e he fun x hx => hafter x.2 (hback ▸ List.mem_map_of_mem hx)
    have hshown : ((reassignShuffledChoiceIds (rng.order entries)).1.map (·.id)).Nodup := by
      rw [choices_id]
      exact hsorted.nodup_iff.mpr hids
    rw [hlast]
    refine textOfChoice_of_mem hshown (c := ⟨id, e.text, e.misconception⟩) (List.mem_map.mpr ⟨(id, e), ?_, rfl⟩)
    rw [hsplit, hassigned]
    exact List.mem_append_right front List.mem_cons_self
  · -- a note goes with the id that its choice gets
    rw [attachedText, attachedText, noteId_remapEntry, Option.bind_map]
    refine congrArg (Option.bind (noteId note)) (funext fun id => ?_)
    by_cases hid : id ∈ (rng.order entries).map (·.oldId)
    · obtain ⟨e, he, rfl⟩ := List.mem_map.mp hid
      obtain ⟨new, hnew, htext, -⟩ := exists_newId hids' he
      rw [textOfChoice_shownBefore hids (hperm.mem_iff.mp he), ← htext, Function.comp_apply, hnew, Option.getD_some]
    · have hold : id ∉ entries.map (·.oldId) := fun h => hid ((hperm.map _).mem_iff.mpr h)
      rw [Function.comp_apply, remapped_of_notMem (idRemap_fst (rng.order entries) ▸ hid), Option.getD_none,
        textOfChoice_of_notMem fun h => hold (hsorted.mem_iff.mp (choices_id (rng.order entries) ▸ h)),
        textOfChoice_of_notMem fun h => hold (shownBefore_ids entries ▸ h)]

/-- The choices of a keyed candidate, as they are published. -/
theorem shuffleTraceChoices_keeps {candidate : TraceCandidate} (h : candidate.Keyed) (captured : String)
    (rng : Shuffle TraceEntry) (explanation : List (String × Json)) :
    let result := shuffleTraceChoices candidate captured rng
    KeepsQuestion (traceEntries candidate captured) explanation result.1 result.2.1 result.2.2 := by
  refine reassignShuffledChoiceIds_keeps rng _ explanation (traceEntries_oldId candidate captured ▸ h.2) ?_
  have hcount : (traceEntries candidate captured).countP (·.isCorrect) =
      (candidate.choices.map (·.id)).count candidate.correctChoiceId := by
    rw [traceEntries, List.countP_map, List.count, List.countP_map]
    rfl
  rw [hcount]
  exact List.count_eq_one_of_mem h.2 h.1

/-- The other way round. -/
def backwards : Shuffle TraceEntry := ⟨List.reverse, List.reverse_perm⟩

def sumEntries : List TraceEntry :=
  [⟨"a", "3", none, true⟩, ⟨"b", "12", some "concatenation", false⟩, ⟨"c", "2", some "the last term", false⟩]

theorem reassignShuffledChoiceIds_keeps_sum :
    let result := reassignShuffledChoiceIds (backwards.order sumEntries)
    KeepsQuestion sumEntries [("why_wrong", .arr [.obj [("choice_id", .str "b")]])] result.1 result.2.1 result.2.2 :=
  reassignShuffledChoiceIds_keeps backwards sumEntries _ (by decide) (by decide)

end CodeReader.Pipeline
