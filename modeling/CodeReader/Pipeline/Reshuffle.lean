import CodeReader.Pipeline.Shuffling
import Mathlib.Data.List.Zip
import Mathlib.Data.List.Find

/-!
# The migration that shuffles stored choices

Every stored trace is shuffled again, by a generator that is seeded with the id of its exercise.

* `Places`, `reordered` — the order that a seed gives: of so many choices, which one comes to which place;
* `relaid`, `reshuffled` — a row with its choices in that order, and the same with the checks of the migration;
* `renamed` — the id that the choice of an id gets;
* `reshuffled_twice_iff` — **when a second run changes nothing**.
-/

namespace CodeReader.Pipeline

open Text

/-! ## Orders -/

/-- The orders of a seeded generator: of `n` elements, the one that comes to the `i`-th place. -/
structure Places where
  place : Nat → Nat → Nat
  perm : ∀ n, ((List.range n).map (place n)).Perm (List.range n)

section Reordered

variable {α β : Type} (σ : Places)

/-- The list in its new order. -/
def reordered (l : List α) : List α := (List.range l.length).filterMap fun i => l[σ.place l.length i]?

theorem Places.place_lt {n i : Nat} (h : i < n) : σ.place n i < n := by
  have hmem : σ.place n i ∈ (List.range n).map (σ.place n) := List.mem_map_of_mem (List.mem_range.mpr h)
  exact List.mem_range.mp ((σ.perm n).mem_iff.mp hmem)

theorem Places.exists_place {n k : Nat} (h : k < n) : ∃ i < n, σ.place n i = k := by
  obtain ⟨i, hi, hk⟩ := List.mem_map.mp ((σ.perm n).mem_iff.mpr (List.mem_range.mpr h))
  exact ⟨i, List.mem_range.mp hi, hk⟩

theorem Places.place_inj {n i j : Nat} (hi : i < n) (hj : j < n) (h : σ.place n i = σ.place n j) : i = j :=
  List.inj_on_of_nodup_map ((σ.perm n).nodup_iff.mpr List.nodup_range) (List.mem_range.mpr hi) (List.mem_range.mpr hj) h

theorem filterMap_getElem? {f : α → Option β} {xs : List α} (h : ∀ x ∈ xs, (f x).isSome) (i : Nat) :
    (xs.filterMap f)[i]? = xs[i]?.bind f := by
  induction xs generalizing i with
  | nil => rfl
  | cons x xs ih =>
    obtain ⟨y, hy⟩ := Option.isSome_iff_exists.mp (h x List.mem_cons_self)
    rw [List.filterMap_cons_some hy]
    cases i with
    | zero => exact hy.symm
    | succ i => exact ih (fun x hx => h x (List.mem_cons_of_mem _ hx)) i

/-- What comes to a place. -/
theorem getElem?_reordered (l : List α) {i : Nat} (h : i < l.length) :
    (reordered σ l)[i]? = l[σ.place l.length i]? := by
  rw [reordered, filterMap_getElem?, List.getElem?_range h, Option.bind_some]
  intro k hk
  rw [List.getElem?_eq_getElem (σ.place_lt (List.mem_range.mp hk))]
  rfl

theorem filterMap_range (l : List α) : (List.range l.length).filterMap (fun i => l[i]?) = l := by
  refine List.ext_getElem? fun i => ?_
  rw [filterMap_getElem?]
  · by_cases h : i < l.length
    · rw [List.getElem?_range h, Option.bind_some]
    · rw [List.getElem?_eq_none (by simpa using h), List.getElem?_eq_none (by simpa using h)]
      rfl
  · intro k hk
    rw [List.getElem?_eq_getElem (List.mem_range.mp hk)]
    rfl

theorem reordered_perm (l : List α) : (reordered σ l).Perm l := by
  have hmap : reordered σ l = ((List.range l.length).map (σ.place l.length)).filterMap fun i => l[i]? := by
    rw [List.filterMap_map]
    rfl
  have hperm := (σ.perm l.length).filterMap fun i => l[i]?
  rw [hmap]
  exact hperm.trans (List.Perm.of_eq (filterMap_range l))

theorem length_reordered (l : List α) : (reordered σ l).length = l.length := (reordered_perm σ l).length_eq

theorem map_reordered (f : α → β) (l : List α) : (reordered σ l).map f = reordered σ (l.map f) := by
  rw [reordered, reordered, List.map_filterMap, List.length_map]
  refine List.filterMap_congr fun i _ => ?_
  rw [List.getElem?_map]

theorem getElem?_reordered_of_le {l : List α} {i : Nat} (h : ¬ i < l.length) : (reordered σ l)[i]? = none :=
  List.getElem?_eq_none (by rw [length_reordered]; omega)

/-- The order changes nothing when each place gets the same as it had. -/
theorem reordered_eq_iff (l : List α) :
    reordered σ l = l ↔ ∀ i < l.length, l[σ.place l.length i]? = l[i]? := by
  constructor
  · intro h i hi
    rw [← getElem?_reordered σ l hi, h]
  · intro h
    refine List.ext_getElem? fun i => ?_
    by_cases hi : i < l.length
    · rw [getElem?_reordered σ l hi, h i hi]
    · rw [getElem?_reordered_of_le σ hi, List.getElem?_eq_none (by omega)]

/-- Lists of one length are told apart in any order. -/
theorem reordered_injective {l l' : List α} (hlength : l.length = l'.length)
    (h : reordered σ l = reordered σ l') : l = l' := by
  refine List.ext_getElem? fun k => ?_
  by_cases hk : k < l.length
  · obtain ⟨i, hi, rfl⟩ := σ.exists_place hk
    rw [← getElem?_reordered σ l hi, h, getElem?_reordered σ l' (hlength ▸ hi), hlength]
  · rw [List.getElem?_eq_none (by omega), List.getElem?_eq_none (by omega)]

/-- The generator as a shuffle. -/
def Places.shuffle : Shuffle α := ⟨reordered σ, reordered_perm σ⟩

end Reordered

/-! ## The migration -/

/-- What the migration reads and writes of the row of a trace; the other fields of its documents go along. -/
structure StoredTrace where
  id : ExerciseId
  choices : List Choice
  correctChoiceId : Option String
  explanation : List (String × Json)

namespace StoredTrace

def ids (row : StoredTrace) : List String := row.choices.map (·.id)

/-- The text and the misconception of each choice. -/
def contents (row : StoredTrace) : List (String × Option String) := row.choices.map fun c => (c.text, c.misconception)

def entries (row : StoredTrace) : List TraceEntry :=
  row.choices.map fun c => ⟨c.id, c.text, c.misconception, some c.id == row.correctChoiceId⟩

/-- `random.Random(f"trace-reshuffle:{row.id}")`. -/
def seed (row : StoredTrace) : String := s!"trace-reshuffle:{uuidText row.id}"

/-- The text of the correct choice. -/
def correctText (row : StoredTrace) : Option String := row.correctChoiceId.bind (textOfChoice row.choices)

/-- `{c["text"]: c.get("misconception") for c in choices}`, at a text. -/
def misconceptionOf (row : StoredTrace) (text : String) : Option (Option String) :=
  (row.choices.reverse.find? (·.text == text)).map (·.misconception)

/-- The row in its new order. -/
def relaid (rng : String → Places) (row : StoredTrace) : StoredTrace :=
  let (choices, correctId, idRemap) := reassignShuffledChoiceIds ((rng row.seed).shuffle.order row.entries)
  { row with
    choices
    correctChoiceId := some correctId
    explanation := remapTraceWhyWrong row.explanation idRemap }

end StoredTrace

/-- The `TextInvariantError`s. -/
inductive TextInvariantError
  | correctNotFound | correctTextChanged | textsChanged | misconceptionChanged
  deriving DecidableEq

/-- `_reshuffled`: the row in its new order, when the correct text, the texts and their misconceptions are the same. -/
def reshuffled (rng : String → Places) (row : StoredTrace) : Except TextInvariantError StoredTrace :=
  let new := row.relaid rng
  let texts := row.choices.map (·.text)
  if row.correctText = none then .error .correctNotFound
  else if new.correctText ≠ row.correctText then .error .correctTextChanged
  else if ¬ (new.choices.map (·.text)).Perm texts then .error .textsChanged
  else if ¬ ∀ text ∈ texts, new.misconceptionOf text = row.misconceptionOf text then .error .misconceptionChanged
  else .ok new

/-! ## New ids -/

section Renamed

variable (σ : Places)

/-- The old ids in the new order, each with its new one. -/
def newIds (ids : List String) : List (String × String) := (reordered σ ids).zip (sortIds ids)

/-- The text that an id is exchanged for. -/
def exchanged (m : List (String × String)) (id : String) : String := (remapped m id).getD id

/-- The new id of an old one; another text stays. -/
def renamed (ids : List String) (id : String) : String := exchanged (newIds σ ids) id

/-- The correct id is the one of the last correct entry. -/
theorem correctChoiceId_eq_find {α : Type} (isCorrect : α → Bool) (assigned : List (String × α)) :
    correctChoiceId isCorrect assigned = ((assigned.reverse.find? fun x => isCorrect x.2).map (·.1)).getD "" := by
  induction assigned using List.reverseRecOn with
  | nil => rfl
  | append_singleton assigned x ih =>
    rw [correctChoiceId, List.foldl_append, List.reverse_append, List.reverse_singleton, List.singleton_append,
      List.find?_cons]
    cases hx : isCorrect x.2 with
    | true => simp [hx]
    | false =>
      simp only [List.foldl_cons, List.foldl_nil, hx, Bool.false_eq_true, if_false]
      exact ih

theorem sortIds_reordered (ids : List String) : sortIds (reordered σ ids) = sortIds ids :=
  sortIds_eq (reordered_perm σ ids)

theorem sortIds_sortIds (ids : List String) : sortIds (sortIds ids) = sortIds ids := sortIds_eq (sortIds_perm ids)

end Renamed

section Relaid

variable (rng : String → Places) (row : StoredTrace)

theorem entries_oldId : row.entries.map (·.oldId) = row.ids := by
  rw [StoredTrace.entries, List.map_map]
  rfl

theorem entries_contents : (row.entries.map fun e => (e.text, e.misconception)) = row.contents := by
  rw [StoredTrace.entries, List.map_map]
  rfl

theorem relaid_ids : (row.relaid rng).ids = sortIds row.ids := by
  have hids : (row.relaid rng).ids = sortIds ((reordered (rng row.seed) row.entries).map (·.oldId)) := choices_id _
  rw [hids, map_reordered, entries_oldId, sortIds_reordered]

theorem relaid_contents : (row.relaid rng).contents = reordered (rng row.seed) row.contents := by
  have hcontents : (row.relaid rng).contents =
      (reordered (rng row.seed) row.entries).map fun e => (e.text, e.misconception) := choices_contents _
  rw [hcontents, map_reordered, entries_contents]

theorem idRemap_eq (order : List TraceEntry) : (reassignShuffledChoiceIds order).2.2 =
    (order.map (·.oldId)).zip (sortIds (order.map (·.oldId))) := by
  calc (assignIds order).map (fun x => (x.2.oldId, x.1))
      = ((assignIds order).map Prod.swap).map (Prod.map (·.oldId) id) := by rw [List.map_map]; rfl
    _ = (order.map (·.oldId)).zip (sortIds (order.map (·.oldId))) := by
      rw [assignIds, List.zip_swap, List.zip_map_left]

/-- The ids of the entries, each with its new one. -/
theorem idRemap_entries : (reassignShuffledChoiceIds (reordered (rng row.seed) row.entries)).2.2 =
    newIds (rng row.seed) row.ids := by
  rw [idRemap_eq, map_reordered, entries_oldId, sortIds_reordered, newIds]

theorem relaid_explanation :
    (row.relaid rng).explanation = remapTraceWhyWrong row.explanation (newIds (rng row.seed) row.ids) := by
  have hexplanation : (row.relaid rng).explanation = remapTraceWhyWrong row.explanation
    (reassignShuffledChoiceIds (reordered (rng row.seed) row.entries)).2.2 := rfl
  rw [hexplanation, idRemap_entries]

/-- The correct id is exchanged like the others. -/
theorem relaid_correctChoiceId {id : String} (h : row.correctChoiceId = some id) (hid : id ∈ row.ids) :
    (row.relaid rng).correctChoiceId = some (renamed (rng row.seed) row.ids id) := by
  have hcorrect : (row.relaid rng).correctChoiceId =
      some (correctChoiceId (·.isCorrect) (assignIds (reordered (rng row.seed) row.entries))) := rfl
  have hentry : ∀ e ∈ reordered (rng row.seed) row.entries, e.isCorrect = (e.oldId == id) := by
    intro e he
    obtain ⟨c, -, rfl⟩ := List.mem_map.mp ((reordered_perm _ _).mem_iff.mp he)
    rw [h]
    rfl
  -- both look for the last entry with the id
  have hfind : ((assignIds (reordered (rng row.seed) row.entries)).reverse.find? fun x => x.2.isCorrect) =
      (assignIds (reordered (rng row.seed) row.entries)).reverse.find? fun x => x.2.oldId == id :=
    List.find?_congr fun x hx => hentry _ (mem_of_mem_assignIds (List.mem_reverse.mp hx))
  have hremapped : remapped (newIds (rng row.seed) row.ids) id =
      ((assignIds (reordered (rng row.seed) row.entries)).reverse.find? fun x => x.2.oldId == id).map (·.1) := by
    rw [← idRemap_entries, remapped, reassignShuffledChoiceIds, ← List.map_reverse, List.find?_map, Option.map_map]
    rfl
  have hsome : (remapped (newIds (rng row.seed) row.ids) id).isSome := by
    rw [remapped, Option.isSome_map, List.find?_isSome]
    have hfst : id ∈ (newIds (rng row.seed) row.ids).map (·.1) := by
      rw [newIds, List.map_fst_zip]
      · exact (reordered_perm _ _).mem_iff.mpr hid
      · rw [length_reordered, (sortIds_perm row.ids).length_eq]
    obtain ⟨x, hx, hxid⟩ := List.mem_map.mp hfst
    exact ⟨x, List.mem_reverse.mpr hx, beq_iff_eq.mpr hxid⟩
  obtain ⟨new, hnew⟩ := Option.isSome_iff_exists.mp hsome
  rw [hcorrect, correctChoiceId_eq_find, hfind, renamed, exchanged, ← hremapped, hnew]
  rfl

end Relaid

/-! ## The notes -/

section NoteIds

variable (m m' : List (String × String))

def noteFieldId : String × Json → Option String
  | ("choice_id", .str id) => some id
  | _ => none

def idsOfNote : Json → List String
  | .obj fields => fields.filterMap noteFieldId
  | _ => []

def notesOfField : String × Json → Option (List Json)
  | ("why_wrong", .arr notes) => some notes
  | _ => none

/-- The ids that the notes on the wrong choices are under. -/
def noteIds (explanation : List (String × Json)) : List String :=
  explanation.flatMap fun field => ((notesOfField field).getD []).flatMap idsOfNote

theorem remapField_of_none {field : String × Json} (h : noteFieldId field = none) : remapField m field = field := by
  unfold remapField
  split
  · cases h
  · rfl

theorem eq_of_noteFieldId {field : String × Json} {id : String} (h : noteFieldId field = some id) :
    field = ("choice_id", .str id) := by
  unfold noteFieldId at h
  split at h
  · cases h
    rfl
  · cases h

theorem remapNotes_of_none {field : String × Json} (h : notesOfField field = none) : remapNotes m field = field := by
  unfold remapNotes
  split
  · cases h
  · rfl

theorem eq_of_notesOfField {field : String × Json} {notes : List Json} (h : notesOfField field = some notes) :
    field = ("why_wrong", .arr notes) := by
  unfold notesOfField at h
  split at h
  · cases h
    rfl
  · cases h

theorem remapField_twice_iff (field : String × Json) : remapField m' (remapField m field) = remapField m field ↔
    ∀ id ∈ noteFieldId field, exchanged m' (exchanged m id) = exchanged m id := by
  cases h : noteFieldId field with
  | none => simp [remapField_of_none _ h]
  | some id =>
    rw [eq_of_noteFieldId h]
    simp [remapField, exchanged]

theorem remapEntry_twice_iff (note : Json) : remapEntry m' (remapEntry m note) = remapEntry m note ↔
    ∀ id ∈ idsOfNote note, exchanged m' (exchanged m id) = exchanged m id := by
  cases note with
  | obj fields =>
    rw [remapEntry_obj, remapEntry_obj, List.map_map, Json.obj.injEq, List.map_inj_left]
    simp only [Function.comp_apply, remapField_twice_iff, idsOfNote, List.mem_filterMap, Option.mem_def]
    exact ⟨fun h id ⟨field, hmem, hid⟩ => h field hmem id hid, fun h field hmem id hid => h id ⟨field, hmem, hid⟩⟩
  | _ => simp [remapEntry, idsOfNote]

theorem remapNotes_twice_iff (field : String × Json) : remapNotes m' (remapNotes m field) = remapNotes m field ↔
    ∀ id ∈ ((notesOfField field).getD []).flatMap idsOfNote, exchanged m' (exchanged m id) = exchanged m id := by
  cases h : notesOfField field with
  | none => simp [remapNotes_of_none _ h]
  | some notes =>
    rw [eq_of_notesOfField h]
    simp only [remapNotes, List.map_map, Prod.mk.injEq, Json.arr.injEq, true_and, List.map_inj_left,
      Function.comp_apply, remapEntry_twice_iff, Option.getD_some, List.mem_flatMap]
    exact ⟨fun h id ⟨note, hmem, hid⟩ => h note hmem id hid, fun h note hmem id hid => h id ⟨note, hmem, hid⟩⟩

/-- A second exchange changes nothing when it keeps each id that the first one put. -/
theorem remapTraceWhyWrong_twice_iff (explanation : List (String × Json)) :
    remapTraceWhyWrong (remapTraceWhyWrong explanation m) m' = remapTraceWhyWrong explanation m ↔
      ∀ id ∈ noteIds explanation, exchanged m' (exchanged m id) = exchanged m id := by
  simp only [remapTraceWhyWrong_eq, List.map_map, List.map_inj_left, Function.comp_apply, remapNotes_twice_iff,
    noteIds, List.mem_flatMap]
  constructor
  · rintro h id ⟨field, hmem, note, hnote, hid⟩
    exact h field hmem id ⟨note, hnote, hid⟩
  · rintro h field hmem id ⟨note, hnote, hid⟩
    exact h id ⟨field, hmem, note, hnote, hid⟩

end NoteIds

/-! ## Places of ids -/

section ComesLastTo

variable (σ : Places) {ids : List String} {id : String} {j : Nat}

/-- The last place that the order brings the id to. -/
structure ComesLastTo (σ : Places) (ids : List String) (id : String) (j : Nat) : Prop where
  lt : j < ids.length
  here : ids[σ.place ids.length j]? = some id
  last : ∀ k < ids.length, j < k → ids[σ.place ids.length k]? ≠ some id

theorem remapped_cons (x : String × String) (m : List (String × String)) (id : String) :
    remapped (x :: m) id = (remapped m id).or (if x.1 = id then some x.2 else none) := by
  rw [remapped, remapped, List.reverse_cons, List.find?_append, Option.map_or]
  refine congrArg (Option.or _) ?_
  by_cases hx : x.1 = id <;> simp [hx]

theorem remapped_zip {l s : List String} (hlength : l.length = s.length) (hj : l[j]? = some id)
    (hlast : ∀ k, j < k → l[k]? ≠ some id) : remapped (l.zip s) id = s[j]? := by
  induction l generalizing s j with
  | nil => cases hj
  | cons a l ih =>
    cases s with
    | nil => cases hlength
    | cons b s =>
      rw [List.zip_cons_cons, remapped_cons]
      cases j with
      | zero =>
        -- the id comes no more
        have hnone : remapped (l.zip s) id = none := by
          refine remapped_of_notMem fun hmem => ?_
          rw [List.map_fst_zip (Nat.succ.inj hlength).le] at hmem
          obtain ⟨k, hk⟩ := List.mem_iff_getElem?.mp hmem
          exact hlast (k + 1) (Nat.succ_pos k) hk
        rw [hnone, if_pos (Option.some.inj hj)]
        rfl
      | succ j =>
        have hlt : j < s.length :=
          Nat.succ.inj hlength ▸ Nat.lt_of_succ_lt_succ (List.getElem?_eq_some_iff.mp hj).1
        rw [ih (Nat.succ.inj hlength) hj fun k hk => hlast (k + 1) (Nat.succ_lt_succ hk),
          List.getElem?_cons_succ, List.getElem?_eq_getElem hlt]
        rfl

theorem length_sortIds (ids : List String) : (sortIds ids).length = ids.length := (sortIds_perm ids).length_eq

/-- The new id of an old one is the one of the place. -/
theorem renamed_of_comesLastTo (h : ComesLastTo σ ids id j) : (sortIds ids)[j]? = some (renamed σ ids id) := by
  have hremapped : remapped (newIds σ ids) id = (sortIds ids)[j]? := by
    refine remapped_zip (by rw [length_reordered, length_sortIds]) ?_ fun k hk => ?_
    · rw [getElem?_reordered σ ids h.lt, h.here]
    · by_cases hlt : k < ids.length
      · rw [getElem?_reordered σ ids hlt]
        exact h.last k hlt hk
      · rw [getElem?_reordered_of_le σ hlt]
        exact nofun
  rw [renamed, exchanged, hremapped, List.getElem?_eq_getElem (length_sortIds ids ▸ h.lt)]
  rfl

theorem renamed_of_notMem (h : id ∉ ids) : renamed σ ids id = id := by
  rw [renamed, exchanged, remapped_of_notMem]
  · rfl
  · rw [newIds, List.map_fst_zip (by rw [length_reordered, length_sortIds])]
    exact fun hmem => h ((reordered_perm σ ids).mem_iff.mp hmem)

theorem exists_comesLastTo (h : id ∈ ids) : ∃ j, ComesLastTo σ ids id j := by
  classical
  obtain ⟨k, hk⟩ := List.mem_iff_getElem?.mp h
  obtain ⟨i, hi, hik⟩ := σ.exists_place (List.getElem?_eq_some_iff.mp hk).1
  let P : Nat → Prop := fun j => j < ids.length ∧ ids[σ.place ids.length j]? = some id
  have hspec : P (Nat.findGreatest P ids.length) := Nat.findGreatest_spec hi.le ⟨hi, hik ▸ hk⟩
  refine ⟨Nat.findGreatest P ids.length, hspec.1, hspec.2, fun k hk hgt hid => ?_⟩
  exact absurd (Nat.le_findGreatest hk.le (show P k from ⟨hk, hid⟩)) (Nat.not_le.mpr hgt)

/-- A second exchange keeps the new id exactly when the id of the last place it comes to is the same. -/
theorem renamed_twice_iff : renamed σ (sortIds ids) (renamed σ ids id) = renamed σ ids id ↔
    ∀ j k new, ComesLastTo σ ids id j → (sortIds ids)[j]? = some new → ComesLastTo σ (sortIds ids) new k →
      (sortIds ids)[k]? = some new := by
  constructor
  · intro h j k new hj hnew hk
    cases (renamed_of_comesLastTo σ hj).symm.trans hnew
    rw [← sortIds_sortIds ids, renamed_of_comesLastTo σ hk, h]
  · intro h
    by_cases hid : id ∈ ids
    · obtain ⟨j, hj⟩ := exists_comesLastTo σ hid
      have hnew := renamed_of_comesLastTo σ hj
      obtain ⟨k, hk⟩ := exists_comesLastTo σ (List.mem_of_getElem? hnew)
      have hagain := renamed_of_comesLastTo σ hk
      rw [sortIds_sortIds] at hagain
      exact Option.some.inj (hagain.symm.trans (h j k _ hj hnew hk))
    · rw [renamed_of_notMem σ hid, renamed_of_notMem σ fun hmem => hid ((sortIds_perm ids).mem_iff.mp hmem)]

/-- With ids of their own, each comes to one place. -/
theorem comesLastTo_of_nodup (hids : ids.Nodup) {k : Nat} (hj : j < ids.length) (hk : σ.place ids.length j = k)
    (hid : ids[k]? = some id) : ComesLastTo σ ids id j := by
  refine ⟨hj, hk ▸ hid, fun i hi hgt hsame => ?_⟩
  have hplace : σ.place ids.length i = k :=
    (List.getElem?_inj (σ.place_lt hi) hids).mp (hsame.trans hid.symm)
  exact absurd (σ.place_inj hi hj (hplace.trans hk.symm)) (Nat.ne_of_gt hgt)

/-- With ids of their own, a second exchange keeps the id of a choice exactly when the order keeps its place. -/
theorem renamed_twice_iff_place (hids : ids.Nodup) {k : Nat} (hk : k < ids.length) (hid : ids[k]? = some id) :
    renamed σ (sortIds ids) (renamed σ ids id) = renamed σ ids id ↔ σ.place ids.length k = k := by
  have hsorted : (sortIds ids).Nodup := (sortIds_perm ids).nodup_iff.mpr hids
  obtain ⟨j, hj, hjk⟩ := σ.exists_place hk
  obtain ⟨i, hi, hij⟩ := σ.exists_place hj
  have hnew := renamed_of_comesLastTo σ (comesLastTo_of_nodup σ hids hj hjk hid)
  have hagain := renamed_of_comesLastTo σ
    (comesLastTo_of_nodup σ hsorted (length_sortIds ids ▸ hi) (length_sortIds ids ▸ hij) hnew)
  rw [sortIds_sortIds] at hagain
  calc renamed σ (sortIds ids) (renamed σ ids id) = renamed σ ids id
      ↔ (sortIds ids)[i]? = (sortIds ids)[j]? := by rw [hagain, hnew, Option.some.injEq]
    _ ↔ i = j := ⟨fun h => (List.getElem?_inj (length_sortIds ids ▸ hi) hsorted).mp h, fun h => by rw [h]⟩
    _ ↔ σ.place ids.length k = k := by
      constructor
      · rintro rfl
        rw [← hjk, hij, hij]
      · intro h
        have hkj : j = k := σ.place_inj hj hk (hjk.trans h.symm)
        exact σ.place_inj hi hj (by rw [hij, hjk, hkj])

end ComesLastTo

/-! ## The checks -/

section Checks

variable {rng : String → Places} {row row' : StoredTrace}

theorem reshuffled_eq (h : reshuffled rng row = .ok row') :
    row' = row.relaid rng ∧ row.correctText ≠ none ∧ row'.correctText = row.correctText := by
  rw [reshuffled] at h
  split_ifs at h with hfound hcorrect htexts hmisconceptions
  · cases h
    exact ⟨rfl, hfound, not_not.mp hcorrect⟩

/-- A row that its order leaves as it is passes the checks. -/
theorem reshuffled_of_relaid (hfound : row.correctText ≠ none) (h : row.relaid rng = row) :
    reshuffled rng row = .ok row := by
  rw [reshuffled, h, if_neg hfound, if_neg (not_not.mpr rfl), if_neg (not_not.mpr (List.Perm.refl _)),
    if_neg (not_not.mpr fun _ _ => rfl)]

/-- The correct id is that of a choice. -/
theorem correctId_mem (h : row.correctText ≠ none) : ∃ id ∈ row.ids, row.correctChoiceId = some id := by
  rw [StoredTrace.correctText] at h
  cases hid : row.correctChoiceId with
  | none =>
    rw [hid] at h
    exact absurd rfl h
  | some id =>
    rw [hid, Option.bind_some] at h
    refine ⟨id, ?_, rfl⟩
    by_contra hmem
    exact h (textOfChoice_of_notMem hmem)

theorem choices_eq {choices choices' : List Choice} (hids : choices.map (·.id) = choices'.map (·.id))
    (hcontents : (choices.map fun c => (c.text, c.misconception)) = choices'.map fun c => (c.text, c.misconception)) :
    choices = choices' := by
  induction choices generalizing choices' with
  | nil => exact (List.map_eq_nil_iff.mp hids.symm).symm
  | cons c choices ih =>
    cases choices' with
    | nil => cases hids
    | cons c' choices' =>
      rw [List.map_cons, List.map_cons, List.cons.injEq] at hids hcontents
      obtain ⟨htext, hmisconception⟩ := Prod.mk.inj hcontents.1
      rw [ih hids.2 hcontents.2]
      cases c
      cases c'
      cases hids.1
      cases htext
      cases hmisconception
      rfl

theorem relaid_eq_iff (row' : StoredTrace) : row'.relaid rng = row' ↔
    (row'.relaid rng).ids = row'.ids ∧ (row'.relaid rng).contents = row'.contents ∧
      (row'.relaid rng).correctChoiceId = row'.correctChoiceId ∧
      (row'.relaid rng).explanation = row'.explanation := by
  constructor
  · intro h
    rw [h]
    exact ⟨rfl, rfl, rfl, rfl⟩
  · rintro ⟨hids, hcontents, hcorrect, hexplanation⟩
    have hchoices : (row'.relaid rng).choices = row'.choices := choices_eq hids hcontents
    have hid : (row'.relaid rng).id = row'.id := rfl
    generalize row'.relaid rng = again at *
    cases again
    cases row'
    cases hid
    cases hchoices
    cases hcorrect
    cases hexplanation
    rfl

/-- What the second run has to leave as it is. -/
theorem relaid_twice_iff (hfound : row.correctText ≠ none) (hfound' : (row.relaid rng).correctText ≠ none) :
    (row.relaid rng).relaid rng = row.relaid rng ↔
      reordered (rng row.seed) row.contents = row.contents ∧
      ∀ id ∈ row.correctChoiceId.toList ++ noteIds row.explanation,
        renamed (rng row.seed) (sortIds row.ids) (renamed (rng row.seed) row.ids id) =
          renamed (rng row.seed) row.ids id := by
  have hseed : (row.relaid rng).seed = row.seed := rfl
  obtain ⟨id, hid, hcorrect⟩ := correctId_mem hfound
  obtain ⟨id', hid', hcorrect'⟩ := correctId_mem hfound'
  have hnew := relaid_correctChoiceId rng row hcorrect hid
  cases hcorrect'.symm.trans hnew
  have hids : ((row.relaid rng).relaid rng).ids = (row.relaid rng).ids := by
    rw [relaid_ids, relaid_ids, sortIds_sortIds]
  have hcontents : ((row.relaid rng).relaid rng).contents = (row.relaid rng).contents ↔
      reordered (rng row.seed) row.contents = row.contents := by
    rw [relaid_contents, hseed, relaid_contents]
    exact ⟨fun h => reordered_injective _ (length_reordered _ _) h, fun h => by rw [h, h]⟩
  have hkey : ((row.relaid rng).relaid rng).correctChoiceId = (row.relaid rng).correctChoiceId ↔
      renamed (rng row.seed) (sortIds row.ids) (renamed (rng row.seed) row.ids id) =
        renamed (rng row.seed) row.ids id := by
    rw [relaid_correctChoiceId rng (row.relaid rng) hnew hid', hnew, hseed, relaid_ids, Option.some.injEq]
  have hnotes : ((row.relaid rng).relaid rng).explanation = (row.relaid rng).explanation ↔
      ∀ id ∈ noteIds row.explanation, renamed (rng row.seed) (sortIds row.ids) (renamed (rng row.seed) row.ids id) =
        renamed (rng row.seed) row.ids id := by
    rw [relaid_explanation, hseed, relaid_ids, relaid_explanation]
    exact remapTraceWhyWrong_twice_iff _ _ _
  rw [relaid_eq_iff, hcontents, hkey, hnotes, hcorrect]
  simp only [hids, true_and, Option.toList_some, List.singleton_append, List.forall_mem_cons]

theorem misconceptionOf_eq (row : StoredTrace) (text : String) :
    row.misconceptionOf text = (row.contents.reverse.find? (·.1 == text)).map (·.2) := by
  rw [StoredTrace.misconceptionOf, StoredTrace.contents, ← List.map_reverse, List.find?_map, Option.map_map]
  rfl

/-- When a text has one misconception, it is the one of any choice with the text. -/
theorem find?_of_mem {contents : List (String × Option String)} {x : String × Option String}
    (hsame : ∀ y ∈ contents, y.1 = x.1 → y.2 = x.2) (hx : x ∈ contents) :
    (contents.reverse.find? (·.1 == x.1)).map (·.2) = some x.2 := by
  have hsome : (contents.reverse.find? (·.1 == x.1)).isSome :=
    List.find?_isSome.mpr ⟨x, List.mem_reverse.mpr hx, beq_self_eq_true x.1⟩
  obtain ⟨y, hy⟩ := Option.isSome_iff_exists.mp hsome
  have hmem : y ∈ contents := List.mem_reverse.mp (List.mem_of_find?_eq_some hy)
  have htext := List.find?_some hy
  rw [beq_iff_eq] at htext
  rw [hy, Option.map_some, hsame y hmem htext]

/-- A row passes the checks in any order when its ids are its own, the correct one is there, and no two choices of one
text have different misconceptions. -/
theorem reshuffled_ok (hids : row.ids.Nodup) (hfound : row.correctText ≠ none)
    (hsame : ∀ x ∈ row.contents, ∀ y ∈ row.contents, y.1 = x.1 → y.2 = x.2) :
    reshuffled rng row = .ok (row.relaid rng) := by
  obtain ⟨id, hid, hcorrect⟩ := correctId_mem hfound
  have hcontents := relaid_contents rng row
  have hperm := reordered_perm (rng row.seed) row.contents
  have htext : (row.relaid rng).correctText = row.correctText := by
    obtain ⟨c, hc, rfl⟩ := List.mem_map.mp hid
    have hentry : ⟨c.id, c.text, c.misconception, some c.id == row.correctChoiceId⟩ ∈
        reordered (rng row.seed) row.entries :=
      (reordered_perm _ _).mem_iff.mpr (List.mem_map.mpr ⟨c, hc, rfl⟩)
    have hnodup : ((reordered (rng row.seed) row.entries).map (·.oldId)).Nodup := by
      rw [map_reordered, entries_oldId]
      exact (reordered_perm _ _).nodup_iff.mpr hids
    obtain ⟨new, hnew, htext, -⟩ := exists_newId hnodup hentry
    rw [idRemap_entries] at hnew
    have hrenamed : renamed (rng row.seed) row.ids c.id = new := by
      rw [renamed, exchanged, hnew]
      rfl
    rw [StoredTrace.correctText, relaid_correctChoiceId rng row hcorrect hid, hrenamed, StoredTrace.correctText, hcorrect,
      Option.bind_some, Option.bind_some, textOfChoice_of_mem hids hc]
    exact htext
  have htexts : ((row.relaid rng).choices.map (·.text)).Perm (row.choices.map (·.text)) := by
    have h := (hcontents ▸ hperm).map Prod.fst
    rw [StoredTrace.contents, StoredTrace.contents, List.map_map, List.map_map] at h
    exact h
  have hmisconceptions : ∀ text ∈ row.choices.map (·.text),
      (row.relaid rng).misconceptionOf text = row.misconceptionOf text := by
    intro text htext
    obtain ⟨c, hc, rfl⟩ := List.mem_map.mp htext
    have hmem : (c.text, c.misconception) ∈ row.contents := List.mem_map.mpr ⟨c, hc, rfl⟩
    rw [misconceptionOf_eq, misconceptionOf_eq, hcontents,
      find?_of_mem (fun y hy => hsame _ hmem y (hperm.mem_iff.mp hy)) (hperm.mem_iff.mpr hmem),
      find?_of_mem (hsame _ hmem) hmem]
  rw [reshuffled, if_neg hfound, if_neg (not_not.mpr htext), if_neg (not_not.mpr htexts), if_neg (not_not.mpr hmisconceptions)]

end Checks

/-! ## A second run -/

/-- The order leaves the row as the first run does: a choice comes where one of the same text and misconception was, and
of the correct choice and those that the notes are about, each id comes to the place where the next run finds it. -/
structure Settled (σ : Places) (row : StoredTrace) : Prop where
  contents : ∀ i < row.contents.length, row.contents[σ.place row.contents.length i]? = row.contents[i]?
  ids : ∀ id ∈ row.correctChoiceId.toList ++ noteIds row.explanation, ∀ j k new, ComesLastTo σ row.ids id j →
    (sortIds row.ids)[j]? = some new → ComesLastTo σ (sortIds row.ids) new k → (sortIds row.ids)[k]? = some new

/-- The same for ids of their own: the correct choice and those that the notes are about keep their places. -/
structure Fixed (σ : Places) (row : StoredTrace) : Prop where
  contents : ∀ i < row.contents.length, row.contents[σ.place row.contents.length i]? = row.contents[i]?
  ids : ∀ id ∈ row.correctChoiceId.toList ++ noteIds row.explanation, ∀ k, row.ids[k]? = some id →
    σ.place row.ids.length k = k

theorem settled_iff_fixed (σ : Places) {row : StoredTrace} (hids : row.ids.Nodup) : Settled σ row ↔ Fixed σ row := by
  have hid : ∀ id, (∀ j k new, ComesLastTo σ row.ids id j → (sortIds row.ids)[j]? = some new →
      ComesLastTo σ (sortIds row.ids) new k → (sortIds row.ids)[k]? = some new) ↔
      ∀ k, row.ids[k]? = some id → σ.place row.ids.length k = k := by
    intro id
    rw [← renamed_twice_iff]
    constructor
    · intro h k hk
      exact (renamed_twice_iff_place σ hids (List.getElem?_eq_some_iff.mp hk).1 hk).mp h
    · intro h
      by_cases hmem : id ∈ row.ids
      · obtain ⟨k, hk⟩ := List.mem_iff_getElem?.mp hmem
        exact (renamed_twice_iff_place σ hids (List.getElem?_eq_some_iff.mp hk).1 hk).mpr (h k hk)
      · rw [renamed_of_notMem σ hmem, renamed_of_notMem σ fun h => hmem ((sortIds_perm row.ids).mem_iff.mp h)]
  constructor
  · intro h
    exact ⟨h.contents, fun id hmem => (hid id).mp (h.ids id hmem)⟩
  · intro h
    exact ⟨h.contents, fun id hmem => (hid id).mpr (h.ids id hmem)⟩

/-- When there is a note on each wrong choice, the order has to leave every place. -/
theorem fixed_iff_of_noted (σ : Places) {row : StoredTrace}
    (hnoted : ∀ id ∈ row.ids, id ∈ row.correctChoiceId.toList ++ noteIds row.explanation) :
    Fixed σ row ↔ ∀ k < row.ids.length, σ.place row.ids.length k = k := by
  have hlength : row.contents.length = row.ids.length := by
    rw [StoredTrace.contents, StoredTrace.ids, List.length_map, List.length_map]
  constructor
  · intro h k hk
    have hmem : row.ids[k] ∈ row.ids := List.getElem_mem hk
    exact h.ids _ (hnoted _ hmem) k (List.getElem?_eq_getElem hk)
  · intro h
    exact ⟨fun i hi => by rw [hlength, h i (hlength ▸ hi)], fun _ _ k hk => h k (List.getElem?_eq_some_iff.mp hk).1⟩

/-- **When the migration is idempotent**: a second run gives what the first gave exactly when the order of the seed leaves
the row as it is; the order is taken of what is stored, and a second run takes it again. With ids of their own that is,
the correct choice and those that the notes are about have to keep their places. -/
theorem reshuffled_twice_iff {rng : String → Places} {row row' : StoredTrace} (h : reshuffled rng row = .ok row') :
    (reshuffled rng row' = .ok row' ↔ Settled (rng row.seed) row) ∧
    (row.ids.Nodup → (reshuffled rng row' = .ok row' ↔ Fixed (rng row.seed) row)) := by
  obtain ⟨rfl, hfound, htext⟩ := reshuffled_eq h
  have hfound' : (row.relaid rng).correctText ≠ none := htext ▸ hfound
  have htwice : reshuffled rng (row.relaid rng) = .ok (row.relaid rng) ↔
      (row.relaid rng).relaid rng = row.relaid rng :=
    ⟨fun h => (reshuffled_eq h).1.symm, fun h => reshuffled_of_relaid hfound' h⟩
  have hsettled : reshuffled rng (row.relaid rng) = .ok (row.relaid rng) ↔ Settled (rng row.seed) row := by
    rw [htwice, relaid_twice_iff hfound hfound', reordered_eq_iff]
    simp only [renamed_twice_iff]
    exact ⟨fun h => ⟨h.1, h.2⟩, fun h => ⟨h.contents, h.ids⟩⟩
  exact ⟨hsettled, fun hids => hsettled.trans (settled_iff_fixed _ hids)⟩

/-- The order of the seed of the exercise `…0001`, for four choices: the other way round. -/
def backwardPlaces : Places where
  place n i := n - 1 - i
  perm n := by
    have hreverse : (List.range n).map (fun i => n - 1 - i) = (List.range n).reverse := by
      rw [List.range_eq_range', List.reverse_range', ← List.range_eq_range', Nat.zero_add]
    exact hreverse ▸ List.reverse_perm _

/-- The order of the seed of the exercise `…0003`, for four choices: as it is. -/
def samePlaces : Places where
  place _ i := i
  perm n := by rw [List.map_id']

def storedSum (id : ExerciseId) : StoredTrace :=
  ⟨id, [⟨"a", "3", none⟩, ⟨"b", "12", some "concatenation"⟩, ⟨"c", "2", some "the last term"⟩, ⟨"d", "1", none⟩],
    some "a", [("why_wrong", .arr [.obj [("choice_id", .str "b")]])]⟩

theorem reshuffled_storedSum (rng : String → Places) (id : ExerciseId) :
    reshuffled rng (storedSum id) = .ok ((storedSum id).relaid rng) := by
  refine reshuffled_ok ?_ ?_ ?_
  · show ["a", "b", "c", "d"].Nodup
    decide
  · show some "3" ≠ none
    decide
  · show ∀ x ∈ [("3", none), ("12", some "concatenation"), ("2", some "the last term"), ("1", none)],
      ∀ y ∈ [("3", none), ("12", some "concatenation"), ("2", some "the last term"), ("1", none)], y.1 = x.1 → y.2 = x.2
    decide

theorem reshuffled_twice_iff_sum :
    (reshuffled (fun _ => samePlaces) ((storedSum 3).relaid fun _ => samePlaces) =
      .ok ((storedSum 3).relaid fun _ => samePlaces) ↔ Settled samePlaces (storedSum 3)) ∧
    ((storedSum 3).ids.Nodup → (reshuffled (fun _ => samePlaces) ((storedSum 3).relaid fun _ => samePlaces) =
      .ok ((storedSum 3).relaid fun _ => samePlaces) ↔ Fixed samePlaces (storedSum 3))) :=
  reshuffled_twice_iff (reshuffled_storedSum (fun _ => samePlaces) 3)

/-- The second run turns the choices back. -/
theorem reshuffled_turns_back : ¬ ∀ (rng : String → Places) (row row' : StoredTrace), reshuffled rng row = .ok row' →
    reshuffled rng row' = .ok row' := by
  intro h
  have hagain := (reshuffled_eq (h _ _ _ (reshuffled_storedSum (fun _ => backwardPlaces) 1))).1
  have hcontents : ((storedSum 1).relaid fun _ => backwardPlaces).contents =
      reordered backwardPlaces (storedSum 1).contents := relaid_contents _ _
  have hturned : reordered backwardPlaces (reordered backwardPlaces (storedSum 1).contents) =
      reordered backwardPlaces (storedSum 1).contents := by
    rw [← hcontents, ← relaid_contents (fun _ => backwardPlaces) ((storedSum 1).relaid fun _ => backwardPlaces), ← hagain]
  have hdiffer : reordered backwardPlaces (reordered backwardPlaces (storedSum 1).contents) ≠
      reordered backwardPlaces (storedSum 1).contents := by decide
  exact hdiffer hturned

end CodeReader.Pipeline
