import CodeReader.Pipeline.Publish
import Mathlib.Data.List.Nodup

/-!
# What is published can be answered

Schema, gates, publication and grader together: a row made of an accepted candidate against the answers that the API
takes.

* `displayedChoices`, `storedChoice` — what a row shows, and what it holds as correct;
* `STBAnswerable`, `TraceAnswerable`, `PTFAnswerable` — a correct answer exists, and what the solver answered is one;
* `TraceCandidate.Keyed` — the correct id is that of a choice, and no two choices share one;
* `published_answerable` — **when a row can be answered**: always for `predict_the_fix`, of a code with a bug for
  `spot_the_bug`, and of a keyed candidate for `trace`.
-/

namespace CodeReader.Pipeline

open Text Attempts

/-! ## Entries under their ids -/

section Entries

variable {α : Type} {isCorrect : α → Bool}

theorem correctChoiceId_foldl_of_none {assigned : List (String × α)} (h : ∀ x ∈ assigned, isCorrect x.2 = false) (id : String) :
    assigned.foldl (fun correct (id, e) => if isCorrect e then id else correct) id = id := by
  induction assigned with
  | nil => rfl
  | cons x assigned ih =>
    have hx := h x List.mem_cons_self
    rw [List.foldl_cons]
    dsimp only
    rw [if_neg (by rw [hx]; exact Bool.false_ne_true)]
    exact ih fun y hy => h y (List.mem_cons_of_mem x hy)

theorem correctChoiceId_of_none {assigned : List (String × α)} (h : ∀ x ∈ assigned, isCorrect x.2 = false) :
    correctChoiceId isCorrect assigned = "" :=
  correctChoiceId_foldl_of_none h ""

/-- The id in front of the last correct entry. -/
theorem correctChoiceId_of_last (before after : List (String × α)) (id : String) (e : α) (he : isCorrect e = true)
    (hafter : ∀ x ∈ after, isCorrect x.2 = false) : correctChoiceId isCorrect (before ++ (id, e) :: after) = id := by
  rw [correctChoiceId, List.foldl_append, List.foldl_cons]
  dsimp only
  rw [if_pos he]
  exact correctChoiceId_foldl_of_none hafter id

/-- Where an entry stands among the entries, there it stands with its id. -/
theorem exists_split_of_snd {assigned : List (String × α)} {before after : List α} {e : α}
    (h : assigned.map (·.2) = before ++ e :: after) : ∃ id front back, assigned = front ++ (id, e) :: back ∧
      front.map (·.2) = before ∧ back.map (·.2) = after := by
  obtain ⟨front, rest, hsplit, hfront, hrest⟩ := List.map_eq_append_iff.mp h
  obtain ⟨⟨id, e'⟩, back, rfl, rfl, hback⟩ := List.map_eq_cons_iff.mp hrest
  exact ⟨id, front, back, hsplit, hfront, hback⟩

/-- With ids of their own, one entry has the id. -/
theorem filter_id_eq_singleton (before after : List (String × α)) (x : String × α)
    (h : ((before ++ x :: after).map (·.1)).Nodup) : (before ++ x :: after).filter (·.1 == x.1) = [x] := by
  rw [List.map_append, List.map_cons, List.nodup_append, List.nodup_cons] at h
  obtain ⟨-, ⟨hafter, -⟩, hbefore⟩ := h
  have hb : before.filter (·.1 == x.1) = [] := List.filter_eq_nil_iff.mpr fun y hy heq =>
    hbefore y.1 (List.mem_map_of_mem hy) x.1 List.mem_cons_self (eq_of_beq heq)
  have ha : after.filter (·.1 == x.1) = [] := List.filter_eq_nil_iff.mpr fun y hy heq =>
    hafter (eq_of_beq heq ▸ List.mem_map_of_mem hy)
  have hx : (x :: after).filter (·.1 == x.1) = x :: after.filter (·.1 == x.1) :=
    List.filter_cons_of_pos (p := fun y : String × α => y.1 == x.1) (beq_self_eq_true x.1)
  rw [List.filter_append, hb, hx, ha, List.nil_append]

end Entries

theorem remapped_of_mem {idRemap : List (String × String)} (h : (idRemap.map (·.1)).Nodup) {old new : String}
    (hmem : (old, new) ∈ idRemap) : remapped idRemap old = some new := by
  obtain ⟨before, after, rfl⟩ := List.append_of_mem hmem
  have hone := filter_id_eq_singleton before after (old, new) h
  have hfind : (before ++ (old, new) :: after).reverse.find? (·.1 == old) = some (old, new) := by
    rw [← List.head?_filter, List.filter_reverse, hone]
    rfl
  rw [remapped, hfind]
  rfl

/-! ## What a row shows and holds -/

/-- The id and the text of a choice. -/
def readChoice (item : Json) : Option (String × String) := do
  let id ← (item.get? "id").bind Attempts.readStr
  let text ← (item.get? "text").bind Attempts.readStr
  some (id, text)

/-- Every choice is read back. -/
theorem filterMap_readChoice {α : Type} (l : List α) {item : α → Json} {shown : α → String × String}
    (h : ∀ x, readChoice (item x) = some (shown x)) : (l.map item).filterMap readChoice = l.map shown := by
  have hread : readChoice ∘ item = some ∘ shown := funext h
  rw [List.filterMap_map, hread, List.filterMap_eq_map]

/-- The choices in a payload. -/
def displayedOf (payload : Json) : List (String × String) :=
  match payload.get? "choices" with
  | some (.arr items) => items.filterMap readChoice
  | _ => []

def displayedChoices (e : Exercise) : List (String × String) := displayedOf ((Json.loads e.payload).getD .null)

/-- The id that the row holds as correct. -/
def storedChoice (e : Exercise) : Option String := ((gradingOf e).get? "correct_choice_id").bind Attempts.readStr

/-- Exactly one displayed choice has the id that is stored as correct, and this is its text. -/
def OneCorrect (e : Exercise) (text : String) : Prop :=
  ∃ id, storedChoice e = some id ∧ (displayedChoices e).filter (·.1 == id) = [(id, text)]

/-- The answer of the solver as a request. -/
def answerFields (a : SolverAnswer) : List (String × Json) :=
  (a.line.map fun n => ("line", .int n)).toList ++ (a.reasonId.map fun s => ("reason_id", .str s)).toList ++
    (a.choiceId.map fun s => ("choice_id", .str s)).toList

theorem textIs_storedChoice {e : Exercise} {id : String} :
    textIs id "correct_choice_id" (gradingOf e) = true ↔ storedChoice e = some id := beq_iff_eq

/-! ## Spot the bug -/

theorem gradingOf_exerciseRow (spec : ExerciseSpec) (type : String) (concepts : Concepts) (r : Receipts)
    (source payload grading : Json) (explanation : List (String × Json)) :
    gradingOf (exerciseRow spec type concepts r source payload grading explanation) = grading := by
  rw [gradingOf, exerciseRow, Json.loads_dumps]
  rfl

theorem answerMatches_of_pass {s : SolverResponse} {correctAnswer : SolverAnswer} {keys : Option (List String)}
    {lines : Option (List Nat)} (h : solver (.response s) correctAnswer keys lines = .pass) :
    answerMatches s.answer correctAnswer keys lines = true := by
  rw [solver] at h
  split_ifs at h with _ hmatch
  exact hmatch

/-- What passed with a key of lines is one of them, the reason and nothing else. -/
theorem eq_of_answerMatches_lines {a : SolverAnswer} {line : Nat} {reasonId : String} {lines : List Nat}
    (h : answerMatches a { line := some line, reasonId := some reasonId } none (some lines) = true) :
    ∃ k ∈ lines, a = { line := some (k : Int), reasonId := some reasonId } := by
  obtain ⟨l, reason, choice⟩ := a
  rw [answerMatches, Bool.and_eq_true] at h
  obtain ⟨hline, hrest⟩ := h
  cases l with
  | none => cases hline
  | some n =>
    obtain ⟨k, hk, hn⟩ := List.any_eq_true.mp hline
    have hn' : n = k := eq_of_beq hn
    have hrest' : (⟨none, reason, choice⟩ : SolverAnswer) = ⟨none, some reasonId, none⟩ := eq_of_beq hrest
    injection hrest' with _ hreason hchoice
    exact ⟨k, hk, by rw [hn', hreason, hchoice]⟩

theorem accepts_mem {checks : List GateCheck} (h : accepts checks = true) {check : GateCheck} (hmem : check ∈ checks) :
    check.passed = true :=
  List.all_eq_true.mp h check hmem

/-- An accepted candidate comes with its key. -/
theorem verified_of_accepted {run : Runs} {candidate : STBCandidate} {hasBug : Bool}
    (h : (validateSpotTheBug run candidate hasBug).accepted = true) :
    ∃ lines, verifyBugLines candidate hasBug = some lines ∧
      (validateSpotTheBug run candidate hasBug).verifiedBugLines = some lines := by
  have hcheck : (verifyBugLines candidate hasBug).isSome = true :=
    accepts_mem h (List.mem_append_left _ (List.mem_cons_of_mem _ (List.mem_cons_of_mem _ (List.mem_cons_of_mem _
      (List.mem_cons_of_mem _ List.mem_cons_self)))))
  obtain ⟨lines, hlines⟩ := Option.isSome_iff_exists.mp hcheck
  refine ⟨lines, hlines, ?_⟩
  have hverified : (validateSpotTheBug run candidate hasBug).verifiedBugLines =
      if (validateSpotTheBug run candidate hasBug).accepted then verifyBugLines candidate hasBug else none := rfl
  rw [hverified, if_pos h, hlines]

theorem verifyBugLines_bug {candidate : STBCandidate} {lines : List Nat} (h : verifyBugLines candidate true = some lines) :
    lines = diffChangedLines candidate.buggyCode candidate.fixedCode ∧ lines ≠ [] := by
  rw [verifyBugLines, if_pos rfl] at h
  split at h
  · cases h
  · rename_i hreal
    obtain rfl := Option.some.inj h
    exact ⟨rfl, fun hnil => hreal (Or.inl (by rw [hnil]; rfl))⟩

theorem verifyBugLines_clean {candidate : STBCandidate} {lines : List Nat} (h : verifyBugLines candidate false = some lines) :
    lines = [] := by
  rw [verifyBugLines, if_neg Bool.false_ne_true] at h
  split at h
  · exact (Option.some.inj h).symm
  · cases h

section STB

variable (sha256 : String → String) (spec : ExerciseSpec) (run : Runs) (r : Receipts)

/-- The row of an accepted candidate. -/
def publishedSTB (candidate : STBCandidate) : Exercise :=
  stbRow sha256 spec candidate (validateSpotTheBug run candidate (spec.hasBug == some true)).verifiedBugLines r

/-- Some answer is marked correct, and every one by which the solver passed. -/
def STBAnswerable (candidate : STBCandidate) : Prop :=
  let verified := (validateSpotTheBug run candidate (spec.hasBug == some true)).verifiedBugLines.getD []
  (∃ answer, MarkedCorrect (publishedSTB sha256 spec run r candidate) answer) ∧
    ∀ s, stbSolver candidate (spec.hasBug == some true) verified (.response s) = .pass →
      MarkedCorrect (publishedSTB sha256 spec run r candidate) (answerFields s.answer)

theorem lineIn_stbRow (candidate : STBCandidate) (lines : List Nat) (line : Int) :
    lineIn line (gradingOf (stbRow sha256 spec candidate (some lines) r)) = .ok (lines.any fun k => line == k) := by
  have hget : (stbGrading sha256 candidate lines r.sandboxReport).get? "correct_lines" =
      some (.arr (lines.map fun (k : Nat) => .int k)) := rfl
  rw [stbRow, gradingOf_exerciseRow, Option.getD_some, lineIn, hget]
  dsimp only
  rw [List.any_map]
  congr 2
  funext k
  exact Bool.eq_iff_iff.mpr ⟨fun h => beq_iff_eq.mpr (Option.some.inj (eq_of_beq h)).symm, fun h =>
    beq_iff_eq.mpr (congrArg some (eq_of_beq h).symm)⟩

/-- **A verified line with the keyed reason is marked correct**, and no other line. -/
theorem markedCorrect_stbRow {candidate : STBCandidate} {lines : List Nat} {line : Int} :
    MarkedCorrect (stbRow sha256 spec candidate (some lines) r) (lineAnswer line candidate.correctReasonId) ↔
      ∃ k ∈ lines, line = (k : Int) := by
  have hreason : textIs candidate.correctReasonId "correct_reason_id"
      (gradingOf (stbRow sha256 spec candidate (some lines) r)) = true := by
    rw [stbRow, gradingOf_exerciseRow]
    exact beq_self_eq_true (some candidate.correctReasonId)
  rw [markedCorrect_lineAnswer rfl, lineIn_stbRow, hreason]
  constructor
  · intro h
    obtain ⟨k, hk, heq⟩ := List.any_eq_true.mp (Except.ok.inj h.1)
    exact ⟨k, hk, eq_of_beq heq⟩
  · rintro ⟨k, hk, rfl⟩
    exact ⟨congrArg Except.ok (List.any_eq_true.mpr ⟨k, hk, beq_self_eq_true _⟩), rfl⟩

/-- The key of a code without a bug is empty: nothing is marked correct. -/
theorem not_markedCorrect_of_clean {candidate : STBCandidate}
    (h : (validateSpotTheBug run candidate (spec.hasBug == some true)).accepted = true) (hbug : spec.hasBug ≠ some true)
    (answer : List (String × Json)) : ¬ MarkedCorrect (publishedSTB sha256 spec run r candidate) answer := by
  obtain ⟨lines, hverify, hverified⟩ := verified_of_accepted h
  have hfalse : (spec.hasBug == some true) = false := beq_eq_false_iff_ne.mpr hbug
  rw [hfalse] at hverify
  obtain rfl := verifyBugLines_clean hverify
  intro hanswer
  rw [publishedSTB, hverified] at hanswer
  obtain ⟨line, hline⟩ := exists_of_markedCorrect hanswer rfl
  rw [lineIn_stbRow] at hline
  cases hline

/-- **A code with a bug can be answered, one without cannot.** -/
theorem stbAnswerable_iff {candidate : STBCandidate}
    (h : (validateSpotTheBug run candidate (spec.hasBug == some true)).accepted = true) :
    STBAnswerable sha256 spec run r candidate ↔ spec.hasBug = some true := by
  by_cases hbug : spec.hasBug = some true
  · obtain ⟨lines, hverify, hverified⟩ := verified_of_accepted h
    rw [STBAnswerable, publishedSTB, hverified, Option.getD_some]
    have htrue : (spec.hasBug == some true) = true := beq_iff_eq.mpr hbug
    rw [htrue] at hverify
    rw [htrue]
    obtain ⟨-, hne⟩ := verifyBugLines_bug hverify
    refine iff_of_true ⟨?_, fun s hs => ?_⟩ hbug
    · obtain ⟨k, hk⟩ := List.exists_mem_of_ne_nil lines hne
      exact ⟨lineAnswer k candidate.correctReasonId, (markedCorrect_stbRow sha256 spec r).mpr ⟨k, hk, rfl⟩⟩
    · cases lines with
      | nil => exact absurd rfl hne
      | cons line rest =>
        obtain ⟨k, hk, ha⟩ := eq_of_answerMatches_lines (answerMatches_of_pass hs)
        rw [ha]
        exact (markedCorrect_stbRow sha256 spec r).mpr ⟨k, hk, rfl⟩
  · exact iff_of_false (fun ⟨⟨answer, hanswer⟩, _⟩ => not_markedCorrect_of_clean sha256 spec run r h hbug answer hanswer) hbug

end STB

/-! ## Trace -/

/-- A word that stands often in a list stands late in it. -/
theorem exists_getElem_of_count (l : List String) (x : String) (h : 0 < l.count x) :
    ∃ p, ∃ hp : p < l.length, l[p] = x ∧ l.count x ≤ p + 1 := by
  induction l using List.reverseRecOn with
  | nil => simp at h
  | append_singleton l y ih =>
    by_cases hy : y = x
    · refine ⟨l.length, by simp, by simp [hy], ?_⟩
      calc (l ++ [y]).count x ≤ (l ++ [y]).length := List.count_le_length
        _ = l.length + 1 := by simp
    · have hcount : (l ++ [y]).count x = l.count x := by
        rw [List.count_append, List.count_singleton, if_neg (by simpa using hy), Nat.add_zero]
      rw [hcount] at h ⊢
      obtain ⟨p, hp, hx, hle⟩ := ih h
      exact ⟨p, by rw [List.length_append]; omega, by rw [List.getElem_append_left hp]; exact hx, hle⟩

section Assign

variable {order : List TraceEntry}

theorem sortIds_perm (ids : List String) : (sortIds ids).Perm ids := List.mergeSort_perm ids _

theorem sortIds_eq {ids ids' : List String} (h : ids.Perm ids') : sortIds ids = sortIds ids' :=
  (((sortIds_perm ids).trans h).trans (sortIds_perm ids').symm).eq_of_pairwise' (List.pairwise_mergeSort' (· ≤ ·) ids)
    (List.pairwise_mergeSort' (· ≤ ·) ids')

theorem assignIds_fst (order : List TraceEntry) : (assignIds order).map (·.1) = sortIds (order.map (·.oldId)) := by
  refine List.map_fst_zip ?_
  rw [(sortIds_perm _).length_eq, List.length_map]

theorem assignIds_snd (order : List TraceEntry) : (assignIds order).map (·.2) = order := by
  refine List.map_snd_zip ?_
  rw [(sortIds_perm _).length_eq, List.length_map]

theorem mem_of_mem_assignIds {x : String × TraceEntry} (h : x ∈ assignIds order) : x.2 ∈ order := by
  rw [← assignIds_snd order]
  exact List.mem_map_of_mem h

/-- What stands at a place of the order has the id of that place. -/
theorem assignIds_split (before after : List TraceEntry) (e : TraceEntry) :
    ∃ id front back, assignIds (before ++ e :: after) = front ++ (id, e) :: back ∧ back.map (·.2) = after ∧
      (sortIds ((before ++ e :: after).map (·.oldId)))[before.length]? = some id := by
  obtain ⟨id, front, back, hsplit, hfront, hback⟩ := exists_split_of_snd (assignIds_snd (before ++ e :: after))
  refine ⟨id, front, back, hsplit, hback, ?_⟩
  rw [← assignIds_fst, hsplit, List.map_append, List.map_cons, ← hfront, List.length_map, ← List.length_map (·.1),
    List.getElem?_append_right (Nat.le_refl _), Nat.sub_self]
  rfl

theorem idRemap_fst (order : List TraceEntry) :
    (reassignShuffledChoiceIds order).2.2.map (·.1) = order.map (·.oldId) := by
  rw [reassignShuffledChoiceIds, List.map_map]
  calc (assignIds order).map ((·.1) ∘ fun x => (x.2.oldId, x.1))
      = ((assignIds order).map (·.2)).map (·.oldId) := by rw [List.map_map]; rfl
    _ = order.map (·.oldId) := by rw [assignIds_snd]

/-- The correct id is that of the place where the last correct entry stands. -/
theorem correctChoiceId_assignIds {before after : List TraceEntry} {e : TraceEntry} (he : e.isCorrect = true)
    (hafter : ∀ x ∈ after, x.isCorrect = false) :
    (sortIds ((before ++ e :: after).map (·.oldId)))[before.length]? =
      some (correctChoiceId (·.isCorrect) (assignIds (before ++ e :: after))) := by
  obtain ⟨id, front, back, hsplit, hback, hid⟩ := assignIds_split before after e
  have hlast : correctChoiceId (·.isCorrect) (front ++ (id, e) :: back) = id :=
    correctChoiceId_of_last front back id e he fun x hx => hafter x.2 (hback ▸ List.mem_map_of_mem hx)
  rw [hid, hsplit, hlast]

end Assign

section Entries

variable {candidate : TraceCandidate} {captured : String} {e : TraceEntry}

theorem traceEntries_oldId (candidate : TraceCandidate) (captured : String) :
    (traceEntries candidate captured).map (·.oldId) = candidate.choices.map (·.id) := by
  rw [traceEntries, List.map_map]
  rfl

theorem isCorrect_iff (h : e ∈ traceEntries candidate captured) : e.isCorrect = true ↔ e.oldId = candidate.correctChoiceId := by
  obtain ⟨c, -, rfl⟩ := List.mem_map.mp h
  exact decide_eq_true_iff

theorem text_of_isCorrect (h : e ∈ traceEntries candidate captured) (he : e.isCorrect = true) : e.text = captured := by
  obtain ⟨c, -, rfl⟩ := List.mem_map.mp h
  exact if_pos (of_decide_eq_true he)

/-- The other choices keep their texts. -/
theorem text_mem_of_not_isCorrect (h : e ∈ traceEntries candidate captured) (he : e.isCorrect = false) :
    e.text ∈ (candidate.choices.filter (·.id ≠ candidate.correctChoiceId)).map (·.text) := by
  obtain ⟨c, hc, rfl⟩ := List.mem_map.mp h
  have hne : c.id ≠ candidate.correctChoiceId := of_decide_eq_false he
  refine List.mem_map.mpr ⟨c, List.mem_filter.mpr ⟨hc, decide_eq_true hne⟩, ?_⟩
  exact (if_neg hne).symm

end Entries

/-- What an accepted candidate printed, which no other choice says. -/
theorem captured_of_accepted {run : Runs} {candidate : TraceCandidate} (h : (validateTrace run candidate).accepted = true) :
    ∃ captured, (validateTrace run candidate).capturedStdout = some captured ∧
      captured ∉ (candidate.choices.filter (·.id ≠ candidate.correctChoiceId)).map (·.text) := by
  have hcaptured : (validateTrace run candidate).capturedStdout =
      if (validateTrace run candidate).accepted then some (normalizeStdout (run 0 candidate.code).stdout) else none := rfl
  have hdistinct : (!((candidate.choices.filter (·.id ≠ candidate.correctChoiceId)).map (·.text)).contains
      (normalizeStdout (run 0 candidate.code).stdout)) = true :=
    accepts_mem h (List.mem_cons_of_mem _ (List.mem_cons_of_mem _ (List.mem_cons_of_mem _ List.mem_cons_self)))
  refine ⟨_, by rw [hcaptured, if_pos h], fun hmem => ?_⟩
  rw [List.contains_iff_mem.mpr hmem] at hdistinct
  cases hdistinct

section Trace

variable (spec : ExerciseSpec) (run : Runs) (r : Receipts) (rng : Shuffle TraceEntry)

/-- The row of an accepted candidate. -/
def publishedTrace (candidate : TraceCandidate) : Exercise :=
  traceRow spec candidate (validateTrace run candidate).capturedStdout rng r

/-- Some answer is marked correct; so is, under its new id, every choice by which the solver passed; and exactly one
displayed choice is the stored one, with what the code printed as its text. -/
def TraceAnswerable (candidate : TraceCandidate) : Prop :=
  let captured := (validateTrace run candidate).capturedStdout.getD ""
  let row := publishedTrace spec run r rng candidate
  (∃ answer, MarkedCorrect row answer) ∧
    (∀ s, traceSolver candidate (.response s) = .pass → ∃ old new, s.answer.choiceId = some old ∧
      remapped (shuffleTraceChoices candidate captured rng).2.2 old = some new ∧ MarkedCorrect row (choiceAnswer new)) ∧
    OneCorrect row captured

/-- The correct id is that of a choice, and no two choices share one. -/
def TraceCandidate.Keyed (candidate : TraceCandidate) : Prop :=
  candidate.correctChoiceId ∈ candidate.choices.map (·.id) ∧ (candidate.choices.map (·.id)).Nodup

theorem displayedChoices_traceRow (candidate : TraceCandidate) (captured : String) :
    displayedChoices (traceRow spec candidate (some captured) rng r) =
      (assignIds (rng.order (traceEntries candidate captured))).map fun x => (x.1, x.2.text) := by
  have hpayload : (traceRow spec candidate (some captured) rng r).payload =
      (tracePayload candidate (shuffleTraceChoices candidate captured rng).1).dumps := rfl
  have hread : ∀ choices : List Choice, displayedOf (tracePayload candidate choices) = choices.map fun c => (c.id, c.text) :=
    fun choices => filterMap_readChoice choices fun _ => rfl
  rw [displayedChoices, hpayload, Json.loads_dumps, Option.getD_some, hread, shuffleTraceChoices, reassignShuffledChoiceIds,
    List.map_map]
  rfl

theorem storedChoice_traceRow (candidate : TraceCandidate) (captured : String) :
    storedChoice (traceRow spec candidate (some captured) rng r) =
      some (correctChoiceId (·.isCorrect) (assignIds (rng.order (traceEntries candidate captured)))) := by
  rw [storedChoice, traceRow, gradingOf_exerciseRow]
  rfl

/-- A keyed candidate has one correct entry, in whatever order. -/
theorem exists_split_of_keyed {candidate : TraceCandidate} (captured : String) (h : candidate.Keyed) :
    ∃ before e after, rng.order (traceEntries candidate captured) = before ++ e :: after ∧
      e.oldId = candidate.correctChoiceId ∧ e.text = captured ∧ e.isCorrect = true ∧
      (∀ x ∈ after, x.isCorrect = false) ∧ ((before ++ e :: after).map (·.oldId)).Nodup := by
  have hperm := rng.perm (traceEntries candidate captured)
  have hnodup : ((rng.order (traceEntries candidate captured)).map (·.oldId)).Nodup :=
    (hperm.map _).nodup_iff.mpr (traceEntries_oldId candidate captured ▸ h.2)
  obtain ⟨e, he, heid⟩ : ∃ e ∈ traceEntries candidate captured, e.oldId = candidate.correctChoiceId :=
    List.mem_map.mp (traceEntries_oldId candidate captured ▸ h.1)
  obtain ⟨before, after, hsplit⟩ := List.append_of_mem (hperm.mem_iff.mpr he)
  have hcorrect := (isCorrect_iff he).mpr heid
  refine ⟨before, e, after, hsplit, heid, text_of_isCorrect he hcorrect, hcorrect, fun x hx => ?_, hsplit ▸ hnodup⟩
  by_contra hx'
  have hxmem : x ∈ traceEntries candidate captured :=
    hperm.mem_iff.mp (hsplit ▸ List.mem_append_right before (List.mem_cons_of_mem e hx))
  have hxid := (isCorrect_iff hxmem).mp (eq_true_of_ne_false hx')
  rw [hsplit, List.map_append, List.map_cons, List.nodup_append, List.nodup_cons] at hnodup
  exact hnodup.2.1.1 (heid ▸ hxid ▸ List.mem_map_of_mem hx)

/-- **A keyed candidate can be answered**, whatever the order. -/
theorem traceAnswerable_of_keyed {candidate : TraceCandidate} (haccepted : (validateTrace run candidate).accepted = true)
    (h : candidate.Keyed) : TraceAnswerable spec run r rng candidate := by
  obtain ⟨captured, hcaptured, -⟩ := captured_of_accepted haccepted
  obtain ⟨before, e, after, hsplit, heid, hetext, he, hafter, hnodup⟩ :=
    exists_split_of_keyed rng captured h
  obtain ⟨id, front, back, hassign, hback, -⟩ := assignIds_split before after e
  have hcorrect : correctChoiceId (·.isCorrect) (assignIds (before ++ e :: after)) = id := by
    rw [hassign]
    exact correctChoiceId_of_last front back id e he fun x hx => hafter x.2 (hback ▸ List.mem_map_of_mem hx)
  have hids : ((assignIds (before ++ e :: after)).map (·.1)).Nodup := by
    rw [assignIds_fst]
    exact (sortIds_perm _).nodup_iff.mpr hnodup
  have hstored : storedChoice (traceRow spec candidate (some captured) rng r) = some id := by
    rw [storedChoice_traceRow, hsplit, hcorrect]
  have hmarked : MarkedCorrect (traceRow spec candidate (some captured) rng r) (choiceAnswer id) :=
    (markedCorrect_choiceAnswer (Or.inl rfl)).mpr (textIs_storedChoice.mpr hstored)
  rw [TraceAnswerable, publishedTrace, hcaptured]
  refine ⟨⟨_, hmarked⟩, fun s hs => ?_, id, hstored, ?_⟩
  · have hanswer : s.answer = { choiceId := some candidate.correctChoiceId } :=
      eq_of_beq (answerMatches_of_pass hs)
    refine ⟨candidate.correctChoiceId, id, by rw [hanswer], ?_, hmarked⟩
    rw [shuffleTraceChoices, Option.getD_some, hsplit]
    refine remapped_of_mem ?_ (List.mem_map.mpr ⟨(id, e), ?_, by rw [← heid]⟩)
    · rw [idRemap_fst]
      exact hnodup
    · rw [hassign]
      exact List.mem_append_right front List.mem_cons_self
  · rw [displayedChoices_traceRow, hsplit, hassign, List.map_append, List.map_cons, Option.getD_some, ← hetext]
    refine filter_id_eq_singleton _ _ (id, e.text) ?_
    rw [hassign, List.map_append, List.map_cons] at hids
    rw [List.map_append, List.map_cons, List.map_map, List.map_map]
    exact hids

/-- The stored id is displayed once. -/
theorem count_of_oneCorrect {e : Exercise} {text id : String} (h : OneCorrect e text) (hid : storedChoice e = some id) :
    ((displayedChoices e).map (·.1)).count id = 1 := by
  obtain ⟨id', hid', hone⟩ := h
  obtain rfl := Option.some.inj (hid.symm.trans hid')
  have hcount : ((displayedChoices e).map (·.1)).count id = ((displayedChoices e).filter (·.1 == id)).length := by
    rw [List.count, List.countP_map, List.countP_eq_length_filter]
    rfl
  rw [hcount, hone, List.length_singleton]

/-- The other entries up to a place, then the correct ones, the last of them at that place. -/
def badOrder (p : Nat) (entries : List TraceEntry) : List TraceEntry :=
  let correct := entries.filter (·.isCorrect)
  let wrong := entries.filter (!·.isCorrect)
  wrong.take (p + 1 - correct.length) ++ correct ++ wrong.drop (p + 1 - correct.length)

theorem badOrder_perm (p : Nat) (entries : List TraceEntry) : (badOrder p entries).Perm entries := by
  refine (List.perm_append_comm.append_right _).trans ?_
  rw [List.append_assoc, List.take_append_drop]
  exact List.filter_append_perm _ entries

theorem badOrder_split {p : Nat} {entries : List TraceEntry} (hp : p < entries.length)
    (hpos : entries.filter (·.isCorrect) ≠ []) (hle : (entries.filter (·.isCorrect)).length ≤ p + 1) :
    ∃ before e after, badOrder p entries = before ++ e :: after ∧ before.length = p ∧ e.isCorrect = true ∧
      ∀ x ∈ after, x.isCorrect = false := by
  have hlength := (List.filter_append_perm (·.isCorrect) entries).length_eq
  rw [List.length_append] at hlength
  rw [badOrder]
  set correct := entries.filter (·.isCorrect) with hcorrect
  set wrong := entries.filter (!·.isCorrect) with hwrong
  have hm : 0 < correct.length := List.length_pos_of_ne_nil hpos
  refine ⟨wrong.take (p + 1 - correct.length) ++ correct.dropLast, correct.getLast hpos,
    wrong.drop (p + 1 - correct.length), ?_, ?_, ?_, fun x hx => ?_⟩
  · rw [List.append_assoc, List.append_assoc, ← List.singleton_append, ← List.append_assoc correct.dropLast,
      List.dropLast_append_getLast]
  · rw [List.length_append, List.length_take, List.length_dropLast]
    omega
  · exact (List.mem_filter.mp (List.getLast_mem hpos)).2
  · have hx' := (List.mem_filter.mp (List.mem_of_mem_drop hx)).2
    exact (Bool.not_eq_true' _).mp hx'

/-- **A candidate that can be answered in every order is keyed.** -/
theorem keyed_of_traceAnswerable {candidate : TraceCandidate} (haccepted : (validateTrace run candidate).accepted = true)
    (h : ∀ rng, TraceAnswerable spec run r rng candidate) : candidate.Keyed := by
  obtain ⟨captured, hcaptured, hdistinct⟩ := captured_of_accepted haccepted
  set entries := traceEntries candidate captured with hentries
  have hone : ∀ rng, OneCorrect (traceRow spec candidate (some captured) rng r) captured := fun rng => by
    have hall := h rng
    rw [TraceAnswerable, publishedTrace, hcaptured] at hall
    exact hall.2.2
  have hmem : candidate.correctChoiceId ∈ candidate.choices.map (·.id) := by
    -- without a correct entry the stored id is empty, and the choice of that id says something else
    by_contra hnot
    have hnone : ∀ x ∈ assignIds entries, x.2.isCorrect = false := fun x hx => by
      have hx' := mem_of_mem_assignIds hx
      refine eq_false_of_ne_true fun hc => hnot ?_
      rw [← traceEntries_oldId candidate captured, ← (isCorrect_iff hx').mp hc]
      exact List.mem_map_of_mem hx'
    obtain ⟨id, hid, hshown⟩ := hone ⟨fun l => l, fun l => List.Perm.refl l⟩
    rw [displayedChoices_traceRow] at hshown
    obtain ⟨x, hx, hxtext⟩ := List.mem_map.mp (List.mem_of_mem_filter (hshown ▸ List.mem_singleton_self (id, captured)))
    have htext : x.2.text = captured := congrArg Prod.snd hxtext
    exact hdistinct (htext ▸ text_mem_of_not_isCorrect (mem_of_mem_assignIds hx) (hnone x hx))
  refine ⟨hmem, List.nodup_iff_count_le_one.mpr fun x => ?_⟩
  by_contra hx
  have hlength : (entries.filter (·.isCorrect)).length =
      (candidate.choices.map (·.id)).count candidate.correctChoiceId := by
    rw [hentries, ← traceEntries_oldId candidate captured, List.count, List.countP_map, List.countP_eq_length_filter]
    refine congrArg List.length (List.filter_congr fun e he => ?_)
    exact Bool.eq_iff_iff.mpr ((isCorrect_iff he).trans beq_iff_eq.symm)
  have hpos : 0 < (candidate.choices.map (·.id)).count candidate.correctChoiceId := List.count_pos_iff.mpr hmem
  -- the correct id itself, where two choices have it, and otherwise any id that two choices have
  obtain ⟨y, hy, hle⟩ : ∃ y, 2 ≤ (candidate.choices.map (·.id)).count y ∧
      (entries.filter (·.isCorrect)).length ≤ (candidate.choices.map (·.id)).count y := by
    by_cases htwo : 2 ≤ (candidate.choices.map (·.id)).count candidate.correctChoiceId
    · exact ⟨_, htwo, le_of_eq hlength⟩
    · exact ⟨x, by omega, by omega⟩
  have hids : (sortIds (entries.map (·.oldId))).count y = (candidate.choices.map (·.id)).count y := by
    rw [(sortIds_perm _).count_eq, hentries, traceEntries_oldId]
  obtain ⟨p, hp, hpy, hlast⟩ := exists_getElem_of_count _ y (by rw [hids]; omega)
  have hp' : p < entries.length := by
    rw [← List.length_map (·.oldId), ← (sortIds_perm _).length_eq]
    exact hp
  obtain ⟨before, e, after, hsplit, hbefore, he, hafter⟩ :=
    badOrder_split hp' (List.length_pos_iff.mp (by omega)) (by omega)
  let rng : Shuffle TraceEntry :=
    ⟨fun l => if l = entries then badOrder p entries else l, fun l => by
      split
      · rename_i hl
        exact hl ▸ badOrder_perm p entries
      · exact List.Perm.refl l⟩
  have horder : rng.order entries = before ++ e :: after := (if_pos rfl).trans hsplit
  have hsorted : sortIds ((before ++ e :: after).map (·.oldId)) = sortIds (entries.map (·.oldId)) :=
    sortIds_eq ((hsplit ▸ badOrder_perm p entries).map _)
  have hstored : storedChoice (traceRow spec candidate (some captured) rng r) = some y := by
    rw [storedChoice_traceRow, ← hentries, horder, ← correctChoiceId_assignIds he hafter, hsorted, hbefore,
      List.getElem?_eq_getElem hp, hpy]
  have hcount := count_of_oneCorrect (hone rng) hstored
  rw [displayedChoices_traceRow, ← hentries, horder, List.map_map] at hcount
  change ((assignIds (before ++ e :: after)).map (·.1)).count y = 1 at hcount
  rw [assignIds_fst, hsorted, hids] at hcount
  omega

end Trace

/-! ## Predict the fix -/

section PTF

variable (sha256 : String → String) (spec : ExerciseSpec) (derivedFrom : Exercise) (stbTemplateId : Json) (r : Receipts)

/-- Some answer is marked correct, and the stored choice shows the verified fix. -/
def PTFAnswerable (stb : STBCandidate) (a : PTFArtifacts) : Prop :=
  let row := ptfRow sha256 spec stb a derivedFrom stbTemplateId r
  (∃ answer, MarkedCorrect row answer) ∧ OneCorrect row stb.fixedCode

/-- In whatever order, the verified fix stands among the choices as the correct one. -/
theorem deriveArtifacts_choices {staticViolations : String → List String} {run : Runs} {stb : STBCandidate}
    {wrongFixes : PredictFixCandidate} {rng : Shuffle FixEntry} {a : PTFArtifacts}
    (h : deriveArtifacts staticViolations run stb wrongFixes rng = some a) :
    ∃ front back, a.choices = front ++ (a.correctChoiceId, ⟨stb.fixedCode, none, true⟩) :: back ∧
      (a.choices.map (·.1)).Nodup := by
  have hperm := rng.perm (fixEntries stb wrongFixes)
  have hlength : (rng.order (fixEntries stb wrongFixes)).length = choiceIds.length := by
    rw [hperm.length_eq, fixEntries, List.length_cons, List.length_map, wrongFixes.three_fixes]
    rfl
  obtain ⟨before, after, hsplit⟩ :=
    List.append_of_mem (hperm.mem_iff.mpr (List.mem_cons_self (a := (⟨stb.fixedCode, none, true⟩ : FixEntry))))
  have hafter : ∀ x ∈ after, x.isCorrect = false := by
    have hone : (rng.order (fixEntries stb wrongFixes)).countP (·.isCorrect) = 1 := by
      rw [hperm.countP_eq, fixEntries, List.countP_cons_of_pos rfl, List.countP_map]
      simp
    rw [hsplit, List.countP_append, List.countP_cons_of_pos rfl] at hone
    have hzero : after.countP (·.isCorrect) = 0 := by omega
    exact fun x hx => eq_false_of_ne_true (List.countP_eq_zero.mp hzero x hx)
  have hsnd : (choiceIds.zip (rng.order (fixEntries stb wrongFixes))).map (·.2) =
      before ++ ⟨stb.fixedCode, none, true⟩ :: after := by
    rw [List.map_snd_zip (le_of_eq hlength), hsplit]
  have hfst : (choiceIds.zip (rng.order (fixEntries stb wrongFixes))).map (·.1) = choiceIds :=
    List.map_fst_zip (le_of_eq hlength.symm)
  obtain ⟨id, front, back, hassign, -, hback⟩ := exists_split_of_snd hsnd
  rw [deriveArtifacts] at h
  dsimp only at h
  split_ifs at h
  obtain rfl := Option.some.inj h
  have hnodup : choiceIds.Nodup := by decide
  refine ⟨front, back, ?_, by rw [hfst]; exact hnodup⟩
  have hid : correctChoiceId (·.isCorrect) (choiceIds.zip (rng.order (fixEntries stb wrongFixes))) = id := by
    rw [hassign]
    exact correctChoiceId_of_last front back id _ rfl fun x hx => hafter x.2 (hback ▸ List.mem_map_of_mem hx)
  exact hassign.trans (by rw [hid])

/-- **What is derived can be answered.** -/
theorem ptfAnswerable_of_derived {staticViolations : String → List String} {run : Runs} {stb : STBCandidate}
    {wrongFixes : PredictFixCandidate} {rng : Shuffle FixEntry} {a : PTFArtifacts}
    (h : deriveArtifacts staticViolations run stb wrongFixes rng = some a) :
    PTFAnswerable sha256 spec derivedFrom stbTemplateId r stb a := by
  obtain ⟨front, back, hchoices, hids⟩ := deriveArtifacts_choices h
  have hstored : storedChoice (ptfRow sha256 spec stb a derivedFrom stbTemplateId r) = some a.correctChoiceId := by
    rw [storedChoice, ptfRow, gradingOf_exerciseRow]
    rfl
  have hdisplayed : displayedChoices (ptfRow sha256 spec stb a derivedFrom stbTemplateId r) =
      a.choices.map fun x => (x.1, x.2.code) := by
    rw [displayedChoices, ptfRow, exerciseRow, Json.loads_dumps, Option.getD_some]
    exact filterMap_readChoice a.choices fun _ => rfl
  refine ⟨⟨_, (markedCorrect_choiceAnswer (Or.inr rfl)).mpr (textIs_storedChoice.mpr hstored)⟩, _, hstored, ?_⟩
  rw [hdisplayed, hchoices, List.map_append, List.map_cons]
  refine filter_id_eq_singleton _ _ (a.correctChoiceId, stb.fixedCode) ?_
  rw [hchoices, List.map_append, List.map_cons] at hids
  rw [List.map_append, List.map_cons, List.map_map, List.map_map]
  exact hids

end PTF

/-! ## All three -/

/-- **When what is published can be answered**: a `spot_the_bug` if its code has a bug, a `trace` if its candidate is
keyed, and a `predict_the_fix` always. -/
theorem published_answerable (sha256 : String → String) (spec : ExerciseSpec) (run : Runs) (r : Receipts) :
    (∀ candidate, (validateSpotTheBug run candidate (spec.hasBug == some true)).accepted = true →
        (STBAnswerable sha256 spec run r candidate ↔ spec.hasBug = some true)) ∧
      (∀ candidate, (validateTrace run candidate).accepted = true →
        ((∀ rng, TraceAnswerable spec run r rng candidate) ↔ candidate.Keyed)) ∧
      ∀ staticViolations stb wrongFixes rng a derivedFrom stbTemplateId,
        deriveArtifacts staticViolations run stb wrongFixes rng = some a →
          PTFAnswerable sha256 spec derivedFrom stbTemplateId r stb a :=
  ⟨fun _ haccepted => stbAnswerable_iff sha256 spec run r haccepted,
    fun _ haccepted => ⟨keyed_of_traceAnswerable spec run r haccepted, fun hkeyed rng =>
      traceAnswerable_of_keyed spec run r rng haccepted hkeyed⟩,
    fun _ _ _ _ _ derivedFrom stbTemplateId hderived =>
      ptfAnswerable_of_derived sha256 spec derivedFrom stbTemplateId r hderived⟩

/-! A sum with nothing wrong in it, the same with a bug, and a trace of it with two choices of one id. -/

def sumReceipts : Receipts where
  exerciseId := 1
  finalExplanation := []
  contentHash := "0f"
  validationReport := .obj []
  generatorModel := "gpt"
  origin := "llm"
  reportUrl := "reports/1_v1.json"

def sumSpec (hasBug : Option Bool) : ExerciseSpec where
  type := "spot_the_bug"
  concept := "off-by-one"
  difficulty := ⟨1, by decide⟩
  domain := "billing"
  lineBudgetMin := 1
  lineBudgetMax := 20
  hasBug := hasBug
  avoidPatterns := []

def sumCandidate (fixedCode : String) : STBCandidate where
  buggyCode := "total = 1 + 2\n"
  fixedCode := fixedCode
  bugLines := []
  testCode := "assert total == 3\n"
  contextNote := ""
  reasonOptions := [⟨"a", "off by one"⟩, ⟨"b", "wrong operator"⟩, ⟨"c", "wrong name"⟩, ⟨"d", "nothing is wrong"⟩]
  correctReasonId := "d"
  draftExplanation := ⟨"", "", []⟩
  concepts := ⟨["off-by-one"], by decide⟩
  divergence := none
  four_reasons := rfl

/-- Every script exits cleanly and prints a three. -/
def cleanRuns : Runs := fun _ _ => ⟨some 0, "3\n", "", false⟩

/-- The first script fails its test, at both runs. -/
def failingRuns : Runs := fun n _ => if n < 2 then ⟨some 1, "", "AssertionError", false⟩ else ⟨some 0, "3\n", "", false⟩

def sumTrace : TraceCandidate where
  code := "print(1 + 2)\n"
  contextNote := ""
  question := "What is printed?"
  expectedStdout := "3\n"
  choices := [⟨"a", "3", none⟩, ⟨"a", "12", none⟩, ⟨"b", "2", none⟩, ⟨"c", "1", none⟩]
  correctChoiceId := "a"
  draftExplanation := ⟨"", "", [], [⟨"b", ""⟩, ⟨"c", ""⟩]⟩
  concepts := ⟨["arithmetic"], by decide⟩
  four_choices := rfl
  whyWrong_covers := fun id => Iff.rfl

/-- Both pass the gate; the sum without a bug has no correct answer, and some order of the choices shows the id of the
correct one twice. -/
theorem published_unanswerable :
    ((validateSpotTheBug cleanRuns (sumCandidate "total = 1 + 2\n") false).accepted = true ∧
      ∀ answer, ¬ MarkedCorrect
        (publishedSTB id (sumSpec (some false)) cleanRuns sumReceipts (sumCandidate "total = 1 + 2\n")) answer) ∧
    (validateTrace cleanRuns sumTrace).accepted = true ∧
      ¬ ∀ rng, TraceAnswerable (sumSpec none) cleanRuns sumReceipts rng sumTrace := by
  have hstb : (validateSpotTheBug cleanRuns (sumCandidate "total = 1 + 2\n") false).accepted = true := by decide +kernel
  have htrace : (validateTrace cleanRuns sumTrace).accepted = true := by decide +kernel
  refine ⟨⟨hstb, not_markedCorrect_of_clean id _ cleanRuns sumReceipts hstb (by decide)⟩, htrace, fun hall => ?_⟩
  have hkeyed := keyed_of_traceAnswerable (sumSpec none) cleanRuns sumReceipts htrace hall
  exact absurd hkeyed.2 (by decide)

theorem published_answerable_sum :
    STBAnswerable id (sumSpec (some true)) failingRuns sumReceipts (sumCandidate "total = 1 + 1 + 1\n") :=
  ((published_answerable id (sumSpec (some true)) failingRuns sumReceipts).1 (sumCandidate "total = 1 + 1 + 1\n")
    (by decide +kernel)).mpr rfl

end CodeReader.Pipeline
