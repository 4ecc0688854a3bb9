import CodeReader.Grading.Spec
import Mathlib.Tactic.Linarith

/-!
# The state of a concept over its history

* `ConceptUpdate` — a call of `update_concept_state`; `history` — what the calls have meant for one concept;
* `ConceptState.after` — the row of a concept with a history: `recorded_runUpdates`;
* `Mastered` — what holds of such a row;
* `mastered_runUpdates` — **the result**: it holds of every row, whatever the calls.
-/

namespace CodeReader.Grading

open Txn Prog

/-! ## Quantization -/

section Quantize

variable {m m' d k : Int}

/-- Halves go to the even integer, so rounding keeps order. -/
theorem quantize_mono (hd : 0 < d) (h : m ≤ m') : quantize m d ≤ quantize m' d := by
  have hle : m / d ≤ m' / d := Int.ediv_le_ediv hd h
  have hm := Int.emod_add_mul_ediv m d
  have hm' := Int.emod_add_mul_ediv m' d
  have hr' := Int.emod_nonneg m' hd.ne'
  have hr := Int.emod_lt_of_pos m hd
  simp only [quantize]
  by_cases heq : m / d = m' / d
  · rw [heq] at hm ⊢
    have hrem : m % d ≤ m' % d := by linarith
    split <;> split <;> omega
  · have hlt : m / d + 1 ≤ m' / d := lt_of_le_of_ne hle heq
    split <;> split <;> omega

/-- An integer is rounded to itself. -/
theorem quantize_mul (hd : 0 < d) : quantize (m * d) d = m := by
  have hdiv : m * d / d = m := Int.mul_ediv_cancel m hd.ne'
  have hmod : m * d % d = 0 := Int.mul_emod_left m d
  simp only [quantize, hdiv, hmod]
  exact if_pos (.inl hd)

/-- A fraction can be extended. -/
theorem quantize_mul_mul (hk : 0 < k) : quantize (k * m) (k * d) = quantize m d := by
  have hdiv : k * m / (k * d) = m / d := Int.mul_ediv_mul_of_pos m d hk
  have hmod : k * m % (k * d) = k * (m % d) := Int.mul_emod_mul_of_pos m d hk
  have hlt : 2 * (k * (m % d)) < k * d ↔ 2 * (m % d) < d := by
    rw [mul_left_comm]
    exact Int.mul_lt_mul_left hk
  have heq : 2 * (k * (m % d)) = k * d ↔ 2 * (m % d) = d := by
    rw [mul_left_comm]
    exact mul_right_inj' hk.ne'
  simp only [quantize, hdiv, hmod, hlt, heq]

end Quantize

/-! ## One outcome -/

section Practised

variable {row : ConceptState} {now : Int}

/-- The mastery is a fraction of one, in thousandths. -/
def ConceptState.InRange (row : ConceptState) : Prop := 0 ≤ row.mastery ∧ row.mastery ≤ 1000

theorem mastery_skipped : (row.practised .skipped now).mastery = quantize (row.mastery * 85) 100 := rfl

theorem mastery_incorrect : (row.practised .incorrect now).mastery = quantize (row.mastery * 7) 10 := by
  simp [ConceptState.practised]

theorem mastery_correct : (row.practised .correct now).mastery = quantize (row.mastery * 7 + 3000) 10 := by
  simp [ConceptState.practised]

/-- A correct answer never lowers the mastery. -/
theorem le_mastery_correct (h : row.InRange) : row.mastery ≤ (row.practised .correct now).mastery := by
  obtain ⟨-, h₁⟩ := h
  calc row.mastery = quantize (row.mastery * 10) 10 := (quantize_mul (by decide)).symm
    _ ≤ quantize (row.mastery * 7 + 3000) 10 := quantize_mono (by decide) (by omega)
    _ = (row.practised .correct now).mastery := mastery_correct.symm

/-- A wrong answer never raises it. -/
theorem mastery_incorrect_le (h : row.InRange) : (row.practised .incorrect now).mastery ≤ row.mastery := by
  obtain ⟨h₀, -⟩ := h
  calc (row.practised .incorrect now).mastery = quantize (row.mastery * 7) 10 := mastery_incorrect
    _ ≤ quantize (row.mastery * 10) 10 := quantize_mono (by decide) (by omega)
    _ = row.mastery := quantize_mul (by decide)

/-- A skip lowers it by no more than a wrong answer. -/
theorem mastery_incorrect_le_skipped {now' : Int} (h : row.InRange) :
    (row.practised .incorrect now').mastery ≤ (row.practised .skipped now).mastery := by
  obtain ⟨h₀, -⟩ := h
  calc (row.practised .incorrect now').mastery = quantize (row.mastery * 7) 10 := mastery_incorrect
    _ = quantize (10 * (row.mastery * 7)) (10 * 10) := (quantize_mul_mul (by decide)).symm
    _ ≤ quantize (row.mastery * 85) (10 * 10) := quantize_mono (by decide) (by omega)
    _ = (row.practised .skipped now).mastery := mastery_skipped.symm

/-- The mastery stays a fraction of one. -/
theorem inRange_practised (h : row.InRange) (outcome : ConceptOutcome) : (row.practised outcome now).InRange := by
  obtain ⟨h₀, h₁⟩ := h
  have hzero : ∀ {d : Int}, 0 < d → quantize (0 * d) d = 0 := fun hd => quantize_mul hd
  cases outcome with
  | correct =>
    refine ⟨h₀.trans (le_mastery_correct ⟨h₀, h₁⟩), ?_⟩
    calc (row.practised .correct now).mastery = quantize (row.mastery * 7 + 3000) 10 := mastery_correct
      _ ≤ quantize (1000 * 10) 10 := quantize_mono (by decide) (by omega)
      _ = 1000 := quantize_mul (by decide)
  | incorrect =>
    refine ⟨?_, (mastery_incorrect_le ⟨h₀, h₁⟩).trans h₁⟩
    calc 0 = quantize (0 * 10) 10 := (hzero (by decide)).symm
      _ ≤ quantize (row.mastery * 7) 10 := quantize_mono (by decide) (by omega)
      _ = (row.practised .incorrect now).mastery := mastery_incorrect.symm
  | skipped =>
    refine ⟨?_, ?_⟩
    · calc 0 = quantize (0 * 100) 100 := (hzero (by decide)).symm
        _ ≤ quantize (row.mastery * 85) 100 := quantize_mono (by decide) (by omega)
        _ = (row.practised .skipped now).mastery := mastery_skipped.symm
    · calc (row.practised .skipped now).mastery = quantize (row.mastery * 85) 100 := mastery_skipped
        _ ≤ quantize (1000 * 100) 100 := quantize_mono (by decide) (by omega)
        _ = 1000 := quantize_mul (by decide)

/-- The days to the next review. -/
def ConceptState.interval (row : ConceptState) : ConceptOutcome → Int
  | .skipped => conceptIntervalSkippedDays
  | .incorrect => conceptIntervalWrongDays
  | .correct => if 0 < row.correct then conceptIntervalRightAgainDays else conceptIntervalRightDays

theorem review_practised (outcome : ConceptOutcome) : (row.practised outcome now).lastSeenAt = some now ∧
    (row.practised outcome now).nextReviewAt = some (now + row.interval outcome * microsPerDay) := by
  cases outcome <;> simp [ConceptState.practised, ConceptState.interval]

theorem interval_mem (outcome : ConceptOutcome) : row.interval outcome ∈
    [conceptIntervalSkippedDays, conceptIntervalWrongDays, conceptIntervalRightDays, conceptIntervalRightAgainDays] := by
  cases outcome with
  | skipped => simp [ConceptState.interval]
  | incorrect => simp [ConceptState.interval]
  | correct => by_cases h : 0 < row.correct <;> simp [ConceptState.interval, h]

/-- The longest interval is that of a correct answer after another one. -/
theorem interval_rightAgain {outcome : ConceptOutcome} (h : row.interval outcome = conceptIntervalRightAgainDays) :
    outcome = .correct ∧ 0 < row.correct := by
  cases outcome with
  | skipped => exact absurd h (by simp [ConceptState.interval, conceptIntervalSkippedDays, conceptIntervalRightAgainDays])
  | incorrect => exact absurd h (by simp [ConceptState.interval, conceptIntervalWrongDays, conceptIntervalRightAgainDays])
  | correct =>
    refine ⟨rfl, by_contra fun hpos => ?_⟩
    rw [ConceptState.interval, if_neg hpos] at h
    exact absurd h (by decide)

end Practised

/-! ## Histories -/

/-- What happened to a concept: the outcomes and their times. -/
abbrev History := List (ConceptOutcome × Int)

/-- The row of a concept with a history. -/
def ConceptState.after (concept : String) (h : History) : ConceptState :=
  h.foldl (fun row u => row.practised u.1 u.2) (newConceptState concept)

theorem after_append_singleton {concept : String} {h : History} {u : ConceptOutcome × Int} :
    ConceptState.after concept (h ++ [u]) = (ConceptState.after concept h).practised u.1 u.2 := by
  rw [ConceptState.after, List.foldl_append]
  rfl

/-- The concept was answered correctly. -/
abbrev History.hasCorrect (h : History) : Prop := ∃ now, (ConceptOutcome.correct, now) ∈ h

/-- What holds of the row of a concept with a history. -/
structure Mastered (h : History) (row : ConceptState) : Prop where
  inRange : row.InRange
  correct_le : row.correct ≤ row.attempts
  updates : row.attempts + row.declined = h.length
  correct_pos : 0 < row.correct ↔ History.hasCorrect h
  correct_nonneg : 0 ≤ row.correct
  /-- The next review is one of the intervals after the last update, the longest one only after an earlier correct
  answer. -/
  review : h ≠ [] → ∃ lastSeenAt days, row.lastSeenAt = some lastSeenAt ∧
    row.nextReviewAt = some (lastSeenAt + days * microsPerDay) ∧
    days ∈ [conceptIntervalSkippedDays, conceptIntervalWrongDays, conceptIntervalRightDays,
      conceptIntervalRightAgainDays] ∧
    (days = conceptIntervalRightAgainDays → History.hasCorrect h.dropLast)

theorem hasCorrect_append_singleton {h : History} {outcome : ConceptOutcome} {now : Int} :
    History.hasCorrect (h ++ [(outcome, now)]) ↔ History.hasCorrect h ∨ outcome = .correct := by
  simp only [History.hasCorrect, List.mem_append, List.mem_singleton, Prod.mk.injEq, exists_or]
  refine or_congr_right ⟨?_, ?_⟩
  · rintro ⟨_, he, -⟩
    exact he.symm
  · rintro rfl
    exact ⟨now, rfl, rfl⟩

/-- One more update. -/
theorem Mastered.practised {h : History} {row : ConceptState} (hm : Mastered h row) (outcome : ConceptOutcome)
    (now : Int) : Mastered (h ++ [(outcome, now)]) (row.practised outcome now) where
  inRange := inRange_practised hm.inRange outcome
  correct_le := by
    have := hm.correct_le
    cases outcome <;> simp [ConceptState.practised] <;> omega
  updates := by
    have := hm.updates
    cases outcome <;> simp [ConceptState.practised] <;> omega
  correct_pos := by
    rw [hasCorrect_append_singleton, ← hm.correct_pos]
    have := hm.correct_nonneg
    cases outcome <;> simp [ConceptState.practised]
    omega
  correct_nonneg := by
    have := hm.correct_nonneg
    cases outcome <;> simp [ConceptState.practised] <;> omega
  review _ := by
    obtain ⟨hseen, hreview⟩ : (row.practised outcome now).lastSeenAt = some now ∧
        (row.practised outcome now).nextReviewAt = some (now + row.interval outcome * microsPerDay) :=
      review_practised outcome
    refine ⟨now, row.interval outcome, hseen, hreview, interval_mem outcome, fun hlongest => ?_⟩
    rw [List.dropLast_concat, ← hm.correct_pos]
    exact (interval_rightAgain hlongest).2

theorem mastered_new (concept : String) : Mastered [] (newConceptState concept) where
  inRange := ⟨le_refl 0, Int.le_of_lt (by decide : (0 : Int) < 1000)⟩
  correct_le := le_refl 0
  updates := rfl
  correct_pos := ⟨fun h => absurd h (lt_irrefl 0), fun ⟨_, h⟩ => absurd h List.not_mem_nil⟩
  correct_nonneg := le_refl 0
  review h := absurd rfl h

/-- A row with any history. -/
theorem mastered_after (concept : String) (h : History) : Mastered h (.after concept h) := by
  induction h using List.reverseRecOn with
  | nil => exact mastered_new concept
  | append_singleton h u ih =>
    rw [after_append_singleton]
    exact ih.practised u.1 u.2

/-! ## Calls -/

/-- A call of `update_concept_state`. -/
structure ConceptUpdate where
  concepts : List String
  outcome : ConceptOutcome
  now : Int

/-- The history of a concept: each mention counts. -/
def history (updates : List ConceptUpdate) (concept : String) : History :=
  updates.flatMap fun u => List.replicate (u.concepts.count concept) (u.outcome, u.now)

/-- The call in a session of its own, and its commit. -/
def ConceptUpdate.after (s : Store GradingApp) (u : ConceptUpdate) : Store GradingApp :=
  ((do
    let _ ← updateConceptState [] u.outcome u.now u.concepts
    commitTx : GradingHandler Unit).exec s.db s).store

/-- The calls one after another. -/
def runUpdates (s : Store GradingApp) (updates : List ConceptUpdate) : Store GradingApp :=
  updates.foldl ConceptUpdate.after s

/-- The rows are those of the histories. -/
def Recorded (h : String → History) (states : List ConceptState) : Prop :=
  ∀ c, states.find? (·.concept == c) = if h c = [] then none else some (.after c (h c))

section Calls

variable {h : String → History} {states : List ConceptState}

theorem Recorded.conceptRow (hr : Recorded h states) (c : String) : conceptRow states c = .after c (h c) := by
  rw [Grading.conceptRow, hr c]
  split
  · rename_i hempty
    rw [hempty]
    rfl
  · rfl

/-- The loop over the concepts. -/
theorem recorded_updateConceptState (outcome : ConceptOutcome) (now : Int) (concepts : List String)
    {held : List ConceptState} (cur : GradingRows) (s : Store GradingApp) (hheld : Holds held cur.conceptStates)
    (hr : Recorded h cur.conceptStates) :
    ∃ held' states, (updateConceptState held outcome now concepts).exec cur s =
      ⟨.ok held', { cur with conceptStates := states }, s⟩ ∧
      Recorded (fun c => h c ++ List.replicate (concepts.count c) (outcome, now)) states := by
  induction concepts generalizing held cur h with
  | nil => exact ⟨held, cur.conceptStates, rfl, by simpa using hr⟩
  | cons concept concepts ih =>
    obtain ⟨states₁, hexec, hfind⟩ := exec_conceptState held concept outcome now cur s hheld
    have hr₁ : Recorded (fun c => h c ++ if c = concept then [(outcome, now)] else []) states₁ := by
      intro c
      rw [hfind, hr.conceptRow]
      by_cases hc : c = concept
      · subst hc
        simp [after_append_singleton]
      · simp only [if_neg hc, List.append_nil]
        exact hr c
    obtain ⟨held', states, hexec', hr'⟩ := ih { cur with conceptStates := states₁ } (hheld.cons hfind) hr₁
    refine ⟨held', states, ?_, ?_⟩
    · rw [updateConceptState_cons, exec_bind, hexec]
      exact hexec'
    · have hhist : (fun c => (h c ++ if c = concept then [(outcome, now)] else []) ++
          List.replicate (concepts.count c) (outcome, now)) =
          fun c => h c ++ List.replicate ((concept :: concepts).count c) (outcome, now) := by
        funext c
        by_cases hc : c = concept
        · simp [hc, List.replicate_succ]
        · have hne : ¬ concept = c := fun he => hc he.symm
          simp [hc, hne]
      rw [← hhist]
      exact hr'

/-- **Rows and histories**: after any calls, the rows are those of the histories. -/
theorem recorded_runUpdates (s : Store GradingApp) (hs : s.db.conceptStates = []) (updates : List ConceptUpdate) :
    Recorded (history updates) (runUpdates s updates).db.conceptStates := by
  induction updates using List.reverseRecOn with
  | nil => simp [Recorded, history, runUpdates, hs]
  | append_singleton updates u ih =>
    have hheld : Holds [] (runUpdates s updates).db.conceptStates := fun c row hrow => absurd hrow (by simp)
    obtain ⟨held', states, hexec, hr⟩ :=
      recorded_updateConceptState u.outcome u.now u.concepts _ (runUpdates s updates) hheld ih
    have hafter : (runUpdates s (updates ++ [u])).db.conceptStates = states := by
      rw [runUpdates, List.foldl_append]
      change ((updateConceptState [] u.outcome u.now u.concepts >>= fun _ => commitTx).exec
        (runUpdates s updates).db (runUpdates s updates)).store.db.conceptStates = states
      rw [exec_bind, hexec]
      rfl
    have hhist : history (updates ++ [u]) =
        fun c => history updates c ++ List.replicate (u.concepts.count c) (u.outcome, u.now) := by
      funext c
      simp [history]
    rw [hafter, hhist]
    exact hr

end Calls

/-- A skip counts as no attempt, and lowers the mastery by no more than a wrong answer would; a correct answer never
lowers it, a wrong one never raises it. -/
structure Fair (row : ConceptState) : Prop where
  skipped_attempts : ∀ now, (row.practised .skipped now).attempts = row.attempts
  skipped_correct : ∀ now, (row.practised .skipped now).correct = row.correct
  skipped_mastery : ∀ now now', (row.practised .incorrect now').mastery ≤ (row.practised .skipped now).mastery
  correct_mastery : ∀ now, row.mastery ≤ (row.practised .correct now).mastery
  incorrect_mastery : ∀ now, (row.practised .incorrect now).mastery ≤ row.mastery

theorem fair_of_inRange {row : ConceptState} (h : row.InRange) : Fair row where
  skipped_attempts _ := rfl
  skipped_correct _ := rfl
  skipped_mastery _ _ := mastery_incorrect_le_skipped h
  correct_mastery _ := le_mastery_correct h
  incorrect_mastery _ := mastery_incorrect_le h

/-- **Concept states over every history**: whatever the calls, the row of a concept is as its history says, the next
outcome is fair, and without a row nothing has happened to the concept. -/
theorem mastered_runUpdates (rows : GradingRows) (kv : Redis) (updates : List ConceptUpdate) (concept : String) :
    let states := (runUpdates ⟨{ rows with conceptStates := [] }, kv⟩ updates).db.conceptStates
    Fair (conceptRow states concept) ∧
    match states.find? (·.concept == concept) with
    | none => history updates concept = []
    | some row => Mastered (history updates concept) row := by
  intro states
  have hr : Recorded (history updates) states := recorded_runUpdates _ rfl updates
  have hm := mastered_after concept (history updates concept)
  rw [hr.conceptRow, hr concept]
  refine ⟨fair_of_inRange hm.inRange, ?_⟩
  split
  · rename_i hnone
    by_contra hne
    rw [if_neg hne] at hnone
    cases hnone
  · rename_i row hrow
    split at hrow
    · cases hrow
    · cases hrow
      exact hm

end CodeReader.Grading
