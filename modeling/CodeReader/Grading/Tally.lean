import CodeReader.Grading.Service
import Mathlib.Algebra.BigOperators.Group.List.Basic
import Mathlib.Algebra.Ring.Int.Defs
import Mathlib.Data.List.Nodup

/-!
# What the counters should be

The counters of a user, counted again from the attempts.

* `Counters`, `countersOf`, `conceptRow` — the counters as they are kept: in the stats, and in the concept states;
* `verdicts`, `rightVerdicts`, `practisedIn` — the same, counted from the attempts;
* `Agrees` — **the kept counters are the counted ones**, and only graded rows have a verdict;
* `Gains`, `Agrees.gains` — a row is settled: what has to be done to the counters.
-/

namespace CodeReader.Grading

variable {cat : Catalog}

/-! ## As they are kept -/

/-- The counters of `user_stats`. -/
structure Counters where
  totalAttempts : Int
  totalCorrect : Int
  accuracyByType : List (String × TypeCounts)

def countersOf : Option UserStats → Counters
  | none => ⟨0, 0, []⟩
  | some st => ⟨st.totalAttempts, st.totalCorrect, st.accuracyByType⟩

/-- One more attempt. -/
def Counters.attempted (k : Counters) : Counters := { k with totalAttempts := k.totalAttempts + 1 }

/-- One more verdict. -/
def Counters.corrected (k : Counters) (type : String) (isCorrect : Bool) : Counters :=
  { k with
    totalCorrect := if isCorrect then k.totalCorrect + 1 else k.totalCorrect
    accuracyByType := bumpAccuracy k.accuracyByType type isCorrect }

/-- A type's entry of `accuracy_by_type`. -/
def typeCounts (accuracyByType : List (String × TypeCounts)) (type : String) : TypeCounts :=
  (accuracyByType.lookup type).getD ⟨0, 0⟩

theorem lookup_map_same {acc : List (String × TypeCounts)} {type : String} {c : TypeCounts}
    (h : acc.any (·.1 == type) = true) :
    (acc.map fun entry => if entry.1 == type then (type, c) else entry).lookup type = some c := by
  induction acc with
  | nil => cases h
  | cons entry acc ih =>
    obtain ⟨t, c'⟩ := entry
    by_cases ht : t = type
    · simp [ht]
    · have hf : (t == type) = false := by simpa using ht
      have hne : (type == t) = false := by simpa using fun he => ht he.symm
      rw [List.any_cons, hf, Bool.false_or] at h
      simp only [List.map_cons, hf, Bool.false_eq_true, if_false, List.lookup_cons, hne]
      exact ih h

theorem lookup_map_other {acc : List (String × TypeCounts)} {type t : String} {c : TypeCounts} (ht : t ≠ type) :
    (acc.map fun entry => if entry.1 == type then (type, c) else entry).lookup t = acc.lookup t := by
  induction acc with
  | nil => rfl
  | cons entry acc ih =>
    obtain ⟨t', c'⟩ := entry
    cases hf : t' == type with
    | true =>
      have hne : (t == type) = false := by simpa using ht
      rw [beq_iff_eq.mp hf]
      simp only [List.map_cons, beq_self_eq_true, if_true, List.lookup_cons, hne]
      exact ih
    | false => simp only [List.map_cons, hf, Bool.false_eq_true, if_false, List.lookup_cons, ih]

/-- A bump is of its type alone. -/
theorem typeCounts_bumpAccuracy (acc : List (String × TypeCounts)) (type t : String) (isCorrect : Bool) :
    typeCounts (bumpAccuracy acc type isCorrect) t =
      if t = type then
        ⟨(typeCounts acc t).attempts + 1, if isCorrect then (typeCounts acc t).correct + 1 else (typeCounts acc t).correct⟩
      else typeCounts acc t := by
  unfold bumpAccuracy typeCounts
  dsimp only
  by_cases hany : acc.any (·.1 == type) = true
  · rw [if_pos hany]
    by_cases ht : t = type
    · subst ht
      rw [if_pos rfl, lookup_map_same hany]
      rfl
    · rw [if_neg ht, lookup_map_other ht]
  · rw [if_neg hany, List.lookup_append]
    by_cases ht : t = type
    · subst ht
      have hnone : acc.lookup t = none := by
        rw [List.lookup_eq_none_iff]
        intro p hp
        simpa using fun he => hany (List.any_eq_true.mpr ⟨p, hp, by simpa using he.symm⟩)
      simp [hnone]
    · have hne : (t == type) = false := by simpa using ht
      simp [List.lookup_cons, hne, ht]

/-- The sum of the types' correct attempts. -/
def correctSum (accuracyByType : List (String × TypeCounts)) : Int := (accuracyByType.map (·.2.correct)).sum

theorem keys_bumpAccuracy {acc : List (String × TypeCounts)} (type : String) (isCorrect : Bool)
    (h : (acc.map Prod.fst).Nodup) : ((bumpAccuracy acc type isCorrect).map Prod.fst).Nodup := by
  unfold bumpAccuracy
  dsimp only
  split
  · have hkeys : ∀ c : TypeCounts, (acc.map fun entry => if entry.1 == type then (type, c) else entry).map Prod.fst =
        acc.map Prod.fst := by
      intro c
      rw [List.map_map]
      refine List.map_congr_left fun entry _ => ?_
      dsimp only [Function.comp]
      split
      · rename_i he
        exact (beq_iff_eq.mp he).symm
      · rfl
    rw [hkeys]
    exact h
  · rename_i hany
    rw [List.map_append, List.nodup_append]
    refine ⟨h, List.nodup_singleton _, fun t ht t' ht' he => hany ?_⟩
    obtain ⟨entry, hentry, rfl⟩ := List.mem_map.mp ht
    rw [List.map_singleton, List.mem_singleton] at ht'
    exact List.any_eq_true.mpr ⟨entry, hentry, by simp [he, ht']⟩

theorem correctSum_bumpAccuracy {acc : List (String × TypeCounts)} (type : String) (isCorrect : Bool)
    (h : (acc.map Prod.fst).Nodup) :
    correctSum (bumpAccuracy acc type isCorrect) = correctSum acc + if isCorrect then 1 else 0 := by
  -- an entry of the type replaced, where there is one
  have hmap : ∀ (acc : List (String × TypeCounts)) (c : TypeCounts), (acc.map Prod.fst).Nodup →
      acc.any (·.1 == type) = true →
      correctSum (acc.map fun entry => if entry.1 == type then (type, c) else entry) =
        correctSum acc - (typeCounts acc type).correct + c.correct := by
    intro acc c hnodup hany
    induction acc with
    | nil => cases hany
    | cons entry acc ih =>
      obtain ⟨t, c'⟩ := entry
      rw [List.map_cons, List.nodup_cons] at hnodup
      cases ht : t == type with
      | true =>
        obtain rfl := beq_iff_eq.mp ht
        have hsame : acc.map (fun entry => if entry.1 == t then (t, c) else entry) = acc := by
          refine (List.map_congr_left fun entry hentry => ?_).trans (List.map_id acc)
          have hne : entry.1 ≠ t := fun he => hnodup.1 (List.mem_map.mpr ⟨entry, hentry, he⟩)
          simp [hne]
        simp only [List.map_cons, beq_self_eq_true, if_true, hsame, correctSum, List.sum_cons, typeCounts,
          List.lookup_cons, Option.getD_some]
        omega
      | false =>
        rw [List.any_cons, ht, Bool.false_or] at hany
        have hne : (type == t) = false := by simpa using fun he => (beq_eq_false_iff_ne.mp ht) he.symm
        have := ih hnodup.2 hany
        simp only [List.map_cons, ht, Bool.false_eq_true, if_false, correctSum, List.sum_cons, typeCounts,
          List.lookup_cons, hne] at this ⊢
        omega
  unfold bumpAccuracy
  dsimp only
  split
  · rename_i hany
    rw [hmap acc _ h hany]
    simp only [typeCounts]
    split <;> omega
  · rename_i hany
    have hnone : acc.lookup type = none := by
      rw [List.lookup_eq_none_iff]
      intro p hp
      simpa using fun he => hany (List.any_eq_true.mpr ⟨p, hp, by simpa using he.symm⟩)
    simp only [correctSum, List.map_append, List.sum_append, List.map_singleton, List.sum_singleton, hnone,
      Option.getD_none]
    split <;> simp

/-- The row of a concept, or a new one. -/
def conceptRow (states : List ConceptState) (concept : String) : ConceptState :=
  (states.find? (·.concept == concept)).getD (newConceptState concept)

/-! ## As the attempts have them -/

def typeOf (cat : Catalog) (a : Attempt) : Option String := (cat a.exerciseId a.exerciseVersion).map (·.type)

def conceptsOf (cat : Catalog) (a : Attempt) : List String := cat.concepts a.exerciseId a.exerciseVersion

/-- The graded attempts of a type: a verdict, not a skip. -/
def verdicts (cat : Catalog) (attempts : List Attempt) (type : String) : Nat :=
  attempts.countP fun a => a.status == .graded && typeOf cat a == some type

/-- The correct attempts of a type. -/
def rightVerdicts (cat : Catalog) (attempts : List Attempt) (type : String) : Nat :=
  attempts.countP fun a => a.isCorrect == some true && typeOf cat a == some type

/-- How often the attempts of a kind name the concept. -/
def practisedIn (cat : Catalog) (kind : Attempt → Bool) (attempts : List Attempt) (concept : String) : Nat :=
  ((attempts.filter kind).flatMap (conceptsOf cat)).count concept

/-- **The kept counters are those of the attempts.** -/
structure Agrees (cat : Catalog) (attempts : List Attempt) (k : Counters) (states : List ConceptState) : Prop where
  totalAttempts : k.totalAttempts = attempts.length
  totalCorrect : k.totalCorrect = attempts.countP (·.isCorrect == some true)
  sum : k.totalCorrect = correctSum k.accuracyByType
  types : (k.accuracyByType.map Prod.fst).Nodup
  byType : ∀ type, typeCounts k.accuracyByType type = ⟨verdicts cat attempts type, rightVerdicts cat attempts type⟩
  attempted : ∀ c, (conceptRow states c).attempts = practisedIn cat (·.status == .graded) attempts c
  correct : ∀ c, (conceptRow states c).correct = practisedIn cat (·.isCorrect == some true) attempts c
  declined : ∀ c, (conceptRow states c).declined = practisedIn cat (·.status == .skipped) attempts c
  /-- A row has a verdict when it is graded. -/
  verdict : ∀ a ∈ attempts, a.isCorrect.isSome = (a.status == .graded)

theorem Agrees.created : Agrees cat [] (countersOf none) [] where
  totalAttempts := rfl
  totalCorrect := rfl
  sum := rfl
  types := List.nodup_nil
  byType _ := rfl
  attempted _ := rfl
  correct _ := rfl
  declined _ := rfl
  verdict _ ha := nomatch ha

/-! ## One row settled -/

/-- The row counts for something: it is graded, skipped, or correct. -/
def Settled (a : Attempt) : Prop := a.status = .graded ∨ a.status = .skipped ∨ a.isCorrect = some true

/-- The rows gain the row `row`: behind the others (`n = 1`), or in place of one that is not settled (`n = 0`). -/
structure Gains (attempts attempts' : List Attempt) (n : Nat) (row : Attempt) : Prop where
  length : attempts'.length = attempts.length + n
  count : ∀ p : Attempt → Bool, (∀ a, p a = true → Settled a) →
    attempts'.countP p = attempts.countP p + if p row then 1 else 0
  practised : ∀ (cat : Catalog) (kind : Attempt → Bool), (∀ a, kind a = true → Settled a) → ∀ c,
    practisedIn cat kind attempts' c = practisedIn cat kind attempts c + if kind row then (conceptsOf cat row).count c else 0
  mem : ∀ a ∈ attempts', a ∈ attempts ∨ a = row

theorem practisedIn_append (kind : Attempt → Bool) (l l' : List Attempt) (c : String) :
    practisedIn cat kind (l ++ l') c = practisedIn cat kind l c + practisedIn cat kind l' c := by
  simp [practisedIn]

theorem practisedIn_cons (kind : Attempt → Bool) (a : Attempt) (l : List Attempt) (c : String) :
    practisedIn cat kind (a :: l) c = practisedIn cat kind l c + if kind a then (conceptsOf cat a).count c else 0 := by
  unfold practisedIn
  cases h : kind a
  · simp [h]
  · simp only [List.filter_cons, h, if_true, List.flatMap_cons, List.count_append]
    omega

theorem Gains.appended (attempts : List Attempt) (row : Attempt) : Gains attempts (attempts ++ [row]) 1 row where
  length := by simp
  count p _ := by rw [List.countP_append, List.countP_singleton]
  practised cat kind _ c := by
    rw [practisedIn_append, practisedIn_cons]
    simp [practisedIn]
  mem a ha := by simpa using ha

theorem Gains.replaced (l₁ l₂ : List Attempt) {a row : Attempt} (h : ¬ Settled a) :
    Gains (l₁ ++ a :: l₂) (l₁ ++ row :: l₂) 0 row where
  length := by simp
  count p hp := by
    have hold : p a = false := Bool.eq_false_iff.mpr fun ht => h (hp a ht)
    simp only [List.countP_append, List.countP_cons, hold, Bool.false_eq_true, if_false]
    omega
  practised cat kind hkind c := by
    have hold : kind a = false := Bool.eq_false_iff.mpr fun ht => h (hkind a ht)
    simp only [practisedIn_append, practisedIn_cons, hold, Bool.false_eq_true, if_false]
    omega
  mem b hb := by
    rcases List.mem_append.mp hb with hb | hb
    · exact .inl (List.mem_append_left _ hb)
    · rcases List.mem_cons.mp hb with rfl | hb
      · exact .inr rfl
      · exact .inl (List.mem_append_right _ (List.mem_cons_of_mem _ hb))

/-- What the row says about its concepts. -/
def rowOutcome (a : Attempt) : Option ConceptOutcome :=
  match a.isCorrect with
  | some b => some (if b then .correct else .incorrect)
  | none => if a.status = .skipped then some .skipped else none

/-- The counters of the concepts after an outcome, once for each mention of a concept. -/
structure Practised (states states' : List ConceptState) (outcome : Option ConceptOutcome) (concepts : List String) :
    Prop where
  attempts : ∀ c, (conceptRow states' c).attempts = (conceptRow states c).attempts +
    if outcome = some .correct ∨ outcome = some .incorrect then (concepts.count c : Int) else 0
  correct : ∀ c, (conceptRow states' c).correct = (conceptRow states c).correct +
    if outcome = some .correct then (concepts.count c : Int) else 0
  declined : ∀ c, (conceptRow states' c).declined = (conceptRow states c).declined +
    if outcome = some .skipped then (concepts.count c : Int) else 0

theorem Practised.none (states : List ConceptState) (concepts : List String) : Practised states states none concepts where
  attempts _ := by simp
  correct _ := by simp
  declined _ := by simp

/-- The counters after the verdict of a row, if it has one. -/
def Counters.judged (k : Counters) (type : String) : Option Bool → Counters
  | some b => k.corrected type b
  | none => k

/-- The counters after `n` more attempts and the verdict of one, if it has one. -/
def Counters.gained (k : Counters) (n : Nat) (type : String) (verdict : Option Bool) : Counters :=
  { k.judged type verdict with totalAttempts := k.totalAttempts + n }

/-- **A row settled**: the counters agree with the rows that gain it when the row is counted once. -/
theorem Agrees.gains {attempts attempts' : List Attempt} {k : Counters} {states states' : List ConceptState} {n : Nat}
    {row : Attempt} {type : String} (h : Agrees cat attempts k states) (hg : Gains attempts attempts' n row)
    (htype : typeOf cat row = some type) (hverdict : row.isCorrect.isSome = (row.status == .graded))
    (hstates : Practised states states' (rowOutcome row) (conceptsOf cat row)) :
    Agrees cat attempts' (k.gained n type row.isCorrect) states' := by
  have hgraded : ∀ a : Attempt, (a.status == .graded) = true → Settled a := fun a ha => .inl (beq_iff_eq.mp ha)
  have hright : ∀ a : Attempt, (a.isCorrect == some true) = true → Settled a :=
    fun a ha => .inr (.inr (beq_iff_eq.mp ha))
  have hskipped : ∀ a : Attempt, (a.status == .skipped) = true → Settled a :=
    fun a ha => .inr (.inl (beq_iff_eq.mp ha))
  have hverdicts : ∀ t, verdicts cat attempts' t =
      verdicts cat attempts t + if row.status == .graded && typeOf cat row == some t then 1 else 0 :=
    fun t => hg.count _ fun a ha => hgraded a (Bool.and_eq_true _ _ ▸ ha).1
  have hrights : ∀ t, rightVerdicts cat attempts' t =
      rightVerdicts cat attempts t + if row.isCorrect == some true && typeOf cat row == some t then 1 else 0 :=
    fun t => hg.count _ fun a ha => hright a (Bool.and_eq_true _ _ ▸ ha).1
  refine ⟨?_, ?_, ?_, ?_, fun t => ?_, fun c => ?_, fun c => ?_, fun c => ?_, fun a ha => ?_⟩
  · rw [hg.length, Counters.gained, h.totalAttempts]
    exact (Int.natCast_add _ _).symm
  · rw [hg.count _ hright]
    have := h.totalCorrect
    cases hc : row.isCorrect with
    | none => simpa [Counters.gained, Counters.judged] using this
    | some b => cases b <;> simp [Counters.gained, Counters.judged, Counters.corrected, this]
  · have := h.sum
    cases hc : row.isCorrect with
    | none => exact this
    | some b =>
      simp only [Counters.gained, Counters.judged, Counters.corrected, correctSum_bumpAccuracy type b h.types, ← this]
      split <;> simp
  · cases row.isCorrect with
    | none => exact h.types
    | some b => exact keys_bumpAccuracy type b h.types
  · rw [hverdicts, hrights, htype, ← hverdict]
    have hb := h.byType t
    cases hc : row.isCorrect with
    | none => simpa [Counters.gained, Counters.judged] using hb
    | some b =>
      simp only [Counters.gained, Counters.judged, Counters.corrected, typeCounts_bumpAccuracy, hb, Option.isSome_some, Bool.true_and]
      by_cases ht : t = type
      · subst ht
        cases b <;> simp
      · have hne : (some type == some t) = false := by simpa using fun he => ht he.symm
        simp [ht, hne]
  · rw [hg.practised cat _ hgraded, hstates.attempts, h.attempted, ← hverdict]
    unfold rowOutcome
    cases row.isCorrect with
    | none => by_cases hs : row.status = .skipped <;> simp [hs]
    | some b => cases b <;> simp
  · rw [hg.practised cat _ hright, hstates.correct, h.correct]
    unfold rowOutcome
    cases row.isCorrect with
    | none => by_cases hs : row.status = .skipped <;> simp [hs]
    | some b => cases b <;> simp
  · rw [hg.practised cat _ hskipped, hstates.declined, h.declined]
    unfold rowOutcome
    cases hc : row.isCorrect with
    | none => by_cases hs : row.status = .skipped <;> simp [hs]
    | some b =>
      have hs : row.status = .graded := by simpa [hc] using hverdict
      cases b <;> simp [hs]
  · rcases hg.mem a ha with ha | rfl
    · exact h.verdict a ha
    · exact hverdict

/-- The kept counters of the tables are those of their attempts. -/
abbrev AllAgree (cat : Catalog) (rows : GradingRows) : Prop :=
  Agrees cat rows.user.attempts (countersOf rows.user.stats) rows.conceptStates

/-- The row of an id, changed. -/
theorem map_id_eq {attempts : List Attempt} {a : Attempt} (values : Attempt → Attempt)
    (hnodup : (attempts.map Attempt.id).Nodup) (ha : a ∈ attempts) :
    ∃ l₁ l₂, attempts = l₁ ++ a :: l₂ ∧
      (attempts.map fun b => if b.id = a.id then values b else b) = l₁ ++ values a :: l₂ := by
  obtain ⟨l₁, l₂, rfl⟩ := List.append_of_mem ha
  refine ⟨l₁, l₂, rfl, ?_⟩
  rw [List.map_append, List.map_cons, List.nodup_append, List.nodup_cons] at hnodup
  obtain ⟨-, ⟨hl₂, -⟩, hl₁⟩ := hnodup
  have hsame : ∀ l : List Attempt, (∀ b ∈ l, b.id ≠ a.id) →
      (l.map fun b => if b.id = a.id then values b else b) = l := by
    intro l hl
    refine (List.map_congr_left fun b hb => ?_).trans (List.map_id l)
    rw [if_neg (hl b hb), id]
  rw [List.map_append, List.map_cons, if_pos rfl, hsame l₁, hsame l₂]
  · exact fun b hb he => hl₂ (List.mem_map.mpr ⟨b, hb, he⟩)
  · exact fun b hb => hl₁ _ (List.mem_map_of_mem hb) _ List.mem_cons_self

end CodeReader.Grading
