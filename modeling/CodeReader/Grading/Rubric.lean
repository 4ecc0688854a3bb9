import CodeReader.Grading.Mastery
import Mathlib.Algebra.Order.BigOperators.Group.List
import Mathlib.Data.Rat.Cast.Order
import Mathlib.Tactic.Positivity

/-!
# The score of a rubric

The grader only says which points of the rubric an answer makes, and which claims it must not make; the score is
computed from that.

* `scoreFromResponse`, `gradeRubric` — the score, and what is stored with it;
* `ScoringLaw` — what holds of them: `scoring_law`;
* `repeated_hits` — what a grader that repeats itself leaves, and what a rubric without points says.
-/

namespace CodeReader.Scoring

open Grading (quantize quantize_mono quantize_mul_mul)

structure RubricItem where
  point : String
  weight : Rat
  deriving DecidableEq

/-- The rubric of an exercise. -/
structure Rubric where
  mustMention : List RubricItem
  mustNotClaim : List String
  passThreshold : Rat
  distinct : (mustMention.map RubricItem.point).Nodup
  positive : ∀ item ∈ mustMention, 0 < item.weight

/-- `_GraderResponse`: what the grader says, any strings. -/
structure GraderResponse where
  mustMentionHits : List String
  mustNotClaimViolations : List String

/-- `round(x, 3)`, halves to even. -/
def round3 (x : Rat) : Rat := quantize (1000 * x.num) x.den / 1000

namespace Rubric

variable (rubric : Rubric)

def points : List String := rubric.mustMention.map RubricItem.point

/-- The hits that are points of the rubric. -/
def hits (parsed : GraderResponse) : List String := parsed.mustMentionHits.filter (rubric.points.contains ·)

def misses (parsed : GraderResponse) : List String :=
  (rubric.mustMention.filter fun item => !(rubric.hits parsed).contains item.point).map RubricItem.point

def violations (parsed : GraderResponse) : List String :=
  parsed.mustNotClaimViolations.filter (rubric.mustNotClaim.contains ·)

def totalWeight : Rat := (rubric.mustMention.map RubricItem.weight).sum

def hitWeight (hits : List String) : Rat :=
  ((rubric.mustMention.filter fun item => hits.contains item.point).map RubricItem.weight).sum

end Rubric

def scoreFromResponse (rubric : Rubric) (parsed : GraderResponse) : Rat × List String × List String :=
  let hits := rubric.hits parsed
  let score :=
    if rubric.violations parsed ≠ [] then 0
    else if rubric.totalWeight ≠ 0 then rubric.hitWeight hits / rubric.totalWeight
    else 0
  (round3 score, hits, rubric.misses parsed)

/-- What a call of the grader comes to. -/
inductive GraderCall
  /-- A timeout, or a transport error. -/
  | failed
  /-- An answer that is not JSON of the schema. -/
  | invalid
  | parsed (response : GraderResponse)

inductive RubricError
  | gradingTimeout | gradingInvalidResponse

structure RubricResult where
  score : Rat
  isCorrect : Bool
  rubricHits : List String
  rubricMisses : List String
  referenceAnswer : String

/-- `_attempt_with_one_retry`: the second call is made when the first is invalid. -/
def attemptWithOneRetry (first second : GraderCall) : Except RubricError GraderResponse :=
  match first with
  | .failed => .error .gradingTimeout
  | .parsed response => .ok response
  | .invalid =>
    match second with
    | .failed => .error .gradingTimeout
    | .parsed response => .ok response
    | .invalid => .error .gradingInvalidResponse

def gradeRubric (rubric : Rubric) (referenceAnswer : String) (first second : GraderCall) :
    Except RubricError RubricResult := do
  let parsed ← attemptWithOneRetry first second
  let (score, hits, misses) := scoreFromResponse rubric parsed
  return ⟨score, rubric.passThreshold ≤ score, hits, misses, referenceAnswer⟩

/-! ## Rounding -/

section Rounding

variable {x y : Rat}

theorem round3_mono (h : x ≤ y) : round3 x ≤ round3 y := by
  have hx : (0 : Int) < x.den := Int.natCast_pos.mpr x.den_pos
  have hy : (0 : Int) < y.den := Int.natCast_pos.mpr y.den_pos
  have hle : x.num * y.den ≤ y.num * x.den := Rat.le_iff x y |>.mp h
  have hquant : quantize (1000 * x.num) x.den ≤ quantize (1000 * y.num) y.den := by
    calc quantize (1000 * x.num) x.den = quantize (y.den * (1000 * x.num)) (y.den * x.den) :=
          (quantize_mul_mul hy).symm
      _ ≤ quantize (x.den * (1000 * y.num)) (y.den * x.den) := quantize_mono (mul_pos hy hx) (by linarith)
      _ = quantize (x.den * (1000 * y.num)) (x.den * y.den) := by rw [mul_comm (y.den : Int)]
      _ = quantize (1000 * y.num) y.den := quantize_mul_mul hx
  have hcast : ((quantize (1000 * x.num) x.den : Int) : Rat) ≤ (quantize (1000 * y.num) y.den : Int) :=
    Int.cast_le.mpr hquant
  unfold round3
  linarith

@[simp] theorem round3_zero : round3 0 = 0 := by decide +kernel

@[simp] theorem round3_one : round3 1 = 1 := by decide +kernel

end Rounding

/-! ## The law -/

section Law

variable {rubric : Rubric} {parsed parsed' : GraderResponse}

namespace Rubric

theorem mem_hits {p : String} : p ∈ rubric.hits parsed ↔ p ∈ parsed.mustMentionHits ∧ p ∈ rubric.points := by
  rw [hits, List.mem_filter, List.contains_iff_mem]

theorem mem_violations {v : String} :
    v ∈ rubric.violations parsed ↔ v ∈ parsed.mustNotClaimViolations ∧ v ∈ rubric.mustNotClaim := by
  rw [violations, List.mem_filter, List.contains_iff_mem]

theorem mem_misses {p : String} : p ∈ rubric.misses parsed ↔ p ∈ rubric.points ∧ p ∉ parsed.mustMentionHits := by
  simp only [misses, points, List.mem_map, List.mem_filter, Bool.not_eq_true', ← Bool.not_eq_true,
    List.contains_iff_mem, mem_hits]
  constructor
  · rintro ⟨item, ⟨hmem, hnot⟩, rfl⟩
    exact ⟨⟨item, hmem, rfl⟩, fun hp => hnot ⟨hp, item, hmem, rfl⟩⟩
  · rintro ⟨⟨item, hmem, rfl⟩, hnot⟩
    exact ⟨item, ⟨hmem, fun hp => hnot hp.1⟩, rfl⟩

theorem nodup_misses : (rubric.misses parsed).Nodup := rubric.distinct.sublist (List.filter_sublist.map _)

theorem hitWeight_mono {hits hits' : List String} (h : ∀ p ∈ hits, p ∈ hits') :
    rubric.hitWeight hits ≤ rubric.hitWeight hits' := by
  have hsub : (rubric.mustMention.filter fun item => hits.contains item.point).Sublist
      (rubric.mustMention.filter fun item => hits'.contains item.point) := by
    refine List.monotone_filter_right _ fun item hitem => ?_
    rw [List.contains_iff_mem] at hitem ⊢
    exact h _ hitem
  refine List.Sublist.sum_le_sum (hsub.map _) fun w hw => ?_
  obtain ⟨item, hitem, rfl⟩ := List.mem_map.mp hw
  exact (rubric.positive item (List.mem_filter.mp hitem).1).le

theorem hitWeight_nonneg {hits : List String} : 0 ≤ rubric.hitWeight hits := by
  have hnil : rubric.hitWeight [] = 0 := by simp [hitWeight]
  rw [← hnil]
  exact hitWeight_mono fun p hp => absurd hp List.not_mem_nil

/-- When every point is hit, the weight is the whole weight. -/
theorem hitWeight_all {hits : List String} (h : ∀ p ∈ rubric.points, p ∈ hits) :
    rubric.hitWeight hits = rubric.totalWeight := by
  rw [hitWeight, List.filter_eq_self.mpr fun item hitem => ?_]
  · rfl
  · rw [List.contains_iff_mem]
    exact h _ (List.mem_map_of_mem hitem)

theorem hitWeight_le {hits : List String} : rubric.hitWeight hits ≤ rubric.totalWeight := by
  have hall : rubric.hitWeight (hits ++ rubric.points) = rubric.totalWeight :=
    hitWeight_all fun p hp => List.mem_append_right _ hp
  rw [← hall]
  exact hitWeight_mono fun p hp => List.mem_append_left _ hp

theorem totalWeight_nonneg : 0 ≤ rubric.totalWeight := by
  calc 0 ≤ rubric.hitWeight [] := hitWeight_nonneg
    _ ≤ rubric.totalWeight := hitWeight_le

theorem totalWeight_pos (h : rubric.mustMention ≠ []) : 0 < rubric.totalWeight := by
  refine List.sum_pos _ (fun w hw => ?_) (by simpa using h)
  obtain ⟨item, hitem, rfl⟩ := List.mem_map.mp hw
  exact rubric.positive item hitem

/-- The part of the weight that is hit. -/
theorem share_mono {hits hits' : List String} (h : ∀ p ∈ hits, p ∈ hits') :
    (if rubric.totalWeight ≠ 0 then rubric.hitWeight hits / rubric.totalWeight else 0) ≤
      if rubric.totalWeight ≠ 0 then rubric.hitWeight hits' / rubric.totalWeight else 0 := by
  split
  · exact div_le_div_of_nonneg_right (hitWeight_mono h) totalWeight_nonneg
  · exact le_refl 0

end Rubric

/-- The score alone. -/
def score (rubric : Rubric) (parsed : GraderResponse) : Rat := (scoreFromResponse rubric parsed).1

/-- A violation of the rubric is reported. -/
def Violated (rubric : Rubric) (parsed : GraderResponse) : Prop :=
  ∃ v ∈ parsed.mustNotClaimViolations, v ∈ rubric.mustNotClaim

/-- All points are hit, and no violation is reported. -/
def Complete (rubric : Rubric) (parsed : GraderResponse) : Prop :=
  (∀ p ∈ rubric.points, p ∈ parsed.mustMentionHits) ∧ ¬ Violated rubric parsed

theorem violations_eq_nil : rubric.violations parsed = [] ↔ ¬ Violated rubric parsed := by
  simp only [Violated, not_exists, not_and, List.eq_nil_iff_forall_not_mem, Rubric.mem_violations]

theorem score_violated (h : Violated rubric parsed) : score rubric parsed = 0 := by
  have hne : rubric.violations parsed ≠ [] := fun hnil => violations_eq_nil.mp hnil h
  simp [score, scoreFromResponse, hne]

theorem score_not_violated (h : ¬ Violated rubric parsed) : score rubric parsed =
    round3 (if rubric.totalWeight ≠ 0 then rubric.hitWeight (rubric.hits parsed) / rubric.totalWeight else 0) := by
  simp [score, scoreFromResponse, violations_eq_nil.mpr h]

theorem score_nonneg : 0 ≤ score rubric parsed := by
  by_cases hv : Violated rubric parsed
  · exact (score_violated hv).ge
  · rw [score_not_violated hv]
    refine round3_zero.ge.trans (round3_mono ?_)
    split
    · exact div_nonneg Rubric.hitWeight_nonneg Rubric.totalWeight_nonneg
    · exact le_refl 0

theorem score_le_one : score rubric parsed ≤ 1 := by
  by_cases hv : Violated rubric parsed
  · rw [score_violated hv]
    exact zero_le_one
  · rw [score_not_violated hv]
    refine (round3_mono ?_).trans round3_one.le
    split
    · exact div_le_one_of_le₀ Rubric.hitWeight_le Rubric.totalWeight_nonneg
    · exact zero_le_one

theorem score_complete (hne : rubric.mustMention ≠ []) (h : Complete rubric parsed) : score rubric parsed = 1 := by
  have hpos := rubric.totalWeight_pos hne
  have hall : rubric.hitWeight (rubric.hits parsed) = rubric.totalWeight :=
    Rubric.hitWeight_all fun p hp => Rubric.mem_hits.mpr ⟨h.1 p hp, hp⟩
  rw [score_not_violated h.2, if_pos hpos.ne', hall, div_self hpos.ne', round3_one]

/-- More hits, and no other violations. -/
theorem score_mono (hhits : ∀ p ∈ rubric.points, p ∈ parsed.mustMentionHits → p ∈ parsed'.mustMentionHits)
    (hviolated : Violated rubric parsed' → Violated rubric parsed) : score rubric parsed ≤ score rubric parsed' := by
  by_cases hv : Violated rubric parsed
  · rw [score_violated hv]
    exact score_nonneg
  · rw [score_not_violated hv, score_not_violated (fun hv' => hv (hviolated hv'))]
    refine round3_mono (Rubric.share_mono fun p hp => ?_)
    obtain ⟨hhit, hpoint⟩ := Rubric.mem_hits.mp hp
    exact Rubric.mem_hits.mpr ⟨hhits p hpoint hhit, hpoint⟩

/-- What the grader says of the rubric, as sets. -/
def SameOnRubric (rubric : Rubric) (parsed parsed' : GraderResponse) : Prop :=
  (∀ p ∈ rubric.points, p ∈ parsed.mustMentionHits ↔ p ∈ parsed'.mustMentionHits) ∧
    ∀ v ∈ rubric.mustNotClaim, v ∈ parsed.mustNotClaimViolations ↔ v ∈ parsed'.mustNotClaimViolations

/-- The stored hits and misses are the points that are hit, and the others. -/
structure Partition (rubric : Rubric) (parsed : GraderResponse) : Prop where
  mem_hits : ∀ p, p ∈ (scoreFromResponse rubric parsed).2.1 ↔ p ∈ rubric.points ∧ p ∈ parsed.mustMentionHits
  mem_misses : ∀ p, p ∈ (scoreFromResponse rubric parsed).2.2 ↔ p ∈ rubric.points ∧ p ∉ parsed.mustMentionHits
  nodup_misses : (scoreFromResponse rubric parsed).2.2.Nodup

/-- What holds of the score and of what is stored. -/
structure ScoringLaw (rubric : Rubric) (parsed : GraderResponse) : Prop where
  range : 0 ≤ score rubric parsed ∧ score rubric parsed ≤ 1
  sets : ∀ parsed', SameOnRubric rubric parsed parsed' → score rubric parsed = score rubric parsed'
  violated : Violated rubric parsed → score rubric parsed = 0
  monotone : ∀ parsed', (∀ p ∈ rubric.points, p ∈ parsed.mustMentionHits → p ∈ parsed'.mustMentionHits) →
    (Violated rubric parsed' ↔ Violated rubric parsed) → score rubric parsed ≤ score rubric parsed'
  complete : rubric.mustMention ≠ [] → Complete rubric parsed → score rubric parsed = 1
  partition : Partition rubric parsed
  /-- The hits have no duplicates when the grader does not repeat itself. -/
  nodup_hits : parsed.mustMentionHits.Nodup → (scoreFromResponse rubric parsed).2.1.Nodup

theorem SameOnRubric.violated (h : SameOnRubric rubric parsed parsed') :
    Violated rubric parsed ↔ Violated rubric parsed' := by
  constructor
  · rintro ⟨v, hv, hmem⟩
    exact ⟨v, (h.2 v hmem).mp hv, hmem⟩
  · rintro ⟨v, hv, hmem⟩
    exact ⟨v, (h.2 v hmem).mpr hv, hmem⟩

theorem partition_scoreFromResponse : Partition rubric parsed where
  mem_hits _ := Rubric.mem_hits.trans and_comm
  mem_misses _ := Rubric.mem_misses
  nodup_misses := Rubric.nodup_misses

/-- **The scoring law**, for every rubric and whatever the grader says. -/
theorem scoring_law (rubric : Rubric) (parsed : GraderResponse) : ScoringLaw rubric parsed where
  range := ⟨score_nonneg, score_le_one⟩
  sets _ h := le_antisymm
    (score_mono (fun p hp => (h.1 p hp).mp) h.violated.mpr)
    (score_mono (fun p hp => (h.1 p hp).mpr) h.violated.mp)
  violated := score_violated
  monotone _ hhits hviolated := score_mono hhits hviolated.mp
  complete := score_complete
  partition := partition_scoreFromResponse
  nodup_hits h := h.filter _

/-- What is stored is what the law is about. -/
theorem gradeRubric_result {referenceAnswer : String} {first second : GraderCall} {result : RubricResult}
    (h : gradeRubric rubric referenceAnswer first second = .ok result) :
    ∃ parsed, scoreFromResponse rubric parsed = (result.score, result.rubricHits, result.rubricMisses) ∧
      ScoringLaw rubric parsed := by
  cases hparsed : attemptWithOneRetry first second with
  | error e =>
    rw [gradeRubric, hparsed] at h
    cases h
  | ok parsed =>
    rw [gradeRubric, hparsed] at h
    cases h
    exact ⟨parsed, rfl, scoring_law rubric parsed⟩

end Law

/-! ### Two rubrics -/

/-- One point. -/
def onePoint : Rubric := ⟨[⟨"retries", 1⟩], [], 1, by decide, by decide +kernel⟩

def noPoints : Rubric := ⟨[], [], 1, by decide, by decide⟩

/-- **Repeated hits**: a grader that repeats a point leaves it twice among the stored hits, and where the rubric has no
points, all of them being hit scores nothing. -/
theorem repeated_hits :
    ¬ (scoreFromResponse onePoint ⟨["retries", "retries"], []⟩).2.1.Nodup ∧
    Complete noPoints ⟨[], []⟩ ∧ score noPoints ⟨[], []⟩ ≠ 1 := by
  refine ⟨by decide +kernel, ⟨by decide +kernel, ?_⟩, by decide +kernel⟩
  rintro ⟨v, hv, -⟩
  exact absurd hv List.not_mem_nil

end CodeReader.Scoring
