import CodeReader.Core.Rows
import CodeReader.Models.UserState
import CodeReader.Sessions.Sampler
import CodeReader.Text.PyJson
import Mathlib.Data.List.Dedup
import Mathlib.Data.Rat.Floor
import Mathlib.Tactic.Linarith

/-!
# Exercise statistics

The job that counts attempts: of a user, an exercise, a version and a date the earliest that is graded.  Which of two
created at once PostgreSQL takes, and in what order it returns rows, is left open.

* `Deduped` — a result of `SELECT DISTINCT ON`; `dedup` is one;
* `statOf`, `computeExerciseStats` — what is counted, kept and written to the exercises;
* `Computes` — a run of the job;
* `percentiles_firstGraded` — **later attempts change nothing**, and what the statistics are in every reachable state.
-/

namespace CodeReader.Jobs

open Text Sessions

/-! ## Rounding -/

/-- A `numeric` rounded to so many decimals, halves away from zero. -/
def roundNumeric (decimals : Nat) (x : Rat) : Rat :=
  if 0 ≤ x then (⌊x * 10 ^ decimals + 1 / 2⌋ : Int) / 10 ^ decimals
  else -((⌊-x * 10 ^ decimals + 1 / 2⌋ : Int) / 10 ^ decimals)

/-- The number that a double is. -/
def floatValue : PyFloat → Rat
  | .finite negative mantissa exponent => (if negative then -1 else 1) * mantissa * 2 ^ exponent
  | _ => 0

/-! ## Attempts -/

/-- A row of `attempts`, with whose it is. -/
structure UserAttempt extends Attempt where
  userId : Nat
  deriving DecidableEq

/-- `(user_id, exercise_id, exercise_version, session_date)`. -/
def UserAttempt.key (a : UserAttempt) : Nat × ExerciseId × Int × Int :=
  (a.userId, a.exerciseId, a.exerciseVersion, a.sessionDate)

abbrev ExerciseKey := ExerciseId × Int

def UserAttempt.exercise (a : UserAttempt) : ExerciseKey := (a.exerciseId, a.exerciseVersion)

/-- One row of each key, none of whose others was created before it. -/
structure Deduped (attempts rows : List UserAttempt) : Prop where
  rows_of : ∀ a ∈ rows, a ∈ attempts ∧ a.status = .graded
  earliest : ∀ a ∈ rows, ∀ a' ∈ attempts, a'.status = .graded → a'.key = a.key → a.createdAt ≤ a'.createdAt
  covers : ∀ a ∈ attempts, a.status = .graded → ∃ a' ∈ rows, a'.key = a.key
  distinct : (rows.map UserAttempt.key).Nodup

/-- A row joins those kept, in the place of a later one of its key. -/
def keepEarliest (kept : List UserAttempt) (a : UserAttempt) : List UserAttempt :=
  if kept.any fun k => decide (k.key = a.key) then
    kept.map fun k => if k.key = a.key ∧ a.createdAt < k.createdAt then a else k
  else kept ++ [a]

def dedup (attempts : List UserAttempt) : List UserAttempt :=
  (attempts.filter fun a => decide (a.status = .graded)).foldl keepEarliest []

/-! ## Statistics -/

/-- A row of `exercise_stats`, without the time of its computation. -/
structure ExerciseStat where
  attemptsCount : Nat
  correctCount : Nat
  solveRate : Option Rat
  medianTimeMs : Option Int
  deriving DecidableEq

/-- `percentile_cont(0.5)`, and `int` of it. -/
def medianOf (times : List Int) : Option Int :=
  let sorted := times.mergeSort fun t t' => decide (t ≤ t')
  match sorted[(sorted.length - 1) / 2]?, sorted[sorted.length / 2]? with
  | some low, some high => some ((low + high).tdiv 2)
  | _, _ => none

/-- The quotient of two floats, kept with three decimals. -/
def solveRateOf (correctCount attemptsCount : Nat) : Option Rat :=
  if attemptsCount = 0 then none else some (roundNumeric 3 (floatValue (nearestDouble false correctCount attemptsCount)))

def statOf (group : List UserAttempt) : ExerciseStat :=
  let correctCount := (group.filter fun a => a.isCorrect == some true).length
  { attemptsCount := group.length
    correctCount
    solveRate := solveRateOf correctCount group.length
    medianTimeMs := medianOf (group.filterMap (·.timeTakenMs)) }

/-- The attempts of an exercise. -/
def groupOf (key : ExerciseKey) (rows : List UserAttempt) : List UserAttempt := rows.filter fun a => decide (a.exercise = key)

/-- `least(10, greatest(1, round(1 + 9 * (1 - solve_rate), 2)))`. -/
def difficultyOf (solveRate : Rat) : Rat := min 10 (max 1 (roundNumeric 2 (1 + 9 * (1 - solveRate))))

/-- What the job writes: `exercise_stats`, and a column of `exercises`. -/
structure Computed where
  stats : ExerciseKey → Option ExerciseStat
  difficultyEmpirical : ExerciseKey → Option Rat

/-- Nothing is computed. -/
def Computed.empty : Computed := ⟨fun _ => none, fun _ => none⟩

/-- What the exercise's difficulty is set to, if it is. -/
def ExerciseStat.difficulty? (s : ExerciseStat) : Option Rat :=
  if minEmpiricalN ≤ s.attemptsCount then s.solveRate.map difficultyOf else none

/-- The statistics of every exercise that has rows are replaced; then the difficulty of every exercise with enough
attempts. -/
def computeExerciseStats (rows : List UserAttempt) (c : Computed) : Computed :=
  let stats := (rows.map (·.exercise)).dedup.foldl
    (fun stats key => Function.update stats key (some (statOf (groupOf key rows)))) c.stats
  { stats
    difficultyEmpirical := fun key => ((stats key).bind ExerciseStat.difficulty?).or (c.difficultyEmpirical key) }

/-- A run of the job over a table of attempts. -/
def Computes (attempts : List UserAttempt) (before after : Computed) : Prop :=
  ∃ rows, Deduped attempts rows ∧ after = computeExerciseStats rows before

/-! ## Later rows -/

/-- A graded row, created after a graded one of its key. -/
def LateDuplicate (attempts : List UserAttempt) (a : UserAttempt) : Prop :=
  a.status = .graded ∧ ∃ a' ∈ attempts, a'.status = .graded ∧ a'.key = a.key ∧ a'.createdAt < a.createdAt

section Late

variable {attempts duplicates attempts' rows : List UserAttempt}

theorem Deduped.add (hlate : ∀ a ∈ duplicates, LateDuplicate attempts a) (h : Deduped attempts rows) :
    Deduped (attempts ++ duplicates) rows := by
  refine ⟨fun a ha => ⟨List.mem_append_left _ (h.rows_of a ha).1, (h.rows_of a ha).2⟩, ?_, ?_, h.distinct⟩
  · intro a ha a' ha' hgraded hkey
    rcases List.mem_append.mp ha' with hmem | hmem
    · exact h.earliest a ha a' hmem hgraded hkey
    · obtain ⟨-, first, hfirst, hfirstGraded, hfirstKey, hlt⟩ := hlate a' hmem
      exact (h.earliest a ha first hfirst hfirstGraded (hfirstKey.trans hkey)).trans hlt.le
  · intro a ha hgraded
    rcases List.mem_append.mp ha with hmem | hmem
    · exact h.covers a hmem hgraded
    · obtain ⟨-, first, hfirst, hfirstGraded, hfirstKey, -⟩ := hlate a hmem
      obtain ⟨row, hrow, hkey⟩ := h.covers first hfirst hfirstGraded
      exact ⟨row, hrow, hkey.trans hfirstKey⟩

theorem Deduped.remove (hlate : ∀ a ∈ duplicates, LateDuplicate attempts a) (h : Deduped (attempts ++ duplicates) rows) :
    Deduped attempts rows := by
  refine ⟨fun a ha => ⟨?_, (h.rows_of a ha).2⟩, ?_, ?_, h.distinct⟩
  · -- a later row is not the earliest of its key
    refine (List.mem_append.mp (h.rows_of a ha).1).resolve_right fun hmem => ?_
    obtain ⟨-, first, hfirst, hfirstGraded, hfirstKey, hlt⟩ := hlate a hmem
    exact absurd (h.earliest a ha first (List.mem_append_left _ hfirst) hfirstGraded hfirstKey) hlt.not_ge
  · exact fun a ha a' ha' => h.earliest a ha a' (List.mem_append_left _ ha')
  · exact fun a ha => h.covers a (List.mem_append_left _ ha)

theorem Deduped.perm (hperm : attempts.Perm attempts') (h : Deduped attempts rows) : Deduped attempts' rows :=
  ⟨fun a ha => ⟨hperm.mem_iff.mp (h.rows_of a ha).1, (h.rows_of a ha).2⟩,
    fun a ha a' ha' => h.earliest a ha a' (hperm.mem_iff.mpr ha'), fun a ha => h.covers a (hperm.mem_iff.mpr ha), h.distinct⟩

/-- **Later rows, wherever they stand in the table, change nothing.** -/
theorem computes_iff_of_late (hperm : (attempts ++ duplicates).Perm attempts')
    (hlate : ∀ a ∈ duplicates, LateDuplicate attempts a) (before after : Computed) :
    Computes attempts before after ↔ Computes attempts' before after := by
  constructor
  · rintro ⟨rows, hrows, rfl⟩
    exact ⟨rows, (hrows.add hlate).perm hperm, rfl⟩
  · rintro ⟨rows, hrows, rfl⟩
    exact ⟨rows, (hrows.perm hperm.symm).remove hlate, rfl⟩

end Late

/-! ## The rows kept -/

section Dedup

variable {attempts kept : List UserAttempt} {a : UserAttempt}

theorem Deduped.keep (h : Deduped attempts kept) (hgraded : a.status = .graded) :
    Deduped (attempts ++ [a]) (keepEarliest kept a) := by
  unfold keepEarliest
  split
  · rename_i hany
    obtain ⟨first, hfirst, hkey⟩ := List.any_eq_true.mp hany
    have hkey' := of_decide_eq_true hkey
    have hkeys : ∀ k : UserAttempt, (if k.key = a.key ∧ a.createdAt < k.createdAt then a else k).key = k.key := by
      intro k
      split
      · rename_i hlater
        exact hlater.1.symm
      · rfl
    refine ⟨?_, ?_, ?_, ?_⟩
    · intro row hrow
      obtain ⟨k, hk, rfl⟩ := List.mem_map.mp hrow
      split
      · exact ⟨List.mem_append_right _ (List.mem_singleton_self a), hgraded⟩
      · exact ⟨List.mem_append_left _ (h.rows_of k hk).1, (h.rows_of k hk).2⟩
    · intro row hrow a' ha' hgraded' hkey''
      obtain ⟨k, hk, rfl⟩ := List.mem_map.mp hrow
      rw [hkeys] at hkey''
      have hold : a' ∈ attempts → k.createdAt ≤ a'.createdAt := fun hmem => h.earliest k hk a' hmem hgraded' hkey''
      rcases List.mem_append.mp ha' with hmem | hmem
      · split
        · rename_i hlater
          exact hlater.2.le.trans (hold hmem)
        · exact hold hmem
      · obtain rfl := List.mem_singleton.mp hmem
        split
        · exact le_rfl
        · rename_i hnot
          exact not_lt.mp fun hlt => hnot ⟨hkey''.symm, hlt⟩
    · intro a' ha' hgraded'
      rcases List.mem_append.mp ha' with hmem | hmem
      · obtain ⟨k, hk, hkey''⟩ := h.covers a' hmem hgraded'
        exact ⟨_, List.mem_map_of_mem hk, (hkeys k).trans hkey''⟩
      · obtain rfl := List.mem_singleton.mp hmem
        exact ⟨_, List.mem_map_of_mem hfirst, (hkeys first).trans hkey'⟩
    · rw [List.map_map, show UserAttempt.key ∘ _ = UserAttempt.key from funext hkeys]
      exact h.distinct
  · rename_i hnone
    have hnew : ∀ k ∈ kept, k.key ≠ a.key := fun k hk hkey => hnone (List.any_eq_true.mpr ⟨k, hk, decide_eq_true hkey⟩)
    refine ⟨?_, ?_, ?_, ?_⟩
    · intro row hrow
      rcases List.mem_append.mp hrow with hmem | hmem
      · exact ⟨List.mem_append_left _ (h.rows_of row hmem).1, (h.rows_of row hmem).2⟩
      · rw [List.mem_singleton.mp hmem]
        exact ⟨List.mem_append_right _ (List.mem_singleton_self a), hgraded⟩
    · intro row hrow a' ha' hgraded' hkey
      rcases List.mem_append.mp hrow with hmem | hmem <;> rcases List.mem_append.mp ha' with hmem' | hmem'
      · exact h.earliest row hmem a' hmem' hgraded' hkey
      · exact absurd (List.mem_singleton.mp hmem' ▸ hkey).symm (hnew row hmem)
      · obtain ⟨k, hk, hkey'⟩ := h.covers a' hmem' hgraded'
        exact absurd (hkey'.trans (hkey.trans (congrArg _ (List.mem_singleton.mp hmem)))) (hnew k hk)
      · rw [List.mem_singleton.mp hmem, List.mem_singleton.mp hmem']
    · intro a' ha' hgraded'
      rcases List.mem_append.mp ha' with hmem | hmem
      · obtain ⟨k, hk, hkey⟩ := h.covers a' hmem hgraded'
        exact ⟨k, List.mem_append_left _ hk, hkey⟩
      · exact ⟨a, List.mem_append_right _ (List.mem_singleton_self a), congrArg _ (List.mem_singleton.mp hmem).symm⟩
    · exact Rows.nodup_insert h.distinct hnew

theorem Deduped.of_none {attempts : List UserAttempt} (h : ∀ a ∈ attempts, a.status ≠ .graded) : Deduped attempts [] where
  rows_of _ ha := absurd ha List.not_mem_nil
  earliest _ ha := absurd ha List.not_mem_nil
  covers a ha hgraded := absurd hgraded (h a ha)
  distinct := List.nodup_nil

theorem Deduped.nil : Deduped [] [] := .of_none fun _ ha => absurd ha List.not_mem_nil

/-- **`dedup` is a result of the query**, so the job always has one. -/
theorem deduped_dedup (attempts : List UserAttempt) : Deduped attempts (dedup attempts) := by
  have hfold : ∀ (later earlier kept : List UserAttempt), (∀ a ∈ later, a.status = .graded) → Deduped earlier kept →
      Deduped (earlier ++ later) (later.foldl keepEarliest kept) := by
    intro later
    induction later with
    | nil =>
      intro earlier kept _ h
      rw [List.append_nil]
      exact h
    | cons a later ih =>
      intro earlier kept hgraded h
      rw [List.append_cons]
      exact ih _ _ (fun a' ha' => hgraded a' (List.mem_cons_of_mem _ ha')) (h.keep (hgraded a List.mem_cons_self))
  have hkept := hfold (attempts.filter fun a => decide (a.status = .graded)) [] []
    (fun a ha => of_decide_eq_true (List.mem_filter.mp ha).2) .nil
  rw [List.nil_append] at hkept
  refine ⟨fun a ha => ?_, fun a ha a' ha' hgraded => ?_, fun a ha hgraded => ?_, hkept.distinct⟩
  · exact ⟨(List.mem_filter.mp (hkept.rows_of a ha).1).1, (hkept.rows_of a ha).2⟩
  · exact hkept.earliest a ha a' (List.mem_filter.mpr ⟨ha', decide_eq_true hgraded⟩) hgraded
  · exact hkept.covers a (List.mem_filter.mpr ⟨ha, decide_eq_true hgraded⟩) hgraded

end Dedup

/-! ## Difficulties -/

theorem roundNumeric_mono (decimals : Nat) {x y : Rat} (h : x ≤ y) : roundNumeric decimals x ≤ roundNumeric decimals y := by
  have hscale : (0 : Rat) < 10 ^ decimals := by positivity
  have hfloor : ∀ {u v : Rat}, u ≤ v → (⌊u * 10 ^ decimals + 1 / 2⌋ : Rat) / 10 ^ decimals ≤
      (⌊v * 10 ^ decimals + 1 / 2⌋ : Rat) / 10 ^ decimals := fun huv => by gcongr
  have hsign : ∀ {u : Rat}, 0 ≤ u → (0 : Rat) ≤ (⌊u * 10 ^ decimals + 1 / 2⌋ : Rat) / 10 ^ decimals := fun hu =>
    div_nonneg (Int.cast_nonneg (Int.floor_nonneg.mpr (by positivity))) hscale.le
  unfold roundNumeric
  split_ifs with hx hy hy
  · exact hfloor h
  · exact absurd (hx.trans h) hy
  · exact (neg_nonpos.mpr (hsign (by linarith))).trans (hsign hy)
  · exact neg_le_neg (hfloor (neg_le_neg h))

/-- **The lower the solve rate, the harder.** -/
theorem difficultyOf_antitone {q q' : Rat} (h : q ≤ q') : difficultyOf q' ≤ difficultyOf q :=
  min_le_min_left _ (max_le_max_left _ (roundNumeric_mono 2 (by linarith)))

theorem difficultyOf_mem (q : Rat) : 1 ≤ difficultyOf q ∧ difficultyOf q ≤ 10 :=
  ⟨le_min (by norm_num) (le_max_left _ _), min_le_left _ _⟩

example : difficultyOf (31 / 100) = 721 / 100 := by decide +kernel

/-! ## What a run writes -/

/-- How many graded attempts an exercise has, of different keys. -/
def sampleSize (attempts : List UserAttempt) (key : ExerciseKey) : Nat :=
  ((groupOf key (attempts.filter fun a => decide (a.status = .graded))).map UserAttempt.key).dedup.length

section Writes

variable {attempts attempts' rows : List UserAttempt} {c : Computed} {key : ExerciseKey}

theorem mem_groupOf {a : UserAttempt} : a ∈ groupOf key rows ↔ a ∈ rows ∧ a.exercise = key := by
  rw [groupOf, List.mem_filter, decide_eq_true_iff]

theorem exercise_of_key {a a' : UserAttempt} (h : a.key = a'.key) : a.exercise = a'.exercise := by
  have hid : a.exerciseId = a'.exerciseId := congrArg (·.2.1) h
  have hversion : a.exerciseVersion = a'.exerciseVersion := congrArg (·.2.2.1) h
  exact Prod.ext hid hversion

/-- The keys of the graded attempts of an exercise. -/
theorem mem_sampleKeys {k : Nat × ExerciseId × Int × Int} :
    k ∈ (groupOf key (attempts.filter fun a => decide (a.status = .graded))).map UserAttempt.key ↔
      ∃ a ∈ attempts, a.status = .graded ∧ a.exercise = key ∧ a.key = k := by
  rw [List.mem_map]
  constructor
  · rintro ⟨a, ha, hk⟩
    obtain ⟨hmem, hexercise⟩ := mem_groupOf.mp ha
    obtain ⟨hattempt, hgraded⟩ := List.mem_filter.mp hmem
    exact ⟨a, hattempt, of_decide_eq_true hgraded, hexercise, hk⟩
  · rintro ⟨a, ha, hgraded, hexercise, hk⟩
    exact ⟨a, mem_groupOf.mpr ⟨List.mem_filter.mpr ⟨ha, decide_eq_true hgraded⟩, hexercise⟩, hk⟩

/-- The rows of an exercise are as many as its graded attempts of different keys. -/
theorem Deduped.length_groupOf (h : Deduped attempts rows) (key : ExerciseKey) :
    (groupOf key rows).length = sampleSize attempts key := by
  have hperm : ((groupOf key rows).map UserAttempt.key).Perm
      ((groupOf key (attempts.filter fun a => decide (a.status = .graded))).map UserAttempt.key).dedup := by
    refine (List.perm_ext_iff_of_nodup (h.distinct.sublist (List.filter_sublist.map _)) (List.nodup_dedup _)).mpr fun k => ?_
    rw [List.mem_dedup, mem_sampleKeys, List.mem_map]
    constructor
    · rintro ⟨a, ha, hk⟩
      obtain ⟨hrow, hexercise⟩ := mem_groupOf.mp ha
      exact ⟨a, (h.rows_of a hrow).1, (h.rows_of a hrow).2, hexercise, hk⟩
    · rintro ⟨a, ha, hgraded, hexercise, hk⟩
      obtain ⟨row, hrow, hkey⟩ := h.covers a ha hgraded
      exact ⟨row, mem_groupOf.mpr ⟨hrow, (exercise_of_key hkey).trans hexercise⟩, hkey.trans hk⟩
  rw [sampleSize, ← hperm.length_eq, List.length_map]

/-- The graded attempts are still there, or others of their keys. -/
def Keeps (attempts attempts' : List UserAttempt) : Prop :=
  ∀ a ∈ attempts, a.status = .graded → ∃ a' ∈ attempts', a'.status = .graded ∧ a'.key = a.key

theorem sampleSize_mono (h : Keeps attempts attempts') (key : ExerciseKey) : sampleSize attempts key ≤ sampleSize attempts' key := by
  refine (List.subperm_of_subset (List.nodup_dedup _) fun k hk => ?_).length_le
  obtain ⟨a, ha, hgraded, hexercise, rfl⟩ := mem_sampleKeys.mp (List.mem_dedup.mp hk)
  obtain ⟨a', ha', hgraded', hkey⟩ := h a ha hgraded
  exact List.mem_dedup.mpr (mem_sampleKeys.mpr ⟨a', ha', hgraded', (exercise_of_key hkey).trans hexercise, hkey⟩)

theorem stats_computeExerciseStats (rows : List UserAttempt) (c : Computed) (key : ExerciseKey) :
    (computeExerciseStats rows c).stats key = if groupOf key rows = [] then c.stats key else some (statOf (groupOf key rows)) := by
  have hfold : ∀ (keys : List ExerciseKey) (stats : ExerciseKey → Option ExerciseStat),
      keys.foldl (fun stats key => Function.update stats key (some (statOf (groupOf key rows)))) stats key =
        if key ∈ keys then some (statOf (groupOf key rows)) else stats key := by
    intro keys
    induction keys with
    | nil => exact fun stats => rfl
    | cons first keys ih =>
      intro stats
      rw [List.foldl_cons, ih]
      by_cases hmem : key ∈ keys
      · rw [if_pos hmem, if_pos (List.mem_cons_of_mem _ hmem)]
      · rw [if_neg hmem]
        by_cases hfirst : key = first
        · subst hfirst
          rw [Function.update_self, if_pos List.mem_cons_self]
        · rw [Function.update_of_ne hfirst, if_neg fun h => (List.mem_cons.mp h).elim hfirst hmem]
  have hempty : groupOf key rows = [] ↔ key ∉ (rows.map (·.exercise)).dedup := by
    rw [List.mem_dedup, List.mem_map, groupOf, List.filter_eq_nil_iff]
    exact ⟨fun h ⟨a, ha, hk⟩ => h a ha (decide_eq_true hk), fun h a ha hk => h ⟨a, ha, of_decide_eq_true hk⟩⟩
  rw [computeExerciseStats]
  dsimp only
  rw [hfold]
  by_cases hkey : key ∈ (rows.map (·.exercise)).dedup
  · rw [if_pos hkey, if_neg fun h => hempty.mp h hkey]
  · rw [if_neg hkey, if_pos (hempty.mpr hkey)]

theorem computeExerciseStats_nil (c : Computed) (h : ∀ key, c.difficultyEmpirical key = (c.stats key).bind ExerciseStat.difficulty?) :
    computeExerciseStats [] c = c := by
  have hdifficulty : (fun key => ((c.stats key).bind ExerciseStat.difficulty?).or (c.difficultyEmpirical key)) =
      c.difficultyEmpirical := funext fun key => by rw [h key, Option.or_self]
  exact congrArg (Computed.mk c.stats) hdifficulty

end Writes

/-! ## StatsReachable states -/

/-- Attempts are recorded and graded, and the job runs. -/
inductive StatsReachable : List UserAttempt → Computed → Prop
  | start (attempts : List UserAttempt) : StatsReachable attempts .empty
  | record {attempts attempts' : List UserAttempt} {c : Computed} (h : StatsReachable attempts c) (hkeep : Keeps attempts attempts') :
      StatsReachable attempts' c
  | compute {attempts : List UserAttempt} {c c' : Computed} (h : StatsReachable attempts c) (hrun : Computes attempts c c') :
      StatsReachable attempts c'

/-- Every statistic counts attempts that are there, and every difficulty is that of its statistic. -/
structure Sound (attempts : List UserAttempt) (c : Computed) : Prop where
  counts : ∀ key s, c.stats key = some s → s.correctCount ≤ s.attemptsCount ∧ 0 < s.attemptsCount ∧
    s.attemptsCount ≤ sampleSize attempts key
  difficulty : ∀ key, c.difficultyEmpirical key = (c.stats key).bind ExerciseStat.difficulty?

section Sound

variable {attempts attempts' : List UserAttempt} {c c' : Computed}

theorem statOf_counts (group : List UserAttempt) : (statOf group).correctCount ≤ (statOf group).attemptsCount :=
  List.length_filter_le _ _

/-- Below the minimum there is no difficulty. -/
theorem difficulty?_of_lt {s : ExerciseStat} (h : (s.attemptsCount : Int) < minEmpiricalN) : s.difficulty? = none :=
  if_neg (not_le.mpr h)

theorem difficulty?_statOf {group : List UserAttempt} (h : (statOf group).difficulty? = none) :
    ((statOf group).attemptsCount : Int) < minEmpiricalN := by
  by_contra hge
  rw [ExerciseStat.difficulty?, if_pos (not_lt.mp hge)] at h
  have hrate := Option.map_eq_none_iff.mp h
  unfold statOf solveRateOf at hrate hge
  dsimp only at hrate hge
  split at hrate
  · rename_i hzero
    rw [hzero] at hge
    exact hge (by decide)
  · cases hrate

theorem Sound.record (h : Sound attempts c) (hkeep : Keeps attempts attempts') : Sound attempts' c := by
  refine ⟨fun key s hs => ?_, h.difficulty⟩
  obtain ⟨hcorrect, hpos, hsize⟩ := h.counts key s hs
  exact ⟨hcorrect, hpos, hsize.trans (sampleSize_mono hkeep key)⟩

theorem Sound.compute (h : Sound attempts c) (hrun : Computes attempts c c') : Sound attempts c' := by
  obtain ⟨rows, hrows, rfl⟩ := hrun
  have hstats := stats_computeExerciseStats rows c
  constructor
  · intro key s hs
    rw [hstats] at hs
    split at hs
    · exact h.counts key s hs
    · rename_i hne
      obtain rfl := Option.some.inj hs
      exact ⟨statOf_counts _, List.length_pos_iff.mpr hne, (hrows.length_groupOf key).le⟩
  · intro key
    change (((computeExerciseStats rows c).stats key).bind ExerciseStat.difficulty?).or (c.difficultyEmpirical key) = _
    rw [h.difficulty key, hstats]
    split
    · exact Option.or_self
    · cases hdifficulty : (statOf (groupOf key rows)).difficulty? with
      | some d => rw [Option.bind_some, hdifficulty, Option.some_or]
      | none =>
        -- the statistic there was counted no more attempts
        rw [Option.bind_some, hdifficulty, Option.none_or]
        cases hold : c.stats key with
        | none => rfl
        | some s =>
          have hsize := (h.counts key s hold).2.2
          rw [← hrows.length_groupOf key] at hsize
          have hlt := difficulty?_statOf hdifficulty
          exact difficulty?_of_lt (lt_of_le_of_lt (Int.ofNat_le.mpr hsize) hlt)

theorem StatsReachable.sound (h : StatsReachable attempts c) : Sound attempts c := by
  induction h with
  | start attempts => exact ⟨fun key s hs => (Option.some_ne_none s hs.symm).elim, fun key => rfl⟩
  | record h hkeep ih => exact ih.record hkeep
  | compute h hrun ih => exact ih.compute hrun

/-- **An exercise below the minimum is left as it is.** -/
theorem Sound.untouched (h : Sound attempts c) (hrun : Computes attempts c c') {key : ExerciseKey}
    (hsize : (sampleSize attempts key : Int) < minEmpiricalN) : c'.difficultyEmpirical key = c.difficultyEmpirical key := by
  have hnone : ∀ {c : Computed}, Sound attempts c → c.difficultyEmpirical key = none := by
    intro c hc
    rw [hc.difficulty]
    cases hstat : c.stats key with
    | none => rfl
    | some s => exact difficulty?_of_lt (lt_of_le_of_lt (Int.ofNat_le.mpr (hc.counts key s hstat).2.2) hsize)
  rw [hnone h, hnone (h.compute hrun)]

theorem Sound.difficulty_eq (h : Sound attempts c) {key : ExerciseKey} {d : Rat} (hd : c.difficultyEmpirical key = some d) :
    ∃ s q, c.stats key = some s ∧ s.solveRate = some q ∧ d = difficultyOf q := by
  rw [h.difficulty] at hd
  obtain ⟨s, hs, hdifficulty⟩ := Option.bind_eq_some_iff.mp hd
  unfold ExerciseStat.difficulty? at hdifficulty
  split at hdifficulty
  · obtain ⟨q, hq, rfl⟩ := Option.map_eq_some_iff.mp hdifficulty
    exact ⟨s, q, hs, hq, rfl⟩
  · cases hdifficulty

end Sound

/-! ## The law -/

/-- What holds of the statistics: no more correct attempts than there are; difficulties between one and ten, the harder
the lower the solve rate; and a run of the job leaves the exercises below the minimum alone. -/
structure StatsLaw (attempts : List UserAttempt) (c : Computed) : Prop where
  correct_le : ∀ key s, c.stats key = some s → s.correctCount ≤ s.attemptsCount
  bounded : ∀ key d, c.difficultyEmpirical key = some d → 1 ≤ d ∧ d ≤ 10
  antitone : ∀ key key' s s' q q' d d', c.stats key = some s → c.stats key' = some s' → s.solveRate = some q →
    s'.solveRate = some q' → c.difficultyEmpirical key = some d → c.difficultyEmpirical key' = some d' → q ≤ q' → d' ≤ d
  untouched : ∀ c', Computes attempts c c' → ∀ key, (sampleSize attempts key : Int) < minEmpiricalN →
    c'.difficultyEmpirical key = c.difficultyEmpirical key

theorem Sound.statsLaw {attempts : List UserAttempt} {c : Computed} (h : Sound attempts c) : StatsLaw attempts c := by
  refine ⟨fun key s hs => (h.counts key s hs).1, fun key d hd => ?_, ?_, fun c' hrun key hsize => h.untouched hrun hsize⟩
  · obtain ⟨s, q, -, -, rfl⟩ := h.difficulty_eq hd
    exact difficultyOf_mem q
  · intro key key' s s' q q' d d' hs hs' hq hq' hd hd' hle
    obtain ⟨t, p, ht, hp, rfl⟩ := h.difficulty_eq hd
    obtain ⟨t', p', ht', hp', rfl⟩ := h.difficulty_eq hd'
    cases hs.symm.trans ht
    cases hs'.symm.trans ht'
    cases hq.symm.trans hp
    cases hq'.symm.trans hp'
    exact difficultyOf_antitone hle

/-- **The statistics count first graded attempts.**  Graded rows created after a graded one of their key change nothing
that the job can write; and the law holds in every reachable state. -/
theorem percentiles_firstGraded :
    (∀ attempts duplicates attempts' : List UserAttempt, (attempts ++ duplicates).Perm attempts' →
      (∀ a ∈ duplicates, LateDuplicate attempts a) →
        ∀ before after, Computes attempts before after ↔ Computes attempts' before after) ∧
    ∀ attempts c, StatsReachable attempts c → StatsLaw attempts c :=
  ⟨fun _ _ _ => computes_iff_of_late, fun _ _ h => h.sound.statsLaw⟩

/-! A user skips an exercise, and then answers it. -/

def firstSkip : UserAttempt where
  id := 1
  userId := 1
  exerciseId := 1
  exerciseVersion := 1
  sessionDate := 20000
  answer := "\x7b\x7d"
  gradingMode := "deterministic"
  status := .skipped
  isCorrect := none
  timeTakenMs := some 900
  createdAt := 10
  gradedAt := none

def thenAnswer : UserAttempt := { firstSkip with id := 2, status := .graded, isCorrect := some true, createdAt := 20 }

/-- The key is present, and the later row is counted: the one before was not graded. -/
theorem percentiles_count_afterSkip :
    ¬ ∀ attempts duplicates attempts' : List UserAttempt, (attempts ++ duplicates).Perm attempts' →
      (∀ a ∈ duplicates, a.status = .graded ∧ ∃ a' ∈ attempts, a'.key = a.key ∧ a'.createdAt < a.createdAt) →
        ∀ before after, Computes attempts before after ↔ Computes attempts' before after := by
  intro hall
  have hiff := hall [firstSkip] [thenAnswer] [firstSkip, thenAnswer] (.refl _) (by
    intro a ha
    rw [List.mem_singleton.mp ha]
    exact ⟨rfl, firstSkip, List.mem_singleton_self _, rfl, by decide⟩) .empty .empty
  have hbefore : Computes [firstSkip] .empty .empty := by
    refine ⟨[], .of_none fun a ha hgraded => ?_, (computeExerciseStats_nil _ fun _ => rfl).symm⟩
    rw [List.mem_singleton.mp ha] at hgraded
    cases hgraded
  obtain ⟨rows, hrows, hempty⟩ := hiff.mp hbefore
  obtain ⟨row, hrow, hkey⟩ := hrows.covers thenAnswer (List.mem_cons_of_mem _ List.mem_cons_self) rfl
  have hstat := stats_computeExerciseStats rows .empty thenAnswer.exercise
  rw [← hempty, if_neg (List.ne_nil_of_mem (mem_groupOf.mpr ⟨hrow, exercise_of_key hkey⟩))] at hstat
  cases hstat

/-- What the job writes of one answer. -/
def answeredOnce : Computed := computeExerciseStats (dedup [thenAnswer]) .empty

theorem percentiles_firstGraded_replay :
    (Computes [thenAnswer] .empty answeredOnce ↔
      Computes [{ thenAnswer with id := 3, createdAt := 30 }, thenAnswer] .empty answeredOnce) ∧
    StatsLaw [thenAnswer] answeredOnce := by
  have hrun : Computes [thenAnswer] .empty answeredOnce := ⟨_, deduped_dedup _, by rw [answeredOnce]⟩
  refine ⟨percentiles_firstGraded.1 [thenAnswer] [{ thenAnswer with id := 3, createdAt := 30 }] _ (.swap _ _ _) ?_ _ _,
    percentiles_firstGraded.2 _ _ ((StatsReachable.start _).compute hrun)⟩
  intro a ha
  rw [List.mem_singleton.mp ha]
  exact ⟨rfl, thenAnswer, List.mem_singleton_self _, rfl, rfl, by decide⟩

end CodeReader.Jobs
