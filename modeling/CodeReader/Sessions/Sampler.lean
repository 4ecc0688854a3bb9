import CodeReader.Attempts.Service
import CodeReader.Exercises.Service
import Mathlib.Data.List.Sort

/-!
# The session sampler

Due concepts, then curriculum fill, then one boss slot.

* `SessionSlot`, `Candidate` — a slot of a session, and an exercise that may become one;
* `buildSessionSlots` — the selection;
* `mem_buildSessionSlots` — every slot is a candidate.

Difficulties are in hundredths, as the column has them; the code compares them as floats.
-/

namespace CodeReader.Sessions

/-- `SessionSlot`, with its number and whether it is the boss. -/
structure SessionSlot extends CodeReader.SessionSlot where
  slot : Int
  isBoss : Bool
  deriving DecidableEq

/-- `CandidateExercise`, as far as the selection reads it. -/
structure Candidate where
  id : ExerciseId
  version : Int
  concepts : Concepts
  difficulty : Int
  deriving DecidableEq

/-- In what order the database gives rows without `ORDER BY`, or with equal keys. -/
structure RowOrder (α : Type) where
  order : List α → List α
  perm : ∀ l, (order l).Perm l

/-! ## Settings of the selection -/

def deterministicTypes : List String := ["spot_the_bug", "trace", "predict_the_fix"]

def allCandidateTypes : List String := deterministicTypes ++ ["summarize"]

/-- `LEVEL_DIFFICULTY.get(level, 5)`. -/
def levelDifficulty : String → Int
  | "junior" => 300
  | "senior" => 700
  | _ => 500

/-- `LEVEL_BANDS.get(level, DEFAULT_LEVEL_BAND)`. -/
def levelBand : String → Int × Int
  | "junior" => (100, 500)
  | "senior" => (500, 1000)
  | _ => (300, 800)

/-- The boss slot may exceed the band's top by this margin. -/
def bossBandMargin : Int := 200
def minSlots : Nat := 3
def maxNonBossSlots : Nat := 4
def bossDifficultyFloor : Int := 700
def minEmpiricalN : Int := 30

/-! ## The selection -/

/-- What the selection reads besides the candidates. -/
structure Sampling where
  dueConcepts : List String
  conceptMastery : String → Int
  recentlySeen : ExerciseId → Bool
  levelDifficulty : Int
  levelBand : Int × Int
  /-- In what order Python lists a set of names. -/
  setOrder : RowOrder String

section Selection

variable (S : Sampling) (candidates : List Candidate)

/-- `sorted`, by the distance from the target. -/
def closestByDifficulty (candidates : List Candidate) (target : Int) : List Candidate :=
  candidates.insertionSort fun a b => (a.difficulty - target).natAbs ≤ (b.difficulty - target).natAbs

def inBand (c : Candidate) : Bool := decide (S.levelBand.1 ≤ c.difficulty ∧ c.difficulty ≤ S.levelBand.2)

/-- The first that is not used, rather one that was not seen lately. -/
def pick (used : List ExerciseId) (pool : List Candidate) : Option Candidate :=
  let available := pool.filter fun c => !used.contains c.id
  (available.find? fun c => !S.recentlySeen c.id).or available.head?

/-- Due concepts first. -/
def pickDue : List String → List Candidate → List Candidate
  | [], selected => selected
  | concept :: due, selected =>
    if maxNonBossSlots ≤ selected.length then selected
    else
      let pool := closestByDifficulty (candidates.filter fun c => c.concepts.1.contains concept && inBand S c)
        S.levelDifficulty
      match pick S (selected.map (·.id)) pool with
      | some chosen => pickDue due (selected ++ [chosen])
      | none => pickDue due selected

/-- Curriculum fill, of the concept of the weakest mastery first; at most so many turns. -/
def fill : Nat → List Candidate → List Candidate
  | 0, selected => selected
  | turns + 1, selected =>
    let banded := candidates.filter fun c => !(selected.map (·.id)).contains c.id && inBand S c
    let concepts := (S.setOrder.order (banded.flatMap (·.concepts.1)).dedup).insertionSort
      fun a b => S.conceptMastery a ≤ S.conceptMastery b
    match concepts with
    | [] => selected
    | weakest :: _ =>
      match pick S (selected.map (·.id)) (closestByDifficulty (banded.filter (·.concepts.1.contains weakest))
        S.levelDifficulty) with
      | some chosen => fill turns (selected ++ [chosen])
      | none => selected

/-- The boss: above the level, not above the band by more than the margin; closest to that when there are too few. -/
def pickBoss (selected : List Candidate) : Option Candidate :=
  let used := selected.map (·.id)
  let bossMax := min 1000 (S.levelBand.2 + bossBandMargin)
  let bossTarget := min bossMax (max bossDifficultyFloor (S.levelDifficulty + 200))
  let eligible := (candidates.filter fun c =>
    !used.contains c.id && decide (S.levelBand.1 ≤ c.difficulty ∧ c.difficulty ≤ bossMax)).insertionSort
      fun a b => b.difficulty ≤ a.difficulty
  let boss := (pick S used (eligible.filter fun c => decide (bossTarget ≤ c.difficulty))).or (pick S used eligible)
  if boss = none ∧ selected.length < minSlots then
    pick S used (closestByDifficulty (candidates.filter fun c => !used.contains c.id) bossMax)
  else boss

/-- Up to the floor, whatever the difficulty; at most so many turns. -/
def pad (boss : Option Candidate) : Nat → List Candidate → List Candidate
  | 0, selected => selected
  | turns + 1, selected =>
    if minSlots ≤ selected.length + boss.toList.length then selected
    else
      let used := selected.map (·.id) ++ boss.toList.map (·.id)
      match pick S used (closestByDifficulty (candidates.filter fun c => !used.contains c.id) S.levelDifficulty) with
      | some chosen => pad boss turns (selected ++ [chosen])
      | none => selected

/-- A candidate as a slot. -/
def Candidate.toSlot (c : Candidate) (slot : Int) (isBoss : Bool) : SessionSlot := ⟨⟨c.id, c.version⟩, slot, isBoss⟩

def buildSessionSlots : List SessionSlot :=
  let selected := pickDue S candidates S.dueConcepts []
  let selected := fill S candidates (maxNonBossSlots - selected.length) selected
  let boss := pickBoss S candidates selected
  let selected := pad S candidates boss minSlots selected
  (selected.zipIdx.map fun p => p.1.toSlot (p.2 + 1) false) ++
    boss.toList.map fun c => c.toSlot (selected.length + 1) true

/-! ## Slots are candidates -/

variable {S candidates}

theorem mem_of_pick {used : List ExerciseId} {pool : List Candidate} {c : Candidate} (h : pick S used pool = some c) :
    c ∈ pool := by
  unfold pick at h
  rcases Option.or_eq_some_iff.mp h with h | ⟨-, h⟩
  · exact List.mem_of_mem_filter (List.mem_of_find?_eq_some h)
  · exact List.mem_of_mem_filter (List.mem_of_mem_head? h)

theorem mem_closestByDifficulty {l : List Candidate} {target : Int} {c : Candidate} :
    c ∈ closestByDifficulty l target ↔ c ∈ l := (List.perm_insertionSort _ l).mem_iff

theorem mem_append_chosen {selected : List Candidate} {chosen : Candidate} (h : ∀ c ∈ selected, c ∈ candidates)
    (hc : chosen ∈ candidates) : ∀ c ∈ selected ++ [chosen], c ∈ candidates := by
  intro c hmem
  rcases List.mem_append.mp hmem with hmem | hmem
  · exact h c hmem
  · rw [List.mem_singleton.mp hmem]
    exact hc

theorem mem_pickDue (due : List String) {selected : List Candidate} (h : ∀ c ∈ selected, c ∈ candidates) :
    ∀ c ∈ pickDue S candidates due selected, c ∈ candidates := by
  induction due generalizing selected with
  | nil => exact h
  | cons concept due ih =>
    unfold pickDue
    dsimp only
    split
    · exact h
    · split
      · rename_i hpick
        exact ih (mem_append_chosen h (List.mem_of_mem_filter (mem_closestByDifficulty.mp (mem_of_pick hpick))))
      · exact ih h

theorem mem_fill (turns : Nat) {selected : List Candidate} (h : ∀ c ∈ selected, c ∈ candidates) :
    ∀ c ∈ fill S candidates turns selected, c ∈ candidates := by
  induction turns generalizing selected with
  | zero => exact h
  | succ turns ih =>
    unfold fill
    dsimp only
    split
    · exact h
    · split
      · rename_i hpick
        have hbanded := List.mem_of_mem_filter (mem_closestByDifficulty.mp (mem_of_pick hpick))
        exact ih (mem_append_chosen h (List.mem_of_mem_filter hbanded))
      · exact h

theorem mem_pickBoss {selected : List Candidate} {boss : Candidate} (h : pickBoss S candidates selected = some boss) :
    boss ∈ candidates := by
  unfold pickBoss at h
  dsimp only at h
  split at h
  · exact List.mem_of_mem_filter (mem_closestByDifficulty.mp (mem_of_pick h))
  · have hsorted : ∀ {l : List Candidate}, boss ∈ l.insertionSort (fun a b => b.difficulty ≤ a.difficulty) → boss ∈ l :=
      fun hb => (List.perm_insertionSort _ _).mem_iff.mp hb
    rcases Option.or_eq_some_iff.mp h with h | ⟨-, h⟩
    · exact List.mem_of_mem_filter (hsorted (List.mem_of_mem_filter (mem_of_pick h)))
    · exact List.mem_of_mem_filter (hsorted (mem_of_pick h))

theorem mem_pad (boss : Option Candidate) (turns : Nat) {selected : List Candidate}
    (h : ∀ c ∈ selected, c ∈ candidates) : ∀ c ∈ pad S candidates boss turns selected, c ∈ candidates := by
  induction turns generalizing selected with
  | zero => exact h
  | succ turns ih =>
    unfold pad
    dsimp only
    split
    · exact h
    · split
      · rename_i hpick
        exact ih (mem_append_chosen h (List.mem_of_mem_filter (mem_closestByDifficulty.mp (mem_of_pick hpick))))
      · exact h

/-- **Every slot is a candidate.** -/
theorem mem_buildSessionSlots {s : SessionSlot} (h : s ∈ buildSessionSlots S candidates) :
    ∃ c ∈ candidates, s.exerciseId = c.id ∧ s.version = c.version := by
  unfold buildSessionSlots at h
  dsimp only at h
  rcases List.mem_append.mp h with h | h
  · obtain ⟨⟨c, i⟩, hc, rfl⟩ := List.mem_map.mp h
    have hmem := mem_pad (S := S) (pickBoss S candidates _) minSlots
      (mem_fill (S := S) (maxNonBossSlots - _) (mem_pickDue (S := S) S.dueConcepts fun c hc => absurd hc List.not_mem_nil)) c
      (List.fst_mem_of_mem_zipIdx hc)
    exact ⟨c, hmem, rfl, rfl⟩
  · obtain ⟨boss, hboss, rfl⟩ := List.mem_map.mp h
    exact ⟨boss, mem_pickBoss (Option.mem_toList.mp hboss), rfl, rfl⟩

end Selection

end CodeReader.Sessions
