import CodeReader.Email.Dispatch
import CodeReader.Grading.Serial

/-!
# The weekly recap

What a user did in a week, from the tables, and what the message says of it.

* `buildWeeklyRecap`, `recapLines`, `buildRecapEmail` — the numbers, their lines, the message;
* `Outcome` — the outcomes that the numbers tell apart;
* `reconciles_iff` — **when the numbers add up**: each row has a verdict exactly if it is graded or a failed grading;
* `reconciles_of_run` — for the rows that submissions and the grading job leave: as long as no grading has failed.
-/

namespace CodeReader.Email

open Grading

/-- `MAX_CONCEPTS`. -/
def maxConcepts : Nat := 4

structure WeeklyRecap where
  weekStart : Int
  weekEnd : Int
  sessionsCompleted : Nat
  exercisesAttempted : Nat
  correct : Nat
  graded : Nat
  concepts : List String
  currentStreak : Int
  longestStreak : Int
  skipped : Nat := 0
  pending : Nat := 0

namespace WeeklyRecap

/-- `None` when nothing resolved; a half is rounded to the even number. -/
def accuracyPct (r : WeeklyRecap) : Option Int :=
  if r.graded = 0 then none else some (quantize (100 * r.correct) r.graded)

def isEmpty (r : WeeklyRecap) : Bool := r.exercisesAttempted == 0

end WeeklyRecap

/-! ## The numbers -/

/-- The attempts of the week. -/
def weekAttempts (rows : UserRows) (weekStart weekEnd : Int) : List Attempt :=
  rows.attempts.filter fun a => decide (weekStart ≤ a.sessionDate ∧ a.sessionDate ≤ weekEnd)

/-- By frequency, then by name. -/
def moreOften (a b : String × Nat) : Bool := decide (b.2 < a.2) || (a.2 == b.2 && decide (a.1 ≤ b.1))

/-- The concepts that were met most, of all that were met. -/
def topConcepts (hits : List String) : List String :=
  (((hits.dedup.map fun concept => (concept, hits.count concept)).mergeSort moreOften).map (·.1)).take maxConcepts

def buildWeeklyRecap (cat : Catalog) (rows : UserRows) (weekStart weekEnd : Int) : WeeklyRecap :=
  let attempts := weekAttempts rows weekStart weekEnd
  { weekStart
    weekEnd
    sessionsCompleted := rows.sessions.countP fun d =>
      decide (weekStart ≤ d.sessionDate ∧ d.sessionDate ≤ weekEnd) && d.completedAt.isSome
    exercisesAttempted := attempts.length
    graded := attempts.countP (·.isCorrect.isSome)
    correct := attempts.countP (·.isCorrect == some true)
    skipped := attempts.countP (·.status == .skipped)
    pending := attempts.countP (·.status == .gradingPending)
    concepts := topConcepts ((attempts.filter (·.isCorrect == some true)).flatMap (conceptsOf cat))
    currentStreak := (rows.stats.map (·.currentStreak)).getD 0
    longestStreak := (rows.stats.map (·.longestStreak)).getD 0 }

/-! ## The message -/

def recapLines (r : WeeklyRecap) : List String :=
  [s!"Sessions completed: {r.sessionsCompleted}", s!"Exercises read: {r.exercisesAttempted}"] ++
    (match r.accuracyPct with
      | some pct => [s!"Correct: {r.correct} of {r.graded} answered ({pct}%)"]
      | none => []) ++
    (if r.skipped ≠ 0 then
      [s!"Skipped: {r.skipped} " ++ (if r.skipped = 1 then "exercise" else "exercises") ++ " you marked as not knowing"]
    else []) ++
    (if r.pending ≠ 0 then [s!"Still being graded: {r.pending}"] else []) ++
    (if r.concepts ≠ [] then ["Concepts you got right: " ++ ", ".intercalate r.concepts] else []) ++
    (if 0 < r.currentStreak then [s!"Current streak: {r.currentStreak} days"] else [])

def buildRecapEmail (settings : SweepSettings) (toAddress : String) (id : UserId) (r : WeeklyRecap) : OutboundEmail :=
  let link := unsubscribePageUrl settings id .recap
  let span := s!"{isoformat r.weekStart} to {isoformat r.weekEnd}"
  recapEmail settings toAddress id
    { subject := s!"Your week on Reedkode, {span}"
      text := s!"Your week on Reedkode, {span}.\n\n" ++ "\n".intercalate (recapLines r) ++
        s!"\n\n{settings.appOrigin}/profile" ++
        s!"\n\nYou get this because you added your address to Reedkode.\nTurn off the weekly recap: {link}\n"
      html := s!"<p>Your week on Reedkode, {span}.</p><ul>" ++
        String.join ((recapLines r).map fun line => s!"<li>{line}</li>") ++
        s!"</ul><p><a href=\"{settings.appOrigin}/profile\">See the full picture</a></p>" ++
        "<hr><p>You get this because you added your address to Reedkode. " ++
        s!"<a href=\"{link}\">Turn off the weekly recap</a>.</p>" }

/-! ## Outcomes -/

/-- The outcomes with a number of their own. -/
inductive Outcome
  | graded | skipped | pending
  deriving DecidableEq

/-- The attempt is counted under the outcome. -/
def Outcome.counts : Outcome → Attempt → Bool
  | graded, a => a.isCorrect.isSome
  | skipped, a => a.status == .skipped
  | pending, a => a.status == .gradingPending

def Outcome.all : List Outcome := [graded, skipped, pending]

/-- The numbers of the week add up: the attempted ones are the graded, the skipped and the pending ones, no more are
correct than graded, and each attempt is counted under one outcome. -/
structure Reconciles (cat : Catalog) (rows : UserRows) (weekStart weekEnd : Int) : Prop where
  sum : (buildWeeklyRecap cat rows weekStart weekEnd).exercisesAttempted =
    (buildWeeklyRecap cat rows weekStart weekEnd).graded + (buildWeeklyRecap cat rows weekStart weekEnd).skipped +
      (buildWeeklyRecap cat rows weekStart weekEnd).pending
  correct : (buildWeeklyRecap cat rows weekStart weekEnd).correct ≤ (buildWeeklyRecap cat rows weekStart weekEnd).graded
  once : ∀ a ∈ weekAttempts rows weekStart weekEnd, Outcome.all.countP (·.counts a) = 1

/-- A verdict is there for a graded attempt and a failed grading, and not for the others. -/
def VerdictFits (a : Attempt) : Prop := a.isCorrect.isSome = (a.status == .graded || a.status == .gradingFailed)

theorem counted_once_iff (a : Attempt) : Outcome.all.countP (·.counts a) = 1 ↔ VerdictFits a := by
  rcases a with ⟨_, _, _, _, _, _, status, isCorrect, _, _, _⟩
  cases isCorrect with
  | none => cases status <;> simp [Outcome.all, Outcome.counts, VerdictFits]
  | some verdict => cases status <;> simp [Outcome.all, Outcome.counts, VerdictFits]

/-- Counted once each, the attempts are as many as the outcomes count. -/
theorem length_of_counted_once {attempts : List Attempt}
    (h : ∀ a ∈ attempts, Outcome.all.countP (·.counts a) = 1) :
    attempts.length = attempts.countP (Outcome.graded.counts ·) + attempts.countP (Outcome.skipped.counts ·) +
      attempts.countP (Outcome.pending.counts ·) := by
  induction attempts with
  | nil => rfl
  | cons a attempts ih =>
    have hrest := ih fun b hb => h b (List.mem_cons_of_mem a hb)
    have hone := h a List.mem_cons_self
    simp only [Outcome.all, List.countP_cons, List.countP_nil] at hone
    simp only [List.length_cons, List.countP_cons]
    omega

theorem correct_le_graded (attempts : List Attempt) :
    attempts.countP (·.isCorrect == some true) ≤ attempts.countP (·.isCorrect.isSome) := by
  refine List.countP_mono_left fun a _ ha => ?_
  rw [beq_iff_eq.mp ha]
  rfl

/-- **When the numbers reconcile**: in the weeks in which each attempt has a verdict exactly if it is graded or its
grading has failed. -/
theorem reconciles_iff (cat : Catalog) (rows : UserRows) (weekStart weekEnd : Int) :
    Reconciles cat rows weekStart weekEnd ↔ ∀ a ∈ weekAttempts rows weekStart weekEnd, VerdictFits a := by
  constructor
  · exact fun h a ha => (counted_once_iff a).mp (h.once a ha)
  · intro h
    have honce : ∀ a ∈ weekAttempts rows weekStart weekEnd, Outcome.all.countP (·.counts a) = 1 :=
      fun a ha => (counted_once_iff a).mpr (h a ha)
    exact ⟨length_of_counted_once honce, correct_le_graded _, honce⟩

/-- Of rows with a verdict exactly when they are graded: as long as none of the week is a failed grading. -/
theorem reconciles_iff_of_verdict {cat : Catalog} {rows : UserRows} {weekStart weekEnd : Int}
    (h : ∀ a ∈ rows.attempts, a.isCorrect.isSome = (a.status == .graded)) :
    Reconciles cat rows weekStart weekEnd ↔
      ∀ a ∈ weekAttempts rows weekStart weekEnd, a.status ≠ .gradingFailed := by
  rw [reconciles_iff]
  refine forall₂_congr fun a ha => ?_
  rw [VerdictFits, h a (List.mem_filter.mp ha).1]
  cases a.status <;> decide

/-- In every serial run of submissions and of the grading job the numbers of a week reconcile exactly as long as none of
its gradings has failed. -/
theorem reconciles_of_run {D : Deployment} {cat : Catalog} {timezone : String} {calls : List GradingCall}
    {rows : GradingRows} (h : GradingRun D cat (.created timezone) calls rows) (weekStart weekEnd : Int) :
    Reconciles cat rows.user weekStart weekEnd ↔
      ∀ a ∈ weekAttempts rows.user weekStart weekEnd, a.status ≠ .gradingFailed :=
  reconciles_iff_of_verdict (h.counted .created List.nodup_nil).1.verdict

/-- A correct answer, and a rubric that cannot be graded, on one day. -/
def oneFailed : GradingRows :=
  [smallSubmit 1 (.deterministic true), smallSubmit 2 .rubricInvalid].foldl
    (fun rows c => c.after (Deployment.small fun _ => 0) smallCatalog rows) (.created "UTC")

/-- Two exercises read, one answered, none skipped and none pending. -/
theorem recap_misses_failed :
    let r := buildWeeklyRecap smallCatalog oneFailed.user (-3) 3
    r.exercisesAttempted = 2 ∧ r.graded = 1 ∧ r.skipped = 0 ∧ r.pending = 0 ∧
      recapLines r = ["Sessions completed: 0", "Exercises read: 2", "Correct: 1 of 1 answered (100%)",
        "Concepts you got right: loops", "Current streak: 1 days"] ∧
      ¬ Reconciles smallCatalog oneFailed.user (-3) 3 := by
  intro r
  refine ⟨by decide +kernel, by decide +kernel, by decide +kernel, by decide +kernel, by decide +kernel, fun h => ?_⟩
  have hsum : r.exercisesAttempted = r.graded + r.skipped + r.pending := h.sum
  revert hsum
  decide +kernel

end CodeReader.Email
