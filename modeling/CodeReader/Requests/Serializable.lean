import CodeReader.Requests.Handlers

/-!
# Submissions and repairs, and their serial order

A submission holds the lock of its day, a repair the lock of repairs: neither waits for the other, and both compute
the streak from what they have read.  When nothing is committed in between the run is serial; when something is, an
update is lost.

* `streakView`, `Serializable` — the streak with the values of the ledger, and that some serial order leaves it;
* `streak_serializable` — **the result**: the order of the commits, when every commit is of current reads;
* `streak_overwritten` — a submission that overwrites a repair.
-/

namespace CodeReader

open Txn Prog

variable {τ : Type}

/-- The current and the longest streak, and the values of the ledger. -/
def streakView (rows : UserRows) : Option (Int × Int) × List (Int × Int) :=
  (rows.stats.map fun st => (st.currentStreak, st.longestStreak), rows.events.map fun e => (e.fromValue, e.toValue))

/-- Some order of the requests that committed, their transactions run one after another, leaves the streak as it is. -/
def Serializable (D : Deployment) (req : τ → Request) (rows₀ : UserRows) (S : Shared App τ) : Prop :=
  ∃ order : List τ, order.Perm S.commits ∧
    streakView S.db = streakView (serial (fun i => (req i).alone D) order rows₀)

instance : DecidablePred StreakTable := fun t => inferInstanceAs (Decidable (t = .userStats ∨ t = .streakEvents))

/-- A commit of current reads: nothing was committed since the transaction read the stats or the ledger. -/
abbrev currentReads : τ → Local App → Shared App τ → Prop := fun _ l S => l.Valid StreakTable S

instance (l : Local App) (S : Shared App τ) : Decidable (l.Valid StreakTable S) :=
  inferInstanceAs (Decidable (∀ r ∈ l.reads, StreakTable r.tbl → r.since = S.commits.length))

/-- When every commit is of current reads, the rows are those of the requests run in the order of their commits. -/
theorem requests_serial [DecidableEq τ] {D : Deployment} {actorHash : String} {req : τ → Request} {rows : UserRows}
    {kv : Redis} {A : τ → Local App → Shared App τ → Prop} (hA : ∀ i l S, A i l S → l.Valid StreakTable S)
    {s : Sys App τ Body} (h : Reach Expiry A (Requests.start D actorHash req rows kv) s) :
    s.shared.commits.Nodup ∧ s.shared.db = serial (fun i => (req i).alone D) s.shared.commits rows := by
  refine Reach.serial (Requests.rules D actorHash req rows kv) rfl (fun i l S S' hl hG => ?_)
    (fun i a l S S' ha hG => hG.other ha) h
  obtain ⟨hi, hc, -, hdb⟩ := hG.commit rfl
  exact ⟨hi, hc, hdb (hA i l S hl)⟩

/-- **Submissions and repairs are serializable** in every run, of any number of them over any rows, in which each
commit is of current reads: nothing was committed since its transaction read the stats or the ledger. -/
theorem streak_serializable [DecidableEq τ] {D : Deployment} {actorHash : String} {req : τ → Request}
    {rows : UserRows} {kv : Redis} {s : Sys App τ Body}
    (h : Reach Expiry currentReads (Requests.start D actorHash req rows kv) s) :
    s.shared.commits.Nodup ∧ Serializable D req rows s.shared := by
  obtain ⟨hnodup, hdb⟩ := requests_serial (fun _ _ _ hl => hl) h
  exact ⟨hnodup, s.shared.commits, .refl _, congrArg streakView hdb⟩

/-! ### A submission and a repair -/

/-- Two days, a gap that the freezes do not cover, and the submission that resets the streak. -/
def lostStreak : List Call :=
  [.smallSubmit 1 0, .smallSubmit 2 microsPerDay, .smallSubmit 3 (5 * microsPerDay)]

def lostStreakRows : UserRows := lostStreak.foldl (fun rows c => c.after (.small fun _ => 0) rows) (.created "UTC")

theorem lostStreak_run : Run (.small fun _ => 0) (fun _ _ => True) (.created "UTC") lostStreak lostStreakRows :=
  Run.of_runnable .nil (fun c hc => by
    simp only [List.mem_cons, List.not_mem_nil, or_false] at hc
    rcases hc with rfl | rfl | rfl <;> exact ⟨Call.small_increasing _ _ _, fun _ => trivial⟩) (by decide +kernel)

/-- On the day after the reset, the next submission and a repair. -/
def afterReset : Bool → Request
  | false => .small 4 4 6 "submit"
  | true => .repair ⟨6 * microsPerDay, fun k => 500 + k, 5⟩ "UTC" (6 * microsPerDay) 0 "repair"

/-- The repair, and then the submission. -/
theorem streak_serializable_afterReset :
    let s := (Requests.small afterReset lostStreakRows).after currentReads
      (List.replicate 13 true ++ List.replicate 17 false)
    s.shared.commits = [true, false] ∧ Serializable (.small fun _ => 0) afterReset lostStreakRows s.shared ∧
      streakView s.shared.db = (some (4, 4), [(0, 1), (1, 2), (2, 1), (1, 3), (3, 4)]) := by
  intro s
  have hreach : Reach Expiry currentReads (Requests.small afterReset lostStreakRows) s :=
    Reach.after (by decide +kernel)
  exact ⟨by decide +kernel, (streak_serializable hreach).2, by decide +kernel⟩

/-- The submission reads the streak, the repair runs, the submission goes on. -/
def overwriting : List Bool := List.replicate 6 false ++ List.replicate 13 true ++ List.replicate 11 false

/-- **A submission overwrites a repair.**  After a reset in a run of a new user, the submission reads the streak, the
repair commits, and the submission commits what it computed from its reads: no serial order leaves these streaks. -/
theorem streak_overwritten : ∃ calls rows, Run (.small fun _ => 0) (fun _ _ => True) (.created "UTC") calls rows ∧
    ∃ s, Reach Expiry anyCommit (Requests.small afterReset rows) s ∧
      (∀ i, ∃ body, s.threads i = .done (.ok body)) ∧
      streakView s.shared.db = (some (2, 3), [(0, 1), (1, 2), (2, 1), (1, 3), (1, 2)]) ∧
      ¬ Serializable (.small fun _ => 0) afterReset rows s.shared := by
  let s := (Requests.small afterReset lostStreakRows).after anyCommit overwriting
  have hdone : ∀ i, (s.threads i).answered.isSome = true := by decide +kernel
  have hcommits : s.shared.commits = [true, false] := by decide +kernel
  have hview : streakView s.shared.db = (some (2, 3), [(0, 1), (1, 2), (2, 1), (1, 3), (1, 2)]) := by decide +kernel
  refine ⟨lostStreak, lostStreakRows, lostStreak_run, s, Reach.after (by decide +kernel), fun i => ?_, hview, ?_⟩
  · obtain ⟨body, hbody⟩ := Option.isSome_iff_exists.mp (hdone i)
    exact ⟨body, Thread.done_of_answered hbody⟩
  · -- in both serial orders the streak gets what the repair restores and the day of the submission
    have hserial : ∀ order : List Bool, order.Perm [true, false] →
        (streakView (serial (fun i => (afterReset i).alone (.small fun _ => 0)) order lostStreakRows)).1 =
          some (4, 4) := by
      intro order hperm
      match order, hperm.length_eq with
      | [true, false], _ => decide +kernel
      | [false, true], _ => decide +kernel
      | [true, true], _ => exact absurd hperm (by decide)
      | [false, false], _ => exact absurd hperm (by decide)
    rintro ⟨order, hperm, hsame⟩
    rw [hcommits] at hperm
    rw [hview] at hsame
    have hlost : (some (2, 3) : Option (Int × Int)) = some (4, 4) := (congrArg Prod.fst hsame).trans (hserial order hperm)
    cases hlost

end CodeReader
