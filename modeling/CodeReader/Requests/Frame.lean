import CodeReader.Attempts.Spec
import CodeReader.Txn.Transaction

/-!
# The statements of the transactions

Between its first read of the streak and its commit a transaction takes locks, reads, and writes the stats, the
ledger and the sessions, never the attempts.

* `Extends`, `Aside` — the writes in between, and those that leave the ledger;
* `attemptBody` — that part of a submission, and `storeAttempt_eq`;
* `within_attemptBody`, `within_repairStreak` — that it is such a part.
-/

namespace CodeReader

open Txn Prog

/-- The write leaves the attempts and appends to the ledger. -/
structure Extends (f : UserRows → UserRows) : Prop where
  attempts : ∀ rows, (f rows).attempts = rows.attempts
  events : ∀ rows, rows.events <+: (f rows).events

/-- The write leaves the attempts and the ledger. -/
structure Aside (f : UserRows → UserRows) : Prop where
  attempts : ∀ rows, (f rows).attempts = rows.attempts
  events : ∀ rows, (f rows).events = rows.events

theorem Aside.extends (f : UserRows → UserRows) (h : Aside f) : Extends f where
  attempts := h.attempts
  events rows := by rw [h.events]

/-- The tables that the streak is computed from. -/
def StreakTable (t : Tbl) : Prop := t = .userStats ∨ t = .streakEvents

/-- The writes that leave the attempts and the ledger are of the kind `K`. -/
structure AsideWrites (K : (UserRows → UserRows) → Prop) : Prop where
  stats : ∀ stats : UserRows → Option UserStats, K fun rows => { rows with stats := stats rows }
  completed : ∀ today now : Int, K fun rows => { rows with
    sessions := rows.sessions.map fun s => if s.sessionDate = today then { s with completedAt := some now } else s }

/-- So are those that append to the ledger. -/
structure Writes (K : (UserRows → UserRows) → Prop) : Prop extends AsideWrites K where
  events : ∀ new : UserRows → List StreakEvent, K fun rows => { rows with events := rows.events ++ new rows }

theorem asideWrites_aside : AsideWrites Aside where
  stats _ := ⟨fun _ => rfl, fun _ => rfl⟩
  completed _ _ := ⟨fun _ => rfl, fun _ => rfl⟩

theorem writes_extends : Writes Extends where
  stats _ := ⟨fun _ => rfl, fun _ => List.prefix_rfl⟩
  completed _ _ := ⟨fun _ => rfl, fun _ => List.prefix_rfl⟩
  events _ := ⟨fun _ => rfl, fun _ => List.prefix_append _ _⟩

variable {K : (UserRows → UserRows) → Prop} {cfg : Settings} {tz : TzDb} {env : SubmitEnv} {tx : Tx}

/-! ## Parts -/

section Aside

variable (hK : AsideWrites K)
include hK

theorem within_flushUserStats (o : StatsObject) : (flushUserStats o).Within K := by
  unfold flushUserStats
  split
  · trivial
  · exact ⟨hK.stats _, trivial⟩

omit hK in
theorem within_getUserStats (held : Option StatsObject) : (getUserStats held).Within K := by
  cases held with
  | none => exact fun _ => trivial
  | some o => trivial

theorem within_getOrCreateUserStats (cfg : Settings) (held : Option StatsObject) :
    (getOrCreateUserStats cfg held).Within K := by
  refine Within.bind (within_getUserStats held) fun o => ?_
  cases o with
  | some o => trivial
  | none =>
    -- the insert waits for the row's lock and looks whether it is taken
    intro taken
    cases taken with
    | true => trivial
    | false => exact ⟨hK.stats _, trivial⟩

theorem within_coveredDates (o : StatsObject) (dates : List Int) : (coveredDates o dates).Within K := by
  unfold coveredDates
  split
  · trivial
  · exact Within.bind (within_flushUserStats hK o) fun _ => fun _ => trivial

theorem within_tryCoverGap (cfg : Settings) (o : StatsObject) (lastActive today : Int) :
    (tryCoverGap cfg o lastActive today).Within K := by
  simp only [tryCoverGap]
  split
  · trivial
  · refine Within.bind (within_coveredDates hK o _) fun p => ?_
    split <;> trivial

theorem within_recordVerdict (cfg : Settings) (type : String) (grade : Grade) :
    (recordVerdict cfg type grade).Within K := by
  unfold recordVerdict
  split
  · refine Within.bind (Within.bind (within_getOrCreateUserStats hK cfg none) fun o => ?_) fun _ => trivial
    exact within_flushUserStats hK _
  · trivial

omit hK in
theorem within_remainingCount (today : Int) (slots : List SessionSlot) :
    (remainingCount today slots).Within K := by
  unfold remainingCount
  split
  · trivial
  · exact fun _ => trivial

theorem within_completeSession (today now remaining : Int) :
    (completeSession today now remaining).Within K := by
  unfold completeSession
  split
  · refine Within.bind within_query fun row => ?_
    split
    · exact ⟨hK.completed _ _, fun _ => trivial⟩
    · trivial
  · trivial

end Aside

section Ledger

variable (hK : Writes K)
include hK

theorem within_insertStreakEvents (tx : Tx) (evs : List NewEvent) :
    (insertStreakEvents tx evs).Within K := by
  intro clash
  cases clash with
  | true => trivial
  | false => exact ⟨hK.events _, trivial⟩

theorem within_recordTransition (cfg : Settings) (tx : Tx) (o : StatsObject) (spent : List NewEvent)
    (event : StreakEventKind) (fromValue toValue today : Int) :
    (recordTransition cfg tx o spent event fromValue toValue today).Within K :=
  Within.bind (within_flushUserStats hK.toAsideWrites _) fun _ =>
    Within.bind (within_insertStreakEvents hK _ _) fun _ => trivial

theorem within_updateStreakAndAttemptCount (cfg : Settings) (tx : Tx) (held : Option StatsObject) (today : Int) :
    (updateStreakAndAttemptCount cfg tx held today).Within K := by
  refine Within.bind (within_getOrCreateUserStats hK.toAsideWrites cfg held) fun o => ?_
  dsimp only
  split
  · exact Within.bind (within_flushUserStats hK.toAsideWrites _) fun _ => trivial
  · split
    · exact within_recordTransition hK ..
    · split
      · exact within_recordTransition hK ..
      · refine Within.bind (within_tryCoverGap hK.toAsideWrites ..) fun p => ?_
        split <;> exact within_recordTransition hK ..

end Ledger

/-! ## The submission -/

/-- A submission between the insert of its attempt and its commit. -/
def attemptBody (cfg : Settings) (env : SubmitEnv) (tx : Tx) (type : String) (grade : Grade) :
    Handler (Option StreakInfo × Int × Bool) := do
  let held ← recordVerdict cfg type grade
  let streak ← updateStreakAndAttemptCount cfg tx held env.today
  let remaining ← remainingCount env.today env.slots
  let first ← completeSession env.today env.now remaining
  ret (streak, remaining, first)

/-- The response, from what the submission computed. -/
def attemptResponse (env : SubmitEnv) (tx : Tx) (grade : Grade) (r : Option StreakInfo × Int × Bool) : AttemptResponse :=
  ⟨tx.attemptId, grade.status, grade.isCorrect, r.1, r.2.1 == 0, r.2.1, r.2.2, env.detail⟩

theorem storeAttempt_eq (cfg : Settings) (env : SubmitEnv) (tx : Tx) (payload : AttemptRequest) (type : String)
    (grade : Grade) : storeAttempt cfg env tx payload type grade =
      .lock (.advisory (isoformat env.today)) (.select .attempts
        (fun rows => attemptedOn rows.attempts payload.exerciseId env.today) fun already =>
          if already then raise alreadyAttempted
          else .write (fun rows => { rows with attempts := rows.attempts ++ [env.attempt tx payload grade] })
            (attemptBody cfg env tx type grade >>= fun r =>
              .commit (.ret (attemptResponse env tx grade r)))) := by
  unfold storeAttempt attemptBody
  simp only [bind_assoc]
  rfl

theorem within_attemptBody (hK : Writes K) (cfg : Settings) (env : SubmitEnv) (tx : Tx) (type : String)
    (grade : Grade) : (attemptBody cfg env tx type grade).Within K :=
  Within.bind (within_recordVerdict hK.toAsideWrites cfg type grade) fun _ =>
    Within.bind (within_updateStreakAndAttemptCount hK ..) fun _ =>
      Within.bind (within_remainingCount ..) fun _ =>
        Within.bind (within_completeSession hK.toAsideWrites ..) fun _ => trivial

/-- Its first statement reads the stats. -/
theorem attemptBody_opens (cfg : Settings) (env : SubmitEnv) (tx : Tx) (type : String) (grade : Grade) :
    ∃ k, attemptBody cfg env tx type grade = .select .userStats (fun rows => rows.stats) k := by
  unfold attemptBody recordVerdict
  split <;> exact ⟨_, rfl⟩

/-! ## The repair -/

theorem within_repairStreak (hK : Writes K) (cfg : Settings) (tz : TzDb) (tx : Tx) (timezone : String) (now : Int) :
    (repairStreak cfg tz tx timezone now).Within K := by
  change Within K (loadRestorable cfg now >>= _)
  refine Within.bind within_query fun r => ?_
  cases r with
  | none => trivial
  | some reset =>
    refine Within.bind (within_getUserStats none) fun o => ?_
    cases o with
    | none => trivial
    | some o =>
      dsimp only
      split
      · trivial
      · exact Within.bind (within_flushUserStats hK.toAsideWrites _) fun _ =>
          Within.bind (within_insertStreakEvents hK _ _) fun _ => trivial

/-- Its first statements are its lock and the read of the ledger. -/
theorem repairStreak_opens (cfg : Settings) (tz : TzDb) (tx : Tx) (timezone : String) (now : Int) :
    ∃ k, repairStreak cfg tz tx timezone now = .lock (.advisory "streak_repair") (.select .streakEvents
      (fun rows => restorable (now - hours cfg.streakRepairWindowH) rows.events) k) :=
  ⟨_, rfl⟩

end CodeReader
