import CodeReader.Models.UserState

/-!
# The streak safety net

Freeze accrual, freeze consumption, outage fill, the initial grant, and repair, as the service computes them:

* `missedDates`, `coveredDates`, `tryCoverGap`, `accrueFreezeIfEarned` — the parts of a submission;
* `outageFreeze`, `grantInitialFreezes` — the operations over everyone, for one user;
* `restorable`, `loadRestorable`, `restorableValue`, `repairStreak` — the repair of the last reset.

The session holds the user's stats as a `StatsObject`; a flush writes the columns that changed.
-/

namespace CodeReader

open Txn Prog

/-! ## The session's stats object -/

/-- The user's stats as the session holds them: as last read or written, and as they now are. -/
structure StatsObject where
  flushed : UserStats
  current : UserStats

/-- A row as just read. -/
abbrev StatsObject.loaded (s : UserStats) : StatsObject := ⟨s, s⟩

/-- The assignments of an `UPDATE` that sets the columns in which `new` differs from `old`. -/
def UserStats.setChanged (old new row : UserStats) : UserStats where
  currentStreak := if new.currentStreak = old.currentStreak then row.currentStreak else new.currentStreak
  longestStreak := if new.longestStreak = old.longestStreak then row.longestStreak else new.longestStreak
  lastActiveLocalDate :=
    if new.lastActiveLocalDate = old.lastActiveLocalDate then row.lastActiveLocalDate else new.lastActiveLocalDate
  streakFreezes := if new.streakFreezes = old.streakFreezes then row.streakFreezes else new.streakFreezes
  totalAttempts := if new.totalAttempts = old.totalAttempts then row.totalAttempts else new.totalAttempts
  totalCorrect := if new.totalCorrect = old.totalCorrect then row.totalCorrect else new.totalCorrect
  accuracyByType := if new.accuracyByType = old.accuracyByType then row.accuracyByType else new.accuracyByType

@[simp] theorem UserStats.setChanged_self_row (old new : UserStats) : UserStats.setChanged old new old = new := by
  unfold UserStats.setChanged
  congr 1 <;> (split <;> simp_all)

/-- `db.flush()` of the stats: nothing when no column changed, else an `UPDATE`, which locks the row. -/
def flushUserStats (o : StatsObject) : Handler StatsObject :=
  if o.current = o.flushed then ret o else do
    lockOn .userStatsRow
    update fun rows => { rows with stats := rows.stats.map (UserStats.setChanged o.flushed o.current) }
    ret (.loaded o.current)

/-- Every UserStats row is born holding the starting freeze balance. -/
def newUserStats (cfg : Settings) : UserStats where
  currentStreak := 0
  longestStreak := 0
  lastActiveLocalDate := none
  streakFreezes := cfg.streakFreezeStart
  totalAttempts := 0
  totalCorrect := 0
  accuracyByType := []

/-- `db.add(stats)` and its flush: the insert waits for a transaction that inserted the row before it. -/
def insertUserStats (s : UserStats) : Handler StatsObject := do
  lockOn .userStatsRow
  let taken ← query .userStats fun rows => rows.stats.isSome
  if taken then
    raise (.integrity "user_stats_pkey")
  else do
    update fun rows => { rows with stats := some s }
    ret (.loaded s)

/-- `db.get(UserStats, user.id)`: from the session when it holds the row. -/
def getUserStats : Option StatsObject → Handler (Option StatsObject)
  | some o => ret (some o)
  | none => do
    let row ← query .userStats fun rows => rows.stats
    ret (row.map .loaded)

/-- `db.get(UserStats, user.id)`, and a new row when there is none. -/
def getOrCreateUserStats (cfg : Settings) (held : Option StatsObject) : Handler StatsObject := do
  match ← getUserStats held with
  | some o => ret o
  | none => insertUserStats (newUserStats cfg)

/-! ## Ledger rows -/

/-- A `StreakEvent` before its insert. -/
structure NewEvent where
  event : StreakEventKind
  fromValue : Int
  toValue : Int
  localDate : Int
  note : Option String
  deriving DecidableEq

/-- The row inserted as the `k`-th of a transaction. -/
def NewEvent.toRow (tx : Tx) (k : Nat) (e : NewEvent) : StreakEvent :=
  ⟨tx.eventId k, e.event, e.fromValue, e.toValue, e.localDate, e.note, tx.startedAt⟩

def NewEvent.toRows (tx : Tx) (evs : List NewEvent) : List StreakEvent := evs.mapIdx fun k e => e.toRow tx k

/-- The insert of the rows that a flush found pending.  `uq_streak_events_one_transition_per_day` refuses a second
transition row of a date; no caller has two of them pending. -/
def insertStreakEvents (tx : Tx) (evs : List NewEvent) : Handler Unit := do
  let clash ← query .streakEvents fun rows =>
    evs.any fun e => e.event.isTransition && transitionOn rows.events e.localDate
  if clash then
    raise (.integrity "uq_streak_events_one_transition_per_day")
  else
    update fun rows => { rows with events := rows.events ++ NewEvent.toRows tx evs }

/-! ## Freezes -/

/-- The local dates strictly between `lastActive` and `today`. -/
def missedDates (lastActive today : Int) : List Int :=
  (List.range (today - lastActive - 1).toNat).map fun k : Nat => lastActive + (k + 1)

/-- The dates with a freeze row. -/
def freezeUsedOn (events : List StreakEvent) (d : Int) : Bool :=
  events.any fun e => e.event == .freezeUsed && e.localDate == d

/-- Which of `dates` already carry a freeze_used row.  The query flushes what is pending. -/
def coveredDates (o : StatsObject) (dates : List Int) : Handler (StatsObject × List Int) :=
  if dates = [] then ret (o, []) else do
    let o ← flushUserStats o
    let already ← query .streakEvents fun rows => dates.filter (freezeUsedOn rows.events)
    ret (o, already)

/-- The row that records a freeze spent on `day`, with the balance and the streak as `stats` has them. -/
def freezeSpentRow (stats : UserStats) (day : Int) : NewEvent where
  event := .freezeUsed
  fromValue := stats.currentStreak
  toValue := stats.currentStreak
  localDate := day
  note := some (s!"streak freeze spent to cover missed day {isoformat day}; " ++
    s!"streak_freezes {stats.streakFreezes + 1} -> {stats.streakFreezes}")

/-- Attempt to save a streak across a gap: the rows to write when the gap is fully covered, `none` (with nothing
written or spent) when it is not. -/
def tryCoverGap (cfg : Settings) (o : StatsObject) (lastActive today : Int) :
    Handler (StatsObject × Option (List NewEvent)) :=
  let missed := missedDates lastActive today
  if missed = [] then ret (o, none) else do
    let (o, already) ← coveredDates o missed
    let uncovered := missed.filter fun day => day ∉ already
    let payable := min o.current.streakFreezes cfg.streakFreezeMax
    if payable < uncovered.length then
      ret (o, none)
    else
      let stats := { o.current with streakFreezes := o.current.streakFreezes - uncovered.length }
      ret ({ o with current := stats }, some (uncovered.map (freezeSpentRow stats)))

/-- +1 freeze every `streakFreezeEarnEvery` consecutive active days, never above the cap. -/
def accrueFreezeIfEarned (cfg : Settings) (stats : UserStats) (today : Int) : UserStats × List NewEvent :=
  let every := cfg.streakFreezeEarnEvery
  if every ≤ 0 ∨ stats.currentStreak ≤ 0 ∨ stats.currentStreak % every ≠ 0 then (stats, [])
  else if cfg.streakFreezeMax ≤ stats.streakFreezes then (stats, [])
  else
    let before := stats.streakFreezes
    let stats := { stats with streakFreezes := before + 1 }
    (stats, [{
      event := .adjusted
      fromValue := stats.currentStreak
      toValue := stats.currentStreak
      localDate := today
      note := some (s!"freeze earned at streak milestone {stats.currentStreak} (every {every}); " ++
        s!"streak_freezes {before} -> {stats.streakFreezes}") }])

/-- What the statement of `outage_freeze` inserts for the user, by the tables as it finds them. -/
def outageFills (localDate : Int) (rows : UserRows) : List NewEvent :=
  match rows.stats with
  | none => []
  | some us =>
    if us.lastActiveLocalDate = none ∨ freezeUsedOn rows.events localDate then []
    else [⟨.freezeUsed, us.currentStreak, us.currentStreak, localDate, some "outage"⟩]

/-- Fill `localDate` with a freeze_used row, without spending balance and without touching the streak. -/
def outageFreeze (tx : Tx) (localDate : Int) : Handler Unit := do
  let filled ← query .streakEvents (outageFills localDate)
  update fun rows => { rows with events := rows.events ++ NewEvent.toRows tx filled }
  commitTx

def backfillMarker : String := "[a1:initial-grant]"

def grantNote (grant : Int) : String :=
  s!"A1 initial freeze grant: balance raised to {grant} for an account " ++
    s!"created before the streak safety net shipped {backfillMarker}"

/-- The statement of `grant_initial_freezes` on the rows of one user. -/
def grantFreezes (tx : Tx) (grant localDate : Int) (rows : UserRows) : UserRows :=
  match rows.stats with
  | none => rows
  | some us =>
    if us.streakFreezes < grant ∧
        ¬ (rows.events.any fun se => se.event == .adjusted && noteContains se.note backfillMarker) then
      { rows with
        stats := some { us with streakFreezes := grant }
        events := rows.events ++
          NewEvent.toRows tx [⟨.adjusted, us.currentStreak, us.currentStreak, localDate, some (grantNote grant)⟩] }
    else rows

/-- One-time backfill of the starting freeze balance. -/
def grantInitialFreezes (cfg : Settings) (tx : Tx) (localDate : Int) : Handler Unit := do
  lockOn .userStatsRow
  update (grantFreezes tx (min cfg.streakFreezeStart cfg.streakFreezeMax) localDate)
  commitTx

/-! ## Repair -/

/-- The anchor that a repair of a reset puts into its note. -/
def anchorMarker (resetEventId : Nat) : String := s!"[repair:anchor={resetEventId}]"

/-- A reset that can still be repaired, plus everything needed to do it. -/
structure RestorableReset where
  resetId : Nat
  fromValue : Int
  localDate : Int
  run : Int
  deriving DecidableEq

/-- The unbroken counterfactual: value lost + the run built since. -/
def RestorableReset.restoresTo (r : RestorableReset) : Int := r.fromValue + r.run

/-- `ORDER BY k₁ DESC, k₂ DESC LIMIT 1`. -/
def firstDesc {α : Type} (k₁ : α → Int) (k₂ : α → Nat) : List α → Option α
  | [] => none
  | x :: xs =>
    match firstDesc k₁ k₂ xs with
    | none => some x
    | some y => if k₁ y < k₁ x ∨ k₁ y = k₁ x ∧ k₂ y < k₂ x then some x else some y

/-- `last_reset`: the latest reset of the window, by `created_at` and then `id`. -/
def lastReset (cutoff : Int) (events : List StreakEvent) : Option StreakEvent :=
  firstDesc (·.createdAt) (·.id) (events.filter fun e => e.event == .reset && decide (cutoff ≤ e.createdAt))

/-- `run`: what the latest transition row of the days from `localDate` on (by date, then `id`) leads to. -/
def runSince (localDate : Int) (events : List StreakEvent) : Option Int :=
  (firstDesc (·.localDate) (·.id)
    (events.filter fun e => e.event.isTransition && decide (localDate ≤ e.localDate))).map (·.toValue)

/-- `already_repaired`: some repaired row has the anchor of the reset. -/
def alreadyRepaired (resetId : Nat) (events : List StreakEvent) : Bool :=
  events.any fun e => e.event == .repaired && noteContains e.note (anchorMarker resetId)

/-- The answer of `_RESTORABLE_SQL`, and `None` for a reset that is already repaired. -/
def restorable (cutoff : Int) (events : List StreakEvent) : Option RestorableReset :=
  match lastReset cutoff events with
  | none => none
  | some lr =>
    if alreadyRepaired lr.id events then none
    else
      -- never NULL: the reset row is itself a transition row of its day
      some ⟨lr.id, lr.fromValue, lr.localDate, (runSince lr.localDate events).getD 0⟩

/-- The most recent reset, if it is inside the repair window and has not already been repaired. -/
def loadRestorable (cfg : Settings) (now : Int) : Handler (Option RestorableReset) :=
  let cutoff := now - hours cfg.streakRepairWindowH
  query .streakEvents fun rows => restorable cutoff rows.events

/-- The streak value a repair would restore, or `none` if none is available. -/
def restorableValue (cfg : Settings) (now : Int) : Handler (Option Int) := do
  match ← loadRestorable cfg now with
  | none => ret none
  | some reset => do
    let stats ← getUserStats none
    let current := (stats.map (·.current.currentStreak)).getD 0
    if reset.restoresTo ≤ current then ret none else ret (some reset.restoresTo)

def notRepairable : Err := .api 409 "not_repairable" "There is no streak to restore right now."

/-- The row that records a repair. -/
def repairRow (cfg : Settings) (reset : RestorableReset) (before today : Int) : NewEvent where
  event := .repaired
  fromValue := before
  toValue := reset.restoresTo
  localDate := today
  note := some (s!"streak repaired within {cfg.streakRepairWindowH}h of the " ++
    s!"reset on {isoformat reset.localDate} that lost {reset.fromValue}; " ++
    s!"restored {before} -> {reset.restoresTo} (lost {reset.fromValue} plus the " ++
    s!"{reset.run}-day run built since) " ++ anchorMarker reset.resetId)

/-- Restore the streak value lost at the most recent repairable reset. -/
def repairStreak (cfg : Settings) (tz : TzDb) (tx : Tx) (timezone : String) (now : Int) : Handler Body := do
  lockOn (.advisory "streak_repair")
  match ← loadRestorable cfg now with
  | none => raise notRepairable
  | some reset => do
    match ← getUserStats none with
    | none => raise notRepairable
    | some o => do
      let today := localDateFor tz timezone now
      let restored := reset.restoresTo
      if restored ≤ o.current.currentStreak then
        raise notRepairable
      else do
        let before := o.current.currentStreak
        let stats := { o.current with
          currentStreak := restored
          longestStreak := max o.current.longestStreak restored }
        let _ ← flushUserStats { o with current := stats }
        insertStreakEvents tx [repairRow cfg reset before today]
        ret (.repair restored)

end CodeReader
