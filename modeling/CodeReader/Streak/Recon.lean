import CodeReader.Streak.Service

/-!
# Streak reconciliation on a timezone change

A westward change can move the local "today" before `last_active_local_date`; the reconciliation then clamps
that date to the new "today" and writes a `repaired` row that leaves the streak as it is.
-/

namespace CodeReader

open Txn Prog

/-- `{name!r}` of a zone name. -/
def pyRepr (name : String) : String := "'" ++ name ++ "'"

/-- The row that records a boundary moved backward. -/
def reconcileRow (streak : Int) (oldTimezone newTimezone : String) (previous newToday : Int) : NewEvent where
  event := .repaired
  fromValue := streak
  toValue := streak
  localDate := newToday
  note := some (s!"timezone change {pyRepr oldTimezone} -> {pyRepr newTimezone} moved the " ++
    s!"local-date boundary backward from {isoformat previous} " ++
    s!"to {isoformat newToday}; last_active_local_date repaired to avoid a false streak reset")

/-- Call before assigning the new time zone: compares its "today" with the stats recorded under the old one. -/
def reconcileStreakForTimezoneChange (tz : TzDb) (tx : Tx) (timezone newTimezone : String) (now : Int) :
    Handler Unit :=
  if newTimezone = timezone then ret () else do
    match ← getUserStats none with
    | none => ret ()
    | some o =>
      match o.current.lastActiveLocalDate with
      | none => ret ()
      | some previous => do
        let newToday := localDateFor tz newTimezone now
        if previous ≤ newToday then
          ret ()
        else do
          let _ ← flushUserStats { o with current := { o.current with lastActiveLocalDate := some newToday } }
          insertStreakEvents tx [reconcileRow o.current.currentStreak timezone newTimezone previous newToday]

/-- `update_me` on the `timezone` field of the request; the other fields of a user are not modelled. -/
def updateMe (tz : TzDb) (tx : Tx) (newTimezone : Option String) (now : Int) : Handler Unit := do
  match newTimezone with
  | none => commitTx
  | some name => do
    let timezone ← query .users fun rows => rows.timezone
    reconcileStreakForTimezoneChange tz tx timezone name now
    update fun rows => { rows with timezone := name }
    commitTx

end CodeReader
