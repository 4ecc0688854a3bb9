import CodeReader.Core.Idempotency
import CodeReader.Streak.Service

/-!
# `POST /v1/streak/repair`

Idempotency reuses the attempts discipline in its own namespace: reservation, cached record, replay of the stored
body.  The request carries no body, so its hash is over the identity of the actor.
-/

namespace CodeReader

open Txn Prog

def streakRepairNamespace : String := "streak_repair"

/-- The answer from a record: its body, or a conflict when it is of another actor. -/
def repairReplay (reqHash : String) (record : IdempotencyRecord) : Handler Body :=
  if record.requestHash ≠ reqHash then raise idempotencyConflict
  else ret record.body

/-- `repair_streak`, its commit, and the stored response. -/
def repairAndStore (cfg : Settings) (tz : TzDb) (tx : Tx) (timezone : String) (now : Int) (idempotencyKey reqHash : String) :
    Handler Body := do
  let body ← repairStreak cfg tz tx timezone now
  commitTx
  store streakRepairNamespace idempotencyKey reqHash 200 body
  ret body

/-- The repair of the actor whose `request_hash` is `reqHash`; the empty key stands for a missing header too.  The
reservation is released also when it is another request's. -/
def streakRepair (cfg : Settings) (tz : TzDb) (tx : Tx) (timezone : String) (now : Int) (polls : Nat)
    (idempotencyKey reqHash : String) : Handler Body :=
  if idempotencyKey = "" then
    raise (.api 400 "validation_error" "Idempotency-Key header is required.")
  else do
    match ← getCached streakRepairNamespace idempotencyKey with
    | some record => repairReplay reqHash record
    | none => do
      let reserved ← acquireReservation streakRepairNamespace idempotencyKey
      let record ← if reserved then ret none else waitForCached streakRepairNamespace idempotencyKey polls
      match record with
      | some record => repairReplay reqHash record
      | none =>
        (repairAndStore cfg tz tx timezone now idempotencyKey reqHash).andFinally
          (releaseReservation streakRepairNamespace idempotencyKey)

end CodeReader
