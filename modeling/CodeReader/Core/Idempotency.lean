import CodeReader.Models.UserState

/-!
# Idempotency records and reservations

`POST /attempts` idempotency: Redis-only, 24h TTL, not a database constraint.  A record is the answer of a
finished request; a reservation is held while a request is in flight.  Both can vanish at any time (expiry, loss);
that is not a command of a request, and the interleaved runs add it from outside.
-/

namespace CodeReader

open Txn Prog

/-- `_key`. -/
def idemKey (ns idempotencyKey : String) : String := s!"idem:{ns}:{idempotencyKey}"

/-- `_reservation_key`. -/
def reservationKey (ns idempotencyKey : String) : String := s!"idem:lock:{ns}:{idempotencyKey}"

theorem idemKey_toList (ns key : String) : (idemKey ns key).toList = "idem:".toList ++ (ns.toList ++ ':' :: key.toList) := by
  change ("idem:" ++ ns ++ ":" ++ key).toList = _
  simp [String.toList_append]

theorem reservationKey_toList (ns key : String) :
    (reservationKey ns key).toList = "idem:lock:".toList ++ (ns.toList ++ ':' :: key.toList) := by
  change ("idem:lock:" ++ ns ++ ":" ++ key).toList = _
  simp [String.toList_append]

def getCached (ns idempotencyKey : String) : Handler (Option IdempotencyRecord) :=
  cmd fun redis => (redis.records (idemKey ns idempotencyKey), redis)

/-- `SET` of the record, with its time to live. -/
def Redis.setRecord (redis : Redis) (key : String) (r : IdempotencyRecord) : Redis :=
  { redis with records := Function.update redis.records key (some r) }

def store (ns idempotencyKey requestHash : String) (statusCode : Nat) (body : Body) : Handler Unit :=
  cmd fun redis => ((), redis.setRecord (idemKey ns idempotencyKey) ⟨requestHash, statusCode, body⟩)

/-- `SET NX`: whether the key was free, and the key taken. -/
def acquireReservation (ns idempotencyKey : String) : Handler Bool :=
  cmd fun redis =>
    let key := reservationKey ns idempotencyKey
    (!redis.reservations key, { redis with reservations := Function.update redis.reservations key true })

def releaseReservation (ns idempotencyKey : String) : Handler Unit :=
  cmd fun redis =>
    ((), { redis with
      reservations := Function.update redis.reservations (reservationKey ns idempotencyKey) false })

/-- Polls for the stored result: the deadline passes after `polls` more looks.  `none` on timeout. -/
def waitForCached (ns idempotencyKey : String) : Nat → Handler (Option IdempotencyRecord)
  | 0 => getCached ns idempotencyKey
  | polls + 1 => do
    match ← getCached ns idempotencyKey with
    | some record => ret (some record)
    | none => waitForCached ns idempotencyKey polls

def idempotencyConflict : Err :=
  .api 409 "idempotency_conflict" "This Idempotency-Key was already used with a different request body."

end CodeReader
