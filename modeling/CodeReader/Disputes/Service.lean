import CodeReader.Models.UserState

/-!
# Disputes of exercises

* `Dispute`, `Disputed` — a row, and what it is about: the user and the version of the exercise;
* `createDispute` — the request, in the order of its statements: the exercise, the open disputes, the row;
* `resolveDispute` — an operator settles a dispute by hand.

Nothing in the schema keeps two open disputes of one user and exercise version apart: the indexes of `disputes` are not
unique, and the request takes no lock.
-/

namespace CodeReader.Disputes

open Txn Prog

/-! ## The tables -/

abbrev UserId := Nat

inductive DisputeReason
  | wrongAnswer | ambiguous | brokenCode | badExplanation | other
  deriving DecidableEq

def DisputeReason.text : DisputeReason → String
  | wrongAnswer => "wrong_answer"
  | ambiguous => "ambiguous"
  | brokenCode => "broken_code"
  | badExplanation => "bad_explanation"
  | other => "other"

/-- The values of `disputes.status`; `opened` is the default. -/
inductive DisputeStatus
  | opened | accepted | rejected
  deriving DecidableEq

/-- What a dispute is about. -/
structure Disputed where
  userId : UserId
  exerciseId : ExerciseId
  exerciseVersion : Int
  deriving DecidableEq

/-- A row of `disputes`. -/
structure Dispute extends Disputed where
  id : Nat
  attemptId : Option Int
  reason : DisputeReason
  body : Option String
  status : DisputeStatus
  deriving DecidableEq

/-- The tables; of an exercise only its key matters here. -/
structure DisputeDb where
  exercises : List (ExerciseId × Int)
  disputes : List Dispute
  deriving DecidableEq

namespace DisputeDb

def openDisputes (db : DisputeDb) (k : Disputed) : List Dispute :=
  db.disputes.filter fun d => d.toDisputed == k && d.status == .opened

def inserted (db : DisputeDb) (d : Dispute) : DisputeDb := { db with disputes := db.disputes ++ [d] }

end DisputeDb

/-! ## Requests -/

/-- What a request reads. -/
inductive DisputeTbl
  | exercises | disputes
  deriving DecidableEq

/-- `alert_dispute_opened`. -/
inductive DisputeAlert
  | disputeOpened (disputeId : Nat) (disputed : Disputed) (reason : String)
  deriving DecidableEq

/-- The key-value store is the identity sequence of `disputes`: the id that it gave last. -/
abbrev App : Iface where
  Db := DisputeDb
  Kv := Nat
  Lock := Empty
  Tbl := DisputeTbl
  Ev := DisputeAlert
  Err := Err

abbrev Handler := Prog App

def nextval (last : Nat) : Nat × Nat := (last + 1, last + 1)

structure DisputeRequest where
  reason : DisputeReason
  body : Option String
  attemptId : Option Int

structure DisputeResponse where
  disputeId : Nat
  status : DisputeStatus
  deriving DecidableEq

/-- The row that a request adds. -/
def DisputeRequest.row (payload : DisputeRequest) (k : Disputed) (id : Nat) : Dispute where
  toDisputed := k
  id := id
  attemptId := payload.attemptId
  reason := payload.reason
  body := payload.body
  status := .opened

def createDispute (user : UserId) (exerciseId : ExerciseId) (version : Int) (payload : DisputeRequest) :
    Handler DisputeResponse := do
  let exercise ← query .exercises fun db => db.exercises.contains (exerciseId, version)
  if !exercise then raise (.api 404 "not_found" "Exercise not found.")
  else
    let existingOpen ← query .disputes fun db => (db.openDisputes ⟨user, exerciseId, version⟩).head?.map Dispute.id
    if existingOpen.isSome then
      raise (.api 409 "idempotency_conflict" "You already have an open dispute for this exercise version.")
    else
      let id ← cmd nextval
      let dispute := payload.row ⟨user, exerciseId, version⟩ id
      update fun db => db.inserted dispute
      commitTx
      note (.disputeOpened id ⟨user, exerciseId, version⟩ payload.reason.text)
      return ⟨id, dispute.status⟩

/-- How a dispute ends. -/
inductive Verdict
  | accepted | rejected
  deriving DecidableEq

def Verdict.status : Verdict → DisputeStatus
  | accepted => .accepted
  | rejected => .rejected

def Dispute.resolve (verdict : Verdict) (d : Dispute) : Dispute := { d with status := verdict.status }

def DisputeDb.resolved (db : DisputeDb) (id : Nat) (verdict : Verdict) : DisputeDb :=
  { db with disputes := db.disputes.map fun d => if d.id = id then d.resolve verdict else d }

/-- The UPDATE of an operator. -/
def resolveDispute (id : Nat) (verdict : Verdict) : Handler Unit := do
  update fun db => db.resolved id verdict
  commitTx

/-! ## The open disputes -/

section OpenDisputes

variable {db : DisputeDb} {k : Disputed} {d : Dispute}

theorem openDisputes_inserted (hd : d.status = .opened) :
    (db.inserted d).openDisputes k = db.openDisputes k ++ if d.toDisputed = k then [d] else [] := by
  rw [DisputeDb.openDisputes, DisputeDb.inserted, List.filter_append]
  by_cases hk : d.toDisputed = k
  · simp [DisputeDb.openDisputes, hk, hd]
  · simp [DisputeDb.openDisputes, hk]

theorem openDisputes_resolved (id : Nat) (verdict : Verdict) :
    (db.resolved id verdict).openDisputes k = (db.openDisputes k).filter fun d => !(d.id == id) := by
  have hclosed : ∀ d : Dispute, (d.resolve verdict).status ≠ .opened := by
    intro d
    cases verdict <;> exact fun h => nomatch h
  simp only [DisputeDb.openDisputes, DisputeDb.resolved]
  induction db.disputes with
  | nil => rfl
  | cons d ds ih =>
    by_cases hid : d.id = id
    · simp [hid, hclosed d, ih, List.filter_cons, apply_ite]
    · simp only [List.map_cons, hid, if_false, List.filter_cons, ih]
      split
      · simp [hid]
      · rfl

end OpenDisputes

end CodeReader.Disputes
