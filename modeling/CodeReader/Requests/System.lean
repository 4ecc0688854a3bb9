import CodeReader.Attempts.Service
import CodeReader.Runs.Serial
import CodeReader.Streak.Router
import CodeReader.Txn.System

/-!
# Concurrent requests of one user

Any number of submissions and repairs of one user, each a thread of its own, run statement by statement over the
user's rows and one Redis.

* `Request`, `Request.program` — the requests and their handlers;
* `Request.transaction`, `Request.alone` — the transaction of a request, and the rows it leaves when it runs alone;
* `Expiry` — Redis may lose any record, and reservations come and go.
-/

namespace CodeReader

open Txn Prog

/-- A Redis that holds nothing. -/
def Redis.empty : Redis := ⟨fun _ => none, fun _ => false⟩

/-- A request of the user, with what its handler takes from outside. -/
inductive Request
  | submit (env : SubmitEnv) (tx : Tx) (idempotencyKey : String) (payload : AttemptRequest)
  | repair (tx : Tx) (timezone : String) (now : Int) (polls : Nat) (idempotencyKey : String)

namespace Request

def tx : Request → Tx
  | submit _ tx _ _ => tx
  | repair tx _ _ _ _ => tx

/-- The handler of a request; `actorHash` is the `request_hash` of the user's identity. -/
def program (D : Deployment) (actorHash : String) : Request → Handler Body
  | submit env tx key payload => do
    let outcome ← submitAttempt D.cfg D.requestHash env tx key payload
    ret outcome.body
  | repair tx timezone now polls key => streakRepair D.cfg D.tz tx timezone now polls key actorHash

/-- The transaction of a request. -/
def transaction (D : Deployment) : Request → Handler Unit
  | submit env tx _ payload => do
    let (type, grade) ← checkRequest env payload
    let _ ← storeAttempt D.cfg env tx payload type grade
    ret ()
  | repair tx timezone now _ _ => do
    let _ ← repairStreak D.cfg D.tz tx timezone now
    commitTx

/-- The rows that the transaction leaves when it runs alone. -/
def alone (D : Deployment) (r : Request) (rows : UserRows) : UserRows :=
  ((r.transaction D).exec rows ⟨rows, .empty⟩).store.db

end Request

/-- A request that submits. -/
structure Submission where
  env : SubmitEnv
  tx : Tx
  idempotencyKey : String
  payload : AttemptRequest

namespace Submission

def request (s : Submission) : Request := .submit s.env s.tx s.idempotencyKey s.payload

/-- The day that the submission was assigned, before its transaction. -/
def day (s : Submission) : Int := s.env.today

end Submission

/-- Redis changes from outside: records expire or are lost, reservations come and go. -/
def Expiry (kv kv' : Redis) : Prop := ∀ key, kv'.records key = none ∨ kv'.records key = kv.records key

/-- The requests at their start, over the rows and the Redis they find. -/
def Requests.start {τ : Type} (D : Deployment) (actorHash : String) (req : τ → Request) (rows : UserRows) (kv : Redis) :
    Sys App τ Body :=
  .start rows kv fun i => (req i).program D actorHash

/-! ## Small runs

What the witnesses and counterexamples of later modules run. -/

/-- The `n`-th submission: of the exercise `x` on the day `today`, and skipped. -/
def Submission.small (n : Nat) (x : ExerciseId) (today : Int) (key : String) : Submission where
  env := ⟨false, today, [⟨x, 1⟩], some ⟨"trace", .ok .skip⟩, today * microsPerDay, 3, ""⟩
  tx := ⟨today * microsPerDay, fun k => 100 * n + k, n⟩
  idempotencyKey := key
  payload := ⟨x, 1, "", none⟩

def Request.small (n : Nat) (x : ExerciseId) (today : Int) (key : String) : Request :=
  (Submission.small n x today key).request

/-- The requests in zones without offsets, over an empty Redis. -/
def Requests.small {τ : Type} (req : τ → Request) (rows : UserRows) : Sys App τ Body :=
  Requests.start (.small fun _ => 0) "actor" req rows .empty

end CodeReader
