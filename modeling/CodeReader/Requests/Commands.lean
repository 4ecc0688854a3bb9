import CodeReader.Requests.Frame
import CodeReader.Requests.System

/-!
# What a request does to Redis

Every command of a request is on its key, in the namespace of its route; every write of it appends to the ledger.

* `AgreeAt`, `OnKey` — Redis at one key, and the commands on it;
* `program_all` — the commands and writes of a request;
* `Request.idemKey_inj`, `Request.reservationKey_inj` — different keys, and keys of different routes, differ in Redis.
-/

namespace CodeReader

open Txn Prog

/-! ## Keys -/

namespace Request

/-- The namespace of the route. -/
def route : Request → String
  | submit .. => attemptsNamespace
  | repair .. => streakRepairNamespace

def idempotencyKey : Request → String
  | submit _ _ key _ => key
  | repair _ _ _ _ key => key

end Request

/-- The two Redis hold the same at a key. -/
structure AgreeAt (ns key : String) (kv kv' : Redis) : Prop where
  records : kv.records (idemKey ns key) = kv'.records (idemKey ns key)
  reservations : kv.reservations (reservationKey ns key) = kv'.reservations (reservationKey ns key)

/-- A command on one key: it takes from it, changes it, and leaves the others. -/
structure OnKey (ns key : String) (β : Type) (f : Redis → β × Redis) : Prop where
  sees : ∀ kv kv', AgreeAt ns key kv kv' → (f kv).1 = (f kv').1 ∧ AgreeAt ns key (f kv).2 (f kv').2
  records : ∀ kv k, k ≠ idemKey ns key → (f kv).2.records k = kv.records k
  reservations : ∀ kv k, k ≠ reservationKey ns key → (f kv).2.reservations k = kv.reservations k

/-- The write appends to the ledger. -/
def AppendsEvents (f : UserRows → UserRows) : Prop := ∀ rows, rows.events <+: (f rows).events

/-- After the namespace, which is one of two words, stands the key. -/
theorem Request.namespaced_inj {r r' : Request} (h : r.route.toList ++ ':' :: r.idempotencyKey.toList =
    r'.route.toList ++ ':' :: r'.idempotencyKey.toList) : r.route = r'.route ∧ r.idempotencyKey = r'.idempotencyKey := by
  have ha : attemptsNamespace.toList = 'a' :: "ttempts".toList := by decide
  have hs : streakRepairNamespace.toList = 's' :: "treak_repair".toList := by decide
  cases r <;> cases r' <;> simp only [route, ha, hs, List.cons_append, List.cons.injEq] at h ⊢
  · exact ⟨trivial, String.toList_injective (List.cons.inj (List.append_cancel_left h.2)).2⟩
  · exact absurd h.1 (by decide)
  · exact absurd h.1 (by decide)
  · exact ⟨trivial, String.toList_injective (List.cons.inj (List.append_cancel_left h.2)).2⟩

/-- Requests of different routes, or with different keys, have different records. -/
theorem Request.idemKey_inj {r r' : Request} (h : idemKey r.route r.idempotencyKey = idemKey r'.route r'.idempotencyKey) :
    r.route = r'.route ∧ r.idempotencyKey = r'.idempotencyKey := by
  have hl := congrArg String.toList h
  rw [idemKey_toList, idemKey_toList] at hl
  exact namespaced_inj (List.append_cancel_left hl)

theorem Request.reservationKey_inj {r r' : Request}
    (h : reservationKey r.route r.idempotencyKey = reservationKey r'.route r'.idempotencyKey) :
    r.route = r'.route ∧ r.idempotencyKey = r'.idempotencyKey := by
  have hl := congrArg String.toList h
  rw [reservationKey_toList, reservationKey_toList] at hl
  exact namespaced_inj (List.append_cancel_left hl)

variable {ns key : String} {α : Type} {W : (UserRows → UserRows) → Prop}

/-! ## The idempotency layer -/

theorem all_getCached : (getCached ns key).All W (OnKey ns key) :=
  ⟨⟨fun _ _ h => ⟨h.records, h⟩, fun _ _ _ => rfl, fun _ _ _ => rfl⟩, fun _ => trivial⟩

theorem all_store (hash : String) (status : Nat) (body : Body) : (store ns key hash status body).All W (OnKey ns key) := by
  refine ⟨⟨fun kv kv' h => ⟨rfl, ?_, h.reservations⟩, fun kv k hk => ?_, fun _ _ _ => rfl⟩, fun _ => trivial⟩
  · simp only [Redis.setRecord, Function.update_self]
  · exact Function.update_of_ne hk ..

theorem all_acquireReservation : (acquireReservation ns key).All W (OnKey ns key) := by
  refine ⟨⟨fun kv kv' h => ⟨?_, h.records, ?_⟩, fun _ _ _ => rfl, fun kv k hk => ?_⟩, fun _ => trivial⟩
  · dsimp only
    rw [h.reservations]
  · dsimp only
    rw [Function.update_self, Function.update_self]
  · exact Function.update_of_ne hk ..

theorem all_releaseReservation : (releaseReservation ns key).All W (OnKey ns key) := by
  refine ⟨⟨fun kv kv' h => ⟨rfl, h.records, ?_⟩, fun _ _ _ => rfl, fun kv k hk => ?_⟩, fun _ => trivial⟩
  · dsimp only
    rw [Function.update_self, Function.update_self]
  · exact Function.update_of_ne hk ..

theorem all_waitForCached (polls : Nat) : (waitForCached ns key polls).All W (OnKey ns key) := by
  induction polls with
  | zero => exact all_getCached
  | succ n ih =>
    refine all_getCached.bind fun record => ?_
    cases record with
    | some record => trivial
    | none => exact ih

/-! ## The handlers -/

theorem all_within {p : Handler α} (h : p.Within Extends) : p.All AppendsEvents (OnKey ns key) :=
  h.all.mono (fun _ hf => hf.events) fun _ _ hf => hf

theorem all_storeAttempt (cfg : Settings) (env : SubmitEnv) (tx : Tx) (payload : AttemptRequest) (type : String)
    (grade : Grade) : (storeAttempt cfg env tx payload type grade).All AppendsEvents (OnKey ns key) := by
  rw [storeAttempt_eq]
  intro already
  cases already with
  | true => trivial
  | false => exact ⟨fun rows => List.prefix_rfl, (all_within (within_attemptBody writes_extends ..)).bind fun _ => trivial⟩

theorem all_replay (hash : String) (record : IdempotencyRecord) : (replay hash record).All W (OnKey ns key) := by
  unfold replay
  split <;> trivial

theorem all_fresh (cfg : Settings) (env : SubmitEnv) (tx : Tx) (payload : AttemptRequest) (hash : String) :
    (fresh cfg env tx key payload hash).All AppendsEvents (OnKey attemptsNamespace key) := by
  refine All.bind ?_ fun _ => trivial
  unfold buildAndStoreAttempt
  rcases checkRequest_cases env payload with ⟨-, e, he, -⟩ | ⟨⟨type, grade⟩, -, he⟩ <;> rw [he]
  · trivial
  · rw [ret_bind]
    exact All.bind (all_storeAttempt cfg env tx payload type grade) fun response =>
      All.bind (p := store attemptsNamespace key hash 200 (.attempt response)) (all_store ..) fun _ => trivial

theorem all_submitAttempt (cfg : Settings) (requestHash : AttemptRequest → String) (env : SubmitEnv) (tx : Tx)
    (payload : AttemptRequest) :
    (submitAttempt cfg requestHash env tx key payload).All AppendsEvents (OnKey attemptsNamespace key) := by
  unfold submitAttempt
  dsimp only
  split
  · trivial
  · refine all_getCached.bind fun record => ?_
    cases record with
    | some record => exact all_replay ..
    | none =>
      refine all_acquireReservation.bind fun reserved => ?_
      split
      · exact (all_fresh ..).andFinally all_releaseReservation
      · refine (all_waitForCached _).bind fun record => ?_
        cases record with
        | some record => exact all_replay ..
        | none => exact all_fresh ..

theorem all_streakRepair (cfg : Settings) (tz : TzDb) (tx : Tx) (timezone : String) (now : Int) (polls : Nat)
    (hash : String) :
    (streakRepair cfg tz tx timezone now polls key hash).All AppendsEvents (OnKey streakRepairNamespace key) := by
  have hreplay : ∀ record, (repairReplay hash record).All AppendsEvents (OnKey streakRepairNamespace key) := by
    intro record
    unfold repairReplay
    split <;> trivial
  have hstore : ((repairAndStore cfg tz tx timezone now key hash).andFinally
      (releaseReservation streakRepairNamespace key)).All AppendsEvents (OnKey streakRepairNamespace key) := by
    refine All.andFinally ?_ all_releaseReservation
    exact All.bind (p := repairStreak cfg tz tx timezone now) (all_within (within_repairStreak writes_extends cfg tz tx timezone now)) fun body =>
      All.bind (p := store streakRepairNamespace key hash 200 body) (all_store ..) fun _ => trivial
  unfold streakRepair
  split
  · trivial
  · refine all_getCached.bind fun record => ?_
    cases record with
    | some record => exact hreplay record
    | none =>
      refine all_acquireReservation.bind fun reserved => ?_
      split
      · exact hstore
      · refine (all_waitForCached _).bind fun record => ?_
        cases record with
        | some record => exact hreplay record
        | none => exact hstore

/-- **The commands of a request are on its key**, and its writes append to the ledger. -/
theorem program_all (D : Deployment) (actorHash : String) (r : Request) :
    (r.program D actorHash).All AppendsEvents (OnKey r.route r.idempotencyKey) := by
  cases r with
  | submit env tx key payload => exact (all_submitAttempt ..).bind fun _ => trivial
  | repair tx timezone now polls key => exact all_streakRepair ..

end CodeReader
