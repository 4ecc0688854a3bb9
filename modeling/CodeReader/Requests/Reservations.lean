import CodeReader.Requests.Users
import CodeReader.Txn.Holder

/-!
# Who releases a reservation

A reservation is a key in Redis that says nothing of its request, and it expires; a request releases it by deleting the
key.

* `Vanish`, `Reservations.Run` — Redis loses records and reservations, and the runs with the holder of a reservation;
* `program_leased` — a request sets the reservation when it is free, and releases the one it set: a repair that lost it
  is the exception;
* `released_by_holder` — **the result**: a reservation is released by the request that holds it, in every run in which
  none is lost while its request runs, and no repair goes on that has not got its own;
* `released_of_another` — in other runs it is not.
-/

namespace CodeReader

open Txn Prog

variable {U τ : Type} [DecidableEq U]

/-- Redis loses records and reservations: they expire, or it crashes. -/
structure Vanish (kv kv' : Redis) : Prop where
  records : Expiry kv kv'
  reservations : ∀ k, kv'.reservations k = true → kv.reservations k = true

/-- The reservation is there. -/
def Redis.reserved (k : String) (kv : Redis) : Bool := kv.reservations k

namespace Request

/-- The key of the request's reservation. -/
def reservation (r : Request) : String := reservationKey r.route r.idempotencyKey

/-- A repair with this reservation. -/
def RepairOn (k : String) : Request → Prop
  | submit .. => False
  | repair tx timezone now polls key => (repair tx timezone now polls key).reservation = k

end Request

/-! ## The programs -/

section Programs

variable {ns key k hash : String} {W : (UserRows → UserRows) → Prop} {barred : Prop} {mine : Bool}

theorem keeps_getCached : (getCached ns key).All W (KeepsFlag (Redis.reserved k)) := ⟨fun _ => rfl, fun _ => trivial⟩

theorem keeps_store (status : Nat) (body : Body) :
    (store ns key hash status body).All W (KeepsFlag (Redis.reserved k)) := ⟨fun _ => rfl, fun _ => trivial⟩

theorem keeps_waitForCached (polls : Nat) : (waitForCached ns key polls).All W (KeepsFlag (Redis.reserved k)) := by
  induction polls with
  | zero => exact keeps_getCached
  | succ n ih =>
    refine keeps_getCached.bind fun record => ?_
    cases record with
    | some record => trivial
    | none => exact ih

theorem keeps_replay (record : IdempotencyRecord) : (replay hash record).All W (KeepsFlag (Redis.reserved k)) := by
  unfold replay
  split <;> trivial

theorem keeps_repairReplay (record : IdempotencyRecord) :
    (repairReplay hash record).All W (KeepsFlag (Redis.reserved k)) := by
  unfold repairReplay
  split <;> trivial

theorem keeps_storeAttempt (cfg : Settings) (env : SubmitEnv) (tx : Tx) (payload : AttemptRequest) (type : String)
    (grade : Grade) :
    (storeAttempt cfg env tx payload type grade).All (fun _ => True) (KeepsFlag (Redis.reserved k)) := by
  rw [storeAttempt_eq]
  intro already
  cases already with
  | true => trivial
  | false =>
    have hbody : (attemptBody cfg env tx type grade).Within fun _ => True :=
      (within_attemptBody writes_extends cfg env tx type grade).mono fun _ _ => trivial
    exact ⟨trivial, hbody.all.bind fun _ => trivial⟩

theorem keeps_fresh (cfg : Settings) (env : SubmitEnv) (tx : Tx) (payload : AttemptRequest) :
    (fresh cfg env tx key payload hash).All (fun _ => True) (KeepsFlag (Redis.reserved k)) := by
  refine All.bind ?_ fun _ => trivial
  unfold buildAndStoreAttempt
  rcases checkRequest_cases env payload with ⟨-, e, he, -⟩ | ⟨⟨type, grade⟩, -, he⟩ <;> rw [he]
  · trivial
  · rw [ret_bind]
    exact (keeps_storeAttempt cfg env tx payload type grade).bind fun response =>
      All.bind (p := store attemptsNamespace key hash 200 (.attempt response)) (keeps_store ..) fun _ => trivial

theorem keeps_repairAndStore (cfg : Settings) (tz : TzDb) (tx : Tx) (timezone : String) (now : Int) :
    (repairAndStore cfg tz tx timezone now key hash).All (fun _ => True) (KeepsFlag (Redis.reserved k)) := by
  have hrepair : (repairStreak cfg tz tx timezone now).Within fun _ => True :=
    (within_repairStreak writes_extends cfg tz tx timezone now).mono fun _ _ => trivial
  exact hrepair.all.bind fun body =>
    All.bind (p := store streakRepairNamespace key hash 200 body) (keeps_store ..) fun _ => trivial

/-- `SET NX`: either the reservation is there, or it was free and is set. -/
theorem leased_acquire {α : Type} {g : Bool → Handler α}
    (hwon : (g true).Leased (Redis.reserved (reservationKey ns key)) barred true)
    (hlost : (g false).Leased (Redis.reserved (reservationKey ns key)) barred false) :
    (acquireReservation ns key >>= g).Leased (Redis.reserved (reservationKey ns key)) barred false := by
  intro redis _
  cases hset : redis.reservations (reservationKey ns key) with
  | true =>
    refine .inl ⟨by simp [Redis.reserved, hset], ?_⟩
    change (g (!redis.reservations (reservationKey ns key))).Leased _ barred false
    rw [hset]
    exact hlost
  | false =>
    refine .inr ⟨hset, by simp [Redis.reserved], ?_⟩
    change (g (!redis.reservations (reservationKey ns key))).Leased _ barred true
    rw [hset]
    exact hwon

/-- The release, by whoever set it. -/
theorem leased_release {α : Type} {q : Handler α}
    (hq : q.Leased (Redis.reserved (reservationKey ns key)) barred false) :
    (releaseReservation ns key >>= fun _ => q).Leased (Redis.reserved (reservationKey ns key)) barred true :=
  fun _ hset => .inr ⟨hset rfl, by simp [Redis.reserved], hq⟩

theorem leased_submitAttempt (cfg : Settings) (requestHash : AttemptRequest → String) (env : SubmitEnv) (tx : Tx)
    (payload : AttemptRequest) : (submitAttempt cfg requestHash env tx key payload).Leased
      (Redis.reserved (reservationKey attemptsNamespace key)) barred false := by
  unfold submitAttempt
  dsimp only
  split
  · trivial
  · refine Leased.bind (W := fun _ => True) keeps_getCached fun record => ?_
    cases record with
    | some record => exact leased_of_all (W := fun _ => True) (keeps_replay record)
    | none =>
      refine leased_acquire ?_ ?_
      · exact Leased.andFinally (keeps_fresh ..) fun q hq => leased_release hq
      · refine Leased.bind (W := fun _ => True) (keeps_waitForCached _) fun record => ?_
        cases record with
        | some record => exact leased_of_all (W := fun _ => True) (keeps_replay record)
        | none => exact leased_of_all (keeps_fresh ..)

/-- A repair that lost its reservation comes to the lock of its transaction, if it is not barred from it. -/
theorem leased_streakRepair (hbarred : barred) (cfg : Settings) (tz : TzDb) (tx : Tx) (timezone : String) (now : Int)
    (polls : Nat) : (streakRepair cfg tz tx timezone now polls key hash).Leased
      (Redis.reserved (reservationKey streakRepairNamespace key)) barred false := by
  have hown : ((repairAndStore cfg tz tx timezone now key hash).andFinally
      (releaseReservation streakRepairNamespace key)).Leased
      (Redis.reserved (reservationKey streakRepairNamespace key)) barred true :=
    Leased.andFinally (keeps_repairAndStore cfg tz tx timezone now) fun q hq => leased_release hq
  unfold streakRepair
  split
  · trivial
  · refine Leased.bind (W := fun _ => True) keeps_getCached fun record => ?_
    cases record with
    | some record => exact leased_of_all (W := fun _ => True) (keeps_repairReplay record)
    | none =>
      refine leased_acquire hown ?_
      refine Leased.bind (W := fun _ => True) (keeps_waitForCached polls) fun record => ?_
      cases record with
      | some record => exact leased_of_all (W := fun _ => True) (keeps_repairReplay record)
      | none => exact .inl ⟨hbarred, rfl⟩

/-- **What a request does to a reservation**: it sets it when it is free, and releases it when it has set it. -/
theorem program_leased (D : Deployment) (actorHash : String) (r : Request) (k : String) :
    (r.program D actorHash).Leased (Redis.reserved k) (r.RepairOn k) false := by
  by_cases hk : k = r.reservation
  · subst hk
    cases r with
    | submit env tx key payload => exact (leased_submitAttempt ..).map fun _ _ => trivial
    | repair tx timezone now polls key => exact leased_streakRepair rfl ..
  · exact leased_of_all ((program_all D actorHash r).mono (fun _ => id) fun β f hf kv => hf.reservations kv k hk)

end Programs

/-! ## The runs -/

section Runs

variable {D : Deployment} {actorHash : U → String} {owner : τ → U} {req : τ → Request} {rows : U → UserRows} {kv : Redis}
  {k : String} {s s' : Sys (Tenants U App) τ Body} {o : Option τ} {i : τ}

/-- No repair comes to its transaction with a reservation that it does not hold. -/
def OwnRepairs (req : τ → Request) (k : String) (s : Sys (Tenants U App) τ Body) (o : Option τ) (i : τ) : Prop :=
  (req i).RepairOn k → s.Locking i → o = some i

/-- The reservation is not lost while its request runs. -/
def Outlived (k : String) (s : Sys (Tenants U App) τ Body) (o : Option τ) (kv : Redis) : Prop :=
  Vanish s.shared.kv kv ∧ (kv.reservations k = false → ∀ i, o = some i → ¬ s.Running i)

/-- The requests of all users, with the holder of a reservation. -/
abbrev Users.HolderRun [DecidableEq τ] (D : Deployment) (actorHash : U → String) (owner : τ → U) (req : τ → Request)
    (rows : U → UserRows) (kv : Redis) (k : String) (A : Sys (Tenants U App) τ Body → Option τ → τ → Prop)
    (B : Sys (Tenants U App) τ Body → Option τ → Redis → Prop) :
    Sys (Tenants U App) τ Body → Option τ → Prop :=
  Txn.HolderRun (I := Tenants U App) (Redis.reserved k) A B (Users.start D actorHash owner req rows kv)

/-- **Only the holder releases a reservation**, among any requests of any users, when no reservation is lost while its
request runs and no repair goes on that has not got its own. -/
theorem released_by_holder [DecidableEq τ]
    (h : Users.HolderRun D actorHash owner req rows kv k (OwnRepairs req k) (Outlived k) s o)
    (ha : OwnRepairs req k s o i) (hs : s.step i = some s') (hset : s.shared.kv.reservations k = true)
    (hgone : s'.shared.kv.reservations k = false) : o = some i := by
  have hinit : Txn.HolderInv (I := Tenants U App) (Redis.reserved k) (fun i => (req i).RepairOn k)
      (Users.start D actorHash owner req rows kv) none := by
    refine ⟨fun hne => absurd rfl hne, fun j p reads view hj => ?_⟩
    cases hj
    exact (program_leased D (actorHash (owner j)) (req j) k).of (owner j)
  exact Txn.HolderRun.own (fun _ _ _ ha => ha) (fun _ _ _ hb => hb.2) hinit h ha hs hset hgone

end Runs

/-! ### Two requests with one key -/

namespace Reservations

/-- Two requests of one user, of which neither holds a reservation. -/
def pair (req : Bool → Request) : Sys (Tenants Unit App) Bool Body × Option Bool :=
  (Users.start (.small fun _ => 0) (fun _ => "user") (fun _ => ()) req (fun _ => lostStreakRows) .empty, none)

/-- Two repairs and two submissions with one key. -/
def repairs : Sys (Tenants Unit App) Bool Body × Option Bool := pair (bothRepair fun _ => "key")
def submissions : Sys (Tenants Unit App) Bool Body × Option Bool := pair bothSubmit

def ofRepairs : Redis → Bool := Redis.reserved (reservationKey streakRepairNamespace "key")
def ofSubmissions : Redis → Bool := Redis.reserved (reservationKey attemptsNamespace "key")

/-- A step of the thread takes the flag away from another one that holds it. -/
def Steals (held : Redis → Bool) (x : Sys (Tenants Unit App) Bool Body × Option Bool) (i : Bool) : Prop :=
  x.2 = some (!i) ∧ held x.1.shared.kv = true ∧ (x.1.step i).map (fun s => held s.shared.kv) = some false

instance (held : Redis → Bool) (x : Sys (Tenants Unit App) Bool Body × Option Bool) (i : Bool) :
    Decidable (Steals held x i) := inferInstanceAs (Decidable (_ ∧ _ ∧ _))

/-- The second repair waits in vain while the first one holds the reservation, and comes to its release. -/
def afterWaiting : Sys (Tenants Unit App) Bool Body × Option Bool :=
  Sys.holderAfterwards (I := Tenants Unit App) ofRepairs repairs ([false, false] ++ List.replicate 12 true)

/-- The first submission has its reservation. -/
def reserving : Sys (Tenants Unit App) Bool Body × Option Bool :=
  Sys.holderAfterwards (I := Tenants Unit App) ofSubmissions submissions [false, false]

/-- It expires, the second submission gets one, and the first comes to its release. -/
def afterExpiry : Sys (Tenants Unit App) Bool Body × Option Bool :=
  Sys.holderAfterwards (I := Tenants Unit App) ofSubmissions (reserving.1.outside .empty, none)
    ([true, true] ++ List.replicate 13 false)

end Reservations

open Reservations in
/-- **A reservation released by another request**: by a repair that lost it and waited in vain, and by a submission whose
own has expired. -/
theorem released_of_another :
    (∃ x : Sys (Tenants Unit App) Bool Body × Option Bool,
      Txn.HolderRun (I := Tenants Unit App) ofRepairs (fun _ _ _ => True) (fun s _ kv => Vanish s.shared.kv kv)
        repairs.1 x.1 x.2 ∧ Steals ofRepairs x true) ∧
    ∃ x : Sys (Tenants Unit App) Bool Body × Option Bool,
      Txn.HolderRun (I := Tenants Unit App) ofSubmissions (fun _ _ _ => True) (fun s _ kv => Vanish s.shared.kv kv)
        submissions.1 x.1 x.2 ∧ Steals ofSubmissions x false := by
  refine ⟨⟨afterWaiting, ?_, by decide +kernel⟩, afterExpiry, ?_, by decide +kernel⟩
  · have hstart : Txn.HolderRun (I := Tenants Unit App) ofRepairs (fun _ _ _ => True)
        (fun s _ kv => Vanish s.shared.kv kv) repairs.1 repairs.1 repairs.2 := .start
    exact hstart.afterwards (fun _ _ _ => trivial) (by decide +kernel)
  · have hstart : Txn.HolderRun (I := Tenants Unit App) ofSubmissions (fun _ _ _ => True)
        (fun s _ kv => Vanish s.shared.kv kv) submissions.1 submissions.1 submissions.2 := .start
    have hreserving : Txn.HolderRun (I := Tenants Unit App) ofSubmissions (fun _ _ _ => True)
        (fun s _ kv => Vanish s.shared.kv kv) submissions.1 reserving.1 reserving.2 :=
      hstart.afterwards (fun _ _ _ => trivial) (by decide +kernel)
    have hvanish : Vanish reserving.1.shared.kv Redis.empty :=
      ⟨fun _ => .inl rfl, fun _ h => absurd h Bool.false_ne_true⟩
    exact Txn.HolderRun.afterwards (I := Tenants Unit App) (fun _ _ _ => trivial)
      (hreserving.outside Redis.empty hvanish) (by decide +kernel)

open Reservations in
/-- A submission releases its own. -/
theorem released_by_holder_submission :
    (Sys.holderAfterwards (I := Tenants Unit App) ofSubmissions submissions (List.replicate 15 false)).2 = some false := by
  have hstart : Users.HolderRun (.small fun _ => 0) (fun _ => "user") (fun _ => ()) bothSubmit (fun _ => lostStreakRows)
      .empty (reservationKey attemptsNamespace "key") (OwnRepairs bothSubmit (reservationKey attemptsNamespace "key"))
      (Outlived (reservationKey attemptsNamespace "key")) submissions.1 submissions.2 := .start
  have hrun : Users.HolderRun (.small fun _ => 0) (fun _ => "user") (fun _ => ()) bothSubmit (fun _ => lostStreakRows)
      .empty (reservationKey attemptsNamespace "key") (OwnRepairs bothSubmit (reservationKey attemptsNamespace "key"))
      (Outlived (reservationKey attemptsNamespace "key"))
      (Sys.holderAfterwards (I := Tenants Unit App) ofSubmissions submissions (List.replicate 15 false)).1
      (Sys.holderAfterwards (I := Tenants Unit App) ofSubmissions submissions (List.replicate 15 false)).2 :=
    hstart.afterwards (fun _ _ i hrepair => by cases i <;> exact False.elim hrepair) (by decide +kernel)
  have hstep : (((Sys.holderAfterwards (I := Tenants Unit App) ofSubmissions submissions
      (List.replicate 15 false)).1.step false).map fun s => ofSubmissions s.shared.kv) = some false := by decide +kernel
  obtain ⟨s', hs, hgone⟩ := Option.map_eq_some_iff.mp hstep
  exact released_by_holder hrun (fun hrepair => False.elim hrepair) hs (by decide +kernel) hgone

end CodeReader
