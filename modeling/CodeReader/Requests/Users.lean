import CodeReader.Requests.RepairOwner
import CodeReader.Requests.Serializable

/-!
# Requests of several users

All users share one Redis, in which the records of a route are kept under the key that the client sends, without the
user.

* `Separate`, `SameFor` — no other user sends a key of the kept users, and two runs that are the same for them;
* `users_separate` — **the result**: then the others change nothing for them; and a repair is never answered with the
  repair of another user, whatever the keys;
* `users_share_keys` — a repair refused, and a submission swallowed, because another user had sent the key.
-/

namespace CodeReader

open Txn Prog

variable {U τ : Type} [DecidableEq U]

/-- The requests of all users at their start: `owner i` sends `req i`. -/
def Users.start (D : Deployment) (actorHash : U → String) (owner : τ → U) (req : τ → Request) (rows : U → UserRows)
    (kv : Redis) : Sys (Tenants U App) τ Body :=
  Tenants.start (I := App) owner rows kv fun i => (req i).program D (actorHash (owner i))

/-- No user outside `kept` sends a key that a user of `kept` sends on the same route. -/
def Separate (owner : τ → U) (kept : U → Bool) (req : τ → Request) : Prop :=
  ∀ i j, kept (owner i) = true → kept (owner j) = false → (req i).route = (req j).route →
    (req i).idempotencyKey ≠ (req j).idempotencyKey

/-- For the kept users both runs are the same: what their requests ended in, and their rows. -/
structure SameFor (owner : τ → U) (kept : U → Bool) (s t : Sys (Tenants U App) τ Body) : Prop where
  results : ∀ i, kept (owner i) = true → (s.threads i).result = (t.threads i).result
  rows : ∀ u, kept u = true → s.shared.db u = t.shared.db u

/-! ## The keys of the kept users -/

/-- The two Redis hold the same at the keys of the kept users. -/
def AgreeFor (owner : τ → U) (kept : U → Bool) (req : τ → Request) (kv kv' : Redis) : Prop :=
  ∀ i, kept (owner i) = true → AgreeAt (req i).route (req i).idempotencyKey kv kv'

section Keys

omit [DecidableEq U]

variable {owner : τ → U} {kept : U → Bool} {req : τ → Request} {i : τ}

/-- A command on the key of a kept user sees, and leaves, the same. -/
theorem sees_of_onKey (hi : kept (owner i) = true) {β : Type} {f : Redis → β × Redis}
    (hf : OnKey (req i).route (req i).idempotencyKey β f) :
    Sees (I := App) (AgreeFor owner kept req) β f := by
  intro kv kv' h
  obtain ⟨htakes, hleaves⟩ := hf.sees kv kv' (h i hi)
  refine ⟨htakes, fun j hj => ⟨?_, ?_⟩⟩
  · by_cases hk : idemKey (req j).route (req j).idempotencyKey = idemKey (req i).route (req i).idempotencyKey
    · rw [hk]
      exact hleaves.records
    · rw [hf.records kv _ hk, hf.records kv' _ hk]
      exact (h j hj).records
  · by_cases hk : reservationKey (req j).route (req j).idempotencyKey =
        reservationKey (req i).route (req i).idempotencyKey
    · rw [hk]
      exact hleaves.reservations
    · rw [hf.reservations kv _ hk, hf.reservations kv' _ hk]
      exact (h j hj).reservations

/-- A command on a key that no kept user sends is not seen by them. -/
theorem hides_of_onKey (hsep : Separate owner kept req) (hi : kept (owner i) = false) {β : Type}
    {f : Redis → β × Redis} (hf : OnKey (req i).route (req i).idempotencyKey β f) :
    Hides (I := App) (AgreeFor owner kept req) β f := by
  intro kv kv' h j hj
  refine ⟨?_, ?_⟩
  · rw [hf.records kv]
    · exact (h j hj).records
    · intro hk
      obtain ⟨hroute, hkey⟩ := Request.idemKey_inj hk
      exact hsep j i hj hi hroute hkey
  · rw [hf.reservations kv]
    · exact (h j hj).reservations
    · intro hk
      obtain ⟨hroute, hkey⟩ := Request.reservationKey_inj hk
      exact hsep j i hj hi hroute hkey

/-- Redis changes alike where it is alike. -/
theorem expiry_agreeFor {kv kv' kv'' : Redis} (he : Expiry kv kv') (h : AgreeFor owner kept req kv kv'') :
    ∃ kv₃, Expiry kv'' kv₃ ∧ AgreeFor owner kept req kv' kv₃ := by
  classical
  -- at the keys of the kept users what the one becomes, elsewhere what the other was
  let kept₁ : String → Prop := fun k => ∃ i, kept (owner i) = true ∧ idemKey (req i).route (req i).idempotencyKey = k
  let kept₂ : String → Prop := fun k =>
    ∃ i, kept (owner i) = true ∧ reservationKey (req i).route (req i).idempotencyKey = k
  refine ⟨⟨fun k => if kept₁ k then kv'.records k else kv''.records k,
    fun k => if kept₂ k then kv'.reservations k else kv''.reservations k⟩, fun k => ?_, fun i hi => ⟨?_, ?_⟩⟩
  · dsimp only
    by_cases hk : kept₁ k
    · rw [if_pos hk]
      obtain ⟨i, hi, rfl⟩ := hk
      rw [← (h i hi).records]
      exact he _
    · rw [if_neg hk]
      exact .inr rfl
  · exact (if_pos ⟨i, hi, rfl⟩).symm
  · exact (if_pos ⟨i, hi, rfl⟩).symm

end Keys

/-! ## The runs -/

section Runs

variable {D : Deployment} {actorHash : U → String} {owner : τ → U} {req : τ → Request}
  {rows : U → UserRows} {kv : Redis} {s : Sys (Tenants U App) τ Body}

/-- Without the other users the run is the same for the kept ones. -/
theorem users_purge [DecidableEq τ] {kept : U → Bool} (hsep : Separate owner kept req)
    (h : Reach (I := Tenants U App) Expiry anyCommit (Users.start D actorHash owner req rows kv) s) :
    ∃ t, Reach (I := Tenants U App) Expiry anyCommit
      ((Users.start D actorHash owner req rows kv).keep fun i => kept (owner i)) t ∧ SameFor owner kept s t := by
  have hprog : ∀ i, ((req i).program D (actorHash (owner i))).All (fun _ => True)
      (if kept (owner i) then Sees (I := App) (AgreeFor owner kept req) else Hides (I := App) (AgreeFor owner kept req)) := by
    intro i
    refine (program_all D (actorHash (owner i)) (req i)).mono (fun _ _ => trivial) fun β f hf => ?_
    cases hi : kept (owner i) with
    | true => exact sees_of_onKey hi hf
    | false => exact hides_of_onKey hsep hi hf
  obtain ⟨t, ht, hp⟩ := Reach.purge (I := App) (E := AgreeFor owner kept req) (fun i _ => ⟨rfl, rfl⟩)
    (fun kv kv' kv'' he hE => expiry_agreeFor he hE) hprog h
  exact ⟨t, ht, fun i hi => (hp.threads i hi).result, hp.db⟩

/-- The rules of the runs, as far as records of repairs go. -/
theorem repair_rules (hhash : Function.Injective actorHash)
    (hkv : ∀ key, kv.records (idemKey streakRepairNamespace key) = none) :
    Rules (I := Tenants U App) Expiry (Users.start D actorHash owner req rows kv)
      (fun i _ S S' => RepairRely (actorHash (owner i)) (S.tenant (owner i)) (S'.tenant (owner i)))
      (fun i _ _ S S' => RepairGuarantee (actorHash (owner i)) (S.tenant (owner i)) (S'.tenant (owner i)) ∧
        ∀ u, u ≠ owner i → S'.db u = S.db u)
      (fun i x S => (req i).route = streakRepairNamespace → ∀ body, x = .ok body → RepairedTo body (S.db (owner i))) where
  refl i l S := .refl _
  trans i l S₁ S₂ S₃ h h' := h.trans h'
  outside i l S kv' he := by
    refine ⟨fun _ => id, fun hr key record hk hh => ?_⟩
    rcases he (idemKey streakRepairNamespace key) with hn | hs
    · rw [Shared.tenant, hn] at hk
      cases hk
    · exact hr key record (hs ▸ hk) hh
  compat s i j a S' hji hG := by
    obtain ⟨hG, hdb⟩ := hG
    by_cases hu : owner j = owner i
    · rw [hu]
      exact hG.toRepairRely
    · -- of another user: the rows stay, and no record comes with this user's hash
      refine ⟨fun e he => ?_, fun hr key record hk hh => ?_⟩
      · simp only [Shared.tenant, hdb _ hu] at he ⊢
        exact he
      · rcases hG.others key record hk with hold | hown
        · have h := hr key record hold hh
          simp only [Shared.tenant, hdb _ hu] at h ⊢
          exact h
        · exact absurd (hhash (hh.symm.trans hown)) hu
  stable i x S S' h hr hroute body he := (h hroute body he).mono hr.events
  start i := by
    refine good_start (I := Tenants U App) (wp_of (fun _ _ _ h => h) (fun _ _ _ _ hg hdb => ⟨hg, hdb⟩) (fun x L S h => h)
      onTenant_id.symm (wp_repairs D (req i) ?_))
    intro key record hk
    rw [Shared.tenant, hkv] at hk
    cases hk

/-- **Users who send no key of each other's are separate**: in every run of any requests of any users, if nobody outside
a set of users sends a key of theirs on the same route, then there is a run without the others that is the same for
them.  And a repair is never answered with the repair of another user, whatever the keys. -/
theorem users_separate [DecidableEq τ]
    (h : Reach (I := Tenants U App) Expiry anyCommit (Users.start D actorHash owner req rows kv) s) :
    (∀ kept, Separate owner kept req → ∃ t, Reach (I := Tenants U App) Expiry anyCommit
      ((Users.start D actorHash owner req rows kv).keep fun i => kept (owner i)) t ∧ SameFor owner kept s t) ∧
    (Function.Injective actorHash → (∀ key, kv.records (idemKey streakRepairNamespace key) = none) →
      ∀ i body, (req i).route = streakRepairNamespace → s.threads i = .done (.ok body) →
        RepairedTo body (s.shared.db (owner i))) := by
  refine ⟨fun kept hsep => users_purge hsep h, fun hhash hkv i body hroute hdone => ?_⟩
  have hgood := Reach.good (repair_rules hhash hkv) h i
  rw [Good, hdone] at hgood
  exact hgood.2 hroute body rfl

end Runs

/-! ### Two users -/

/-- Two users, each after a reset. -/
def Users.small (req : Bool → Request) : Sys (Tenants Bool App) Bool Body :=
  Users.start (.small fun _ => 0) (fun u => if u then "second" else "first") id req (fun _ => lostStreakRows) .empty

/-- Both repair, with these keys. -/
def bothRepair (keys : Bool → String) (u : Bool) : Request :=
  .repair ⟨6 * microsPerDay, fun k => (if u then 600 else 500) + k, 0⟩ "UTC" (6 * microsPerDay) 0 (keys u)

/-- Both submit the same exercise with the same key and the same body. -/
def bothSubmit : Bool → Request
  | false => .small 4 4 6 "key"
  | true => .small 5 4 6 "key"

/-- The request of the second user runs behind the one of the first. -/
def behindFirst (n : Nat) : List Bool := List.replicate n false ++ [true, true]

/-- With keys of their own both repair, as each does without the other. -/
theorem users_separate_repairs :
    let start := Users.small (bothRepair fun u => if u then "second key" else "first key")
    let s := start.after anyCommit (List.replicate 13 false ++ List.replicate 13 true)
    (∃ t, Reach (I := Tenants Bool App) Expiry anyCommit (start.keep id) t ∧
      (t.threads true).result = some (.ok (.repair 3))) ∧ RepairedTo (.repair 3) (s.shared.db true) := by
  intro start s
  have hreach : Reach (I := Tenants Bool App) Expiry anyCommit start s := Reach.after (by decide +kernel)
  obtain ⟨hpurge, hown⟩ := users_separate hreach
  have hresult : (s.threads true).result = some (.ok (.repair 3)) := by decide +kernel
  have hhash : Function.Injective fun u : Bool => if u then "second" else "first" := by
    intro u v he
    cases u <;> cases v <;> first | rfl | exact absurd he (by decide)
  have hsep : Separate id id (bothRepair fun u => if u then "second key" else "first key") := by
    intro i j hi hj _
    cases i <;> cases j <;> simp [bothRepair, Request.idempotencyKey] at hi hj ⊢
  refine ⟨?_, hown hhash (fun _ => rfl) true (.repair 3) rfl ?_⟩
  · obtain ⟨t, ht, hsame⟩ := hpurge id hsep
    exact ⟨t, ht, (hsame.results true rfl).symm.trans hresult⟩
  · exact Thread.done_of_result hresult

/-- **Users share their keys.**  The second user's repair is refused because the first one sent the key, and the second
user's submission is answered with the body of the first one's attempt and inserts none; without the first user both
go through. -/
theorem users_share_keys :
    (∃ s t, Reach (I := Tenants Bool App) Expiry anyCommit (Users.small (bothRepair fun _ => "key")) s ∧
      Reach (I := Tenants Bool App) Expiry anyCommit ((Users.small (bothRepair fun _ => "key")).keep id) t ∧
      (s.threads true).result = some (.error idempotencyConflict) ∧
      (t.threads true).result = some (.ok (.repair 3)) ∧ ¬ SameFor id id s t) ∧
    ∃ s t, Reach (I := Tenants Bool App) Expiry anyCommit (Users.small bothSubmit) s ∧
      Reach (I := Tenants Bool App) Expiry anyCommit ((Users.small bothSubmit).keep id) t ∧
      (s.threads true).result = (s.threads false).result ∧
      (s.shared.db true).attempts.length = lostStreakRows.attempts.length ∧
      (t.shared.db true).attempts.length = lostStreakRows.attempts.length + 1 ∧ ¬ SameFor id id s t := by
  refine ⟨⟨(Users.small (bothRepair fun _ => "key")).after anyCommit (behindFirst 13),
    ((Users.small (bothRepair fun _ => "key")).keep id).after anyCommit (List.replicate 13 true),
    Reach.after (by decide +kernel), Reach.after (by decide +kernel), by decide +kernel, by decide +kernel,
    fun h => absurd (h.results true rfl) (by decide +kernel)⟩,
    (Users.small bothSubmit).after anyCommit (behindFirst 17),
    ((Users.small bothSubmit).keep id).after anyCommit (List.replicate 17 true),
    Reach.after (by decide +kernel), Reach.after (by decide +kernel), by decide +kernel, by decide +kernel,
    by decide +kernel, fun h => absurd (h.rows true rfl) (by decide +kernel)⟩

end CodeReader
