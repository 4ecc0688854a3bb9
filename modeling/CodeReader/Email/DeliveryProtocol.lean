import CodeReader.Email.Dispatch

/-!
# The protocol of a delivery

A delivery as its row stands and as it has been observed: who claimed it last, and the calls to the sender.

* `Claim`, `Call`, `observed` — what a run shows of a delivery;
* `DeliveryStep` — all that a thread may do to a delivery;
* `Sound` — what holds of a delivery at all times (`DeliveryStep.sound`);
* `Undisturbed` — what a thread that has the row's lock, or the claim, can rely on (`DeliveryStep.undisturbed`).
-/

namespace CodeReader.Email

open Txn Prog

variable {τ : Type}

/-! ## What a run shows -/

/-- A claim: by whom, when, for which address, and the address of the user at that moment. -/
structure Claim (τ : Type) where
  thread : τ
  now : Int
  email : String
  address : Option String

/-- A call to the sender, under the last claim. -/
structure Call (τ : Type) where
  thread : τ
  claim : Option (Claim τ)
  message : OutboundEmail

structure Observed (τ : Type) where
  claim : Option (Claim τ)
  calls : List (Call τ)
  inProgress : Option τ
  /-- A call was made while another was in progress. -/
  overlapped : Bool

namespace Observed

def none : Observed τ := ⟨.none, [], .none, false⟩

def claiming (o : Observed τ) (c : Claim τ) : Observed τ := { o with claim := some c }

def calling (o : Observed τ) (i : τ) (message : OutboundEmail) : Observed τ :=
  { o with calls := o.calls ++ [⟨i, o.claim, message⟩], inProgress := some i, overlapped := o.overlapped || o.inProgress.isSome }

def answering (o : Observed τ) : Observed τ := { o with inProgress := .none }

/-- One more event. -/
def after (key : DeliveryKey) (o : Observed τ) : τ × EmailEv → Observed τ
  | (i, .claimed k now email address) => if k = key then o.claiming ⟨i, now, email, address⟩ else o
  | (i, .called k message) => if k = key then o.calling i message else o
  | (_, .answered k) => if k = key then o.answering else o
  | _ => o

end Observed

def observed (key : DeliveryKey) (trace : List (τ × EmailEv)) : Observed τ := trace.foldl (Observed.after key) .none

theorem observed_append_singleton (key : DeliveryKey) (trace : List (τ × EmailEv)) (e : τ × EmailEv) :
    observed key (trace ++ [e]) = (observed key trace).after key e := by
  rw [observed, List.foldl_append]
  rfl

/-- A delivery as it stands. -/
structure Standing (τ : Type) where
  row : Option EmailDelivery
  obs : Observed τ

def standing (key : DeliveryKey) (S : Shared App τ) : Standing τ := ⟨S.db.delivery key, observed key S.trace⟩

/-- The row is claimed. -/
def Standing.Taken (v : Standing τ) : Prop := ∃ row, v.row = some row ∧ row.status = .claimed

/-- The row is claimed, and the last claim is this one. -/
structure Standing.ClaimedBy (v : Standing τ) (c : Claim τ) (row : EmailDelivery) : Prop where
  claim : v.obs.claim = some c
  stands : v.row = some row
  status : row.status = .claimed

/-! ## Steps -/

/-- What thread `i` may do to a delivery: with the lock of its row, or as the one that has claimed it.  `last` is what
the thread has shown last. -/
inductive DeliveryStep (settings : LedgerSettings) (key : DeliveryKey) (i : τ) (locked : Prop) (last : Option EmailEv)
    (v : Standing τ) : Standing τ → Prop
  | same : DeliveryStep settings key i locked last v v
  | claiming {c : Claim τ} (hlock : locked) (hfree : ¬ v.Taken) (hc : c.thread = i) :
    DeliveryStep settings key i locked last v { v with obs := v.obs.claiming c }
  | opened {c : Claim τ} (hlock : locked) (hrow : v.row = none) (hclaim : v.obs.claim = some c) (hc : c.thread = i)
    (hlast : last = some (.claimed key c.now c.email c.address)) :
    DeliveryStep settings key i locked last v { v with row := some (.opened key c.now) }
  | reclaimed {c : Claim τ} {row : EmailDelivery} (hlock : locked) (hrow : v.row = some row)
    (hretry : row.retryable settings c.now = true) (hclaim : v.obs.claim = some c) (hc : c.thread = i)
    (hlast : last = some (.claimed key c.now c.email c.address)) :
    DeliveryStep settings key i locked last v { v with row := some (row.reclaimed c.now) }
  | stored {c : Claim τ} {row : EmailDelivery} (payload : Payload) (hlock : locked) (hv : v.ClaimedBy c row)
    (hc : c.thread = i) (hnone : row.payload = none) (hto : payload.toAddress = c.email) :
    DeliveryStep settings key i locked last v { v with row := some { row with payload := some payload } }
  | calling {c : Claim τ} {row : EmailDelivery} {payload : Payload} (hv : v.ClaimedBy c row) (hc : c.thread = i)
    (hpayload : row.payload = some payload) (hidle : v.obs.inProgress = none)
    (hroom : v.obs.calls.length < row.attempts) :
    DeliveryStep settings key i locked last v { v with obs := v.obs.calling i ((messageFromPayload payload).keyed key) }
  | answering {c : Claim τ} {row : EmailDelivery} (hv : v.ClaimedBy c row) (hc : c.thread = i) :
    DeliveryStep settings key i locked last v { v with obs := v.obs.answering }
  | finished {c : Claim τ} {row : EmailDelivery} (status : DeliveryStatus) (lastError : Option String) (now : Int)
    (hlock : locked) (hv : v.ClaimedBy c row) (hc : c.thread = i) (hidle : v.obs.inProgress = none)
    (hstatus : status ≠ .claimed) (hpayload : status = .failed → row.payload.isSome) :
    DeliveryStep settings key i locked last v { v with row := some (row.finished status lastError now) }

section Steps

variable {settings : LedgerSettings} {key : DeliveryKey} {i : τ} {locked : Prop} {last : Option EmailEv}
  {v v' : Standing τ}

theorem Standing.ClaimedBy.taken {c : Claim τ} {row : EmailDelivery} (h : v.ClaimedBy c row) : v.Taken :=
  ⟨row, h.stands, h.status⟩

/-- A row that is not claimed. -/
theorem not_taken_of_row {row : EmailDelivery} (hrow : v.row = some row) (hstatus : row.status ≠ .claimed) : ¬ v.Taken := by
  rintro ⟨row', hrow', hclaimed⟩
  rw [hrow] at hrow'
  cases hrow'
  exact hstatus hclaimed

theorem not_taken_of_none (hrow : v.row = none) : ¬ v.Taken := by
  rintro ⟨row', hrow', -⟩
  rw [hrow] at hrow'
  cases hrow'

theorem retryable_iff {row : EmailDelivery} {now : Int} : row.retryable settings now = true ↔
    row.status = .failed ∧ row.attempts < settings.maxAttempts ∧ now - settings.retryWindow < row.claimedAt := by
  rw [EmailDelivery.retryable, Bool.and_eq_true, Bool.and_eq_true, beq_iff_eq, decide_eq_true_eq, decide_eq_true_eq, and_assoc]

/-! ## What holds at all times -/

/-- No more calls than attempts, no more attempts than allowed; every call was of the payload that is stored; a call is in
progress only under the claim. -/
structure Sound (settings : LedgerSettings) (key : DeliveryKey) (v : Standing τ) : Prop where
  room : ∀ row, v.row = some row → v.obs.calls.length ≤ row.attempts ∧ row.attempts ≤ settings.maxAttempts
  fresh : v.row = none → v.obs.calls = []
  sent : ∀ call ∈ v.obs.calls, ∃ row payload, v.row = some row ∧ row.payload = some payload ∧
    call.message = (messageFromPayload payload).keyed key
  progress : ∀ j, v.obs.inProgress = some j → v.Taken ∧ ∃ c, v.obs.claim = some c ∧ c.thread = j
  single : v.obs.overlapped = false

theorem sound_start (settings : LedgerSettings) (key : DeliveryKey) : Sound (τ := τ) settings key ⟨none, .none⟩ where
  room := nofun
  fresh := fun _ => rfl
  sent := fun _ h => absurd h List.not_mem_nil
  progress := nofun
  single := rfl

/-- The row is written, and keeps what the calls were of. -/
theorem Sound.of_row {row row' : EmailDelivery} (h : Sound settings key v) (hrow : v.row = some row)
    (hidle : v.obs.inProgress = none) (hattempts : row.attempts ≤ row'.attempts)
    (hmax : row'.attempts ≤ settings.maxAttempts) (hpayload : ∀ p, row.payload = some p → row'.payload = some p) :
    Sound settings key { v with row := some row' } where
  room := by
    rintro _ ⟨⟩
    exact ⟨(h.room row hrow).1.trans hattempts, hmax⟩
  fresh := nofun
  sent := fun call hcall => by
    obtain ⟨row₀, payload, hrow₀, hp, hmessage⟩ := h.sent call hcall
    rw [hrow] at hrow₀
    cases hrow₀
    exact ⟨row', payload, rfl, hpayload payload hp, hmessage⟩
  progress := fun j hj => by
    rw [hidle] at hj
    cases hj
  single := h.single

theorem Sound.idle (h : Sound settings key v) (hfree : ¬ v.Taken) : v.obs.inProgress = none := by
  cases hj : v.obs.inProgress with
  | none => rfl
  | some j => exact absurd (h.progress j hj).1 hfree

/-- **Every step keeps a delivery sound.** -/
theorem DeliveryStep.sound (hmax : 1 ≤ settings.maxAttempts) (hstep : DeliveryStep settings key i locked last v v')
    (h : Sound settings key v) : Sound settings key v' := by
  cases hstep with
  | same => exact h
  | claiming hlock hfree hc =>
    refine ⟨h.room, h.fresh, h.sent, fun j hj => ?_, h.single⟩
    exact absurd (h.progress j hj).1 hfree
  | opened hlock hrow hclaim hc hlast =>
    have hcalls := h.fresh hrow
    refine ⟨?_, nofun, fun call hcall => ?_, fun j hj => ?_, h.single⟩
    · rintro _ ⟨⟩
      rw [hcalls]
      exact ⟨Nat.zero_le _, hmax⟩
    · rw [hcalls] at hcall
      exact absurd hcall List.not_mem_nil
    · exact absurd (h.progress j hj).1 (not_taken_of_none hrow)
  | @reclaimed c row hlock hrow hretry hclaim hc hlast =>
    obtain ⟨hfailed, hroom, -⟩ := retryable_iff.mp hretry
    have hfree : ¬ v.Taken := not_taken_of_row hrow (by rw [hfailed]; exact nofun)
    exact h.of_row hrow (h.idle hfree) (Nat.le_succ _) hroom fun p hp => hp
  | @stored c row payload hlock hv hc hnone hto =>
    -- nothing has been sent under this claim, and nothing before it
    have hcalls : v.obs.calls = [] := List.eq_nil_iff_forall_not_mem.mpr fun call hcall => by
      obtain ⟨row₀, p, hrow₀, hp, -⟩ := h.sent call hcall
      rw [hv.stands] at hrow₀
      cases hrow₀
      rw [hnone] at hp
      cases hp
    refine ⟨?_, nofun, fun call hcall => ?_, fun j hj => ?_, h.single⟩
    · rintro _ ⟨⟩
      exact h.room row hv.stands
    · rw [hcalls] at hcall
      exact absurd hcall List.not_mem_nil
    · exact ⟨⟨_, rfl, hv.status⟩, (h.progress j hj).2⟩
  | @calling c row payload hv hc hpayload hidle hroom =>
    refine ⟨fun row' hrow' => ?_, fun hrow' => ?_, fun call hcall => ?_, ?_, ?_⟩
    · have hsame : row' = row := Option.some.inj (hrow'.symm.trans hv.stands)
      rw [hsame]
      change (v.obs.calls ++ _).length ≤ _ ∧ _
      rw [List.length_append]
      exact ⟨hroom, (h.room row hv.stands).2⟩
    · exact absurd (hrow'.symm.trans hv.stands) nofun
    · rcases List.mem_append.mp hcall with hcall | hcall
      · exact h.sent call hcall
      · rw [List.mem_singleton.mp hcall]
        exact ⟨row, payload, hv.stands, hpayload, rfl⟩
    · rintro j ⟨⟩
      exact ⟨hv.taken, c, hv.claim, hc⟩
    · change (v.obs.overlapped || v.obs.inProgress.isSome) = false
      rw [h.single, hidle]
      rfl
  | answering hv hc => exact ⟨h.room, h.fresh, h.sent, nofun, h.single⟩
  | @finished c row status lastError now hlock hv hc hidle hstatus hpayload =>
    exact h.of_row hv.stands hidle le_rfl (h.room row hv.stands).2 fun p hp => hp

/-! ## What others leave -/

/-- Between two steps of thread `j`: the row that it has locked stays, and so does a delivery that it has claimed. -/
structure Undisturbed (j : τ) (locked : Prop) (v v' : Standing τ) : Prop where
  row : locked → v'.row = v.row
  obs : locked → ¬ v.Taken → v'.obs = v.obs
  claimed : ∀ c row, v.ClaimedBy c row → c.thread = j → v' = v

theorem Undisturbed.refl (j : τ) (locked : Prop) (v : Standing τ) : Undisturbed j locked v v :=
  ⟨fun _ => rfl, fun _ _ => rfl, fun _ _ _ _ => rfl⟩

theorem Undisturbed.trans {j : τ} {v'' : Standing τ} (h : Undisturbed j locked v v') (h' : Undisturbed j locked v' v'') :
    Undisturbed j locked v v'' where
  row := fun hl => (h'.row hl).trans (h.row hl)
  obs := fun hl hfree => by
    have htaken : ¬ v'.Taken := fun ⟨row, hrow, hstatus⟩ => hfree ⟨row, (h.row hl).symm.trans hrow, hstatus⟩
    exact (h'.obs hl htaken).trans (h.obs hl hfree)
  claimed := fun c row hv hc => by
    have hsame := h.claimed c row hv hc
    exact (h'.claimed c row (hsame.symm ▸ hv) hc).trans hsame

/-- **A step leaves the deliveries of the others**: they do not have its lock, nor its claim. -/
theorem DeliveryStep.undisturbed (hstep : DeliveryStep settings key i locked last v v') {j : τ} {locked' : Prop}
    (hj : j ≠ i) (hlocks : locked → ¬ locked') : Undisturbed j locked' v v' := by
  have hother : ∀ {c row}, v.ClaimedBy c row → c.thread = i → ∀ c' row', v.ClaimedBy c' row' → c'.thread = j → v' = v :=
    fun hv hc c' row' hv' hc' => by
      have hsame := Option.some.inj (hv.claim.symm.trans hv'.claim)
      exact absurd (hc'.symm.trans (hsame ▸ hc)) hj
  cases hstep with
  | same => exact .refl j locked' v
  | claiming hlock hfree hc =>
    exact ⟨fun h => absurd h (hlocks hlock), fun h => absurd h (hlocks hlock), fun c row hv _ => absurd hv.taken hfree⟩
  | opened hlock hrow hclaim hc hlast =>
    exact ⟨fun h => absurd h (hlocks hlock), fun h => absurd h (hlocks hlock),
      fun c row hv _ => absurd hv.taken (not_taken_of_none hrow)⟩
  | reclaimed hlock hrow hretry hclaim hc hlast =>
    refine ⟨fun h => absurd h (hlocks hlock), fun h => absurd h (hlocks hlock), fun c row hv _ => absurd hv.taken ?_⟩
    exact not_taken_of_row hrow (by rw [(retryable_iff.mp hretry).1]; exact nofun)
  | stored payload hlock hv hc hnone hto =>
    exact ⟨fun h => absurd h (hlocks hlock), fun h => absurd h (hlocks hlock), hother hv hc⟩
  | calling hv hc hpayload hidle hroom => exact ⟨fun _ => rfl, fun _ hfree => absurd hv.taken hfree, hother hv hc⟩
  | answering hv hc => exact ⟨fun _ => rfl, fun _ hfree => absurd hv.taken hfree, hother hv hc⟩
  | finished status lastError now hlock hv hc hidle hstatus hpayload =>
    exact ⟨fun h => absurd h (hlocks hlock), fun h => absurd h (hlocks hlock), hother hv hc⟩

/-! ## What stays -/

/-- What was sent or skipped stays so, without calls. -/
theorem DeliveryStep.settled (hstep : DeliveryStep settings key i locked last v v') {row : EmailDelivery}
    (hrow : v.row = some row) (hsettled : row.status = .sent ∨ row.status = .skipped) :
    v'.row = some row ∧ v'.obs.calls = v.obs.calls := by
  have hfree : ¬ v.Taken := not_taken_of_row hrow (by rcases hsettled with h | h <;> rw [h] <;> exact nofun)
  cases hstep with
  | same => exact ⟨hrow, rfl⟩
  | claiming hlock hfree hc => exact ⟨hrow, rfl⟩
  | opened hlock hnone hclaim hc hlast => exact absurd (hrow.symm.trans hnone) nofun
  | reclaimed hlock hrow' hretry hclaim hc hlast =>
    cases hrow.symm.trans hrow'
    rcases hsettled with h | h <;> exact absurd ((retryable_iff.mp hretry).1.symm.trans h) nofun
  | stored payload hlock hv hc hnone hto => exact absurd hv.taken hfree
  | calling hv hc hpayload hidle hroom => exact absurd hv.taken hfree
  | answering hv hc => exact absurd hv.taken hfree
  | finished status lastError now hlock hv hc hidle hstatus hpayload => exact absurd hv.taken hfree

end Steps

end CodeReader.Email
