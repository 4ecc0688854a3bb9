import CodeReader.Email.SentOnce

/-!
# The window of retries

A claim is repeated while the last one is within the window, so the window slides with each of them.

* `InWindow` — the calls of a delivery come within the window after the first;
* `timely` — the condition: a delivery is not claimed a third time, or later, when the window after its first call is over;
* `Anchored` — what carries the window (`DeliveryStep.anchored`);
* `calls_in_window` — **the result**;
* `window_slides` — what happens otherwise.
-/

namespace CodeReader.Email

open Txn Prog

variable {τ : Type}

/-- The claim of the first call. -/
def Observed.firstClaim (o : Observed τ) : Option (Claim τ) := o.calls.head?.bind (·.claim)

/-- No later than the window after the first call; the time of a call is that of its claim. -/
def InWindow (window : Nat) (o : Observed τ) : Prop :=
  ∀ call ∈ o.calls, ∃ c₀ c, o.firstClaim = some c₀ ∧ call.claim = some c ∧ c.now ≤ c₀.now + window

/-- A claim at a time: if the row has been claimed twice before, the window after the first call is not over. -/
def inTime (settings : LedgerSettings) (now : Int) (v : Standing τ) : Bool :=
  v.row.all fun row => decide (row.attempts < 2) ||
    v.obs.firstClaim.all fun c₀ => decide (now ≤ c₀.now + settings.retryWindow)

/-- The commits of claims are in time. -/
def timely [DecidableEq τ] (settings : LedgerSettings) : τ → Local App → Shared App τ → Prop := fun i _ S =>
  match lastShown i S.trace with
  | some (.claimed key now _ _) => inTime settings now (standing key S) = true
  | _ => True

instance [DecidableEq τ] (settings : LedgerSettings) (i : τ) (l : Local App) (S : Shared App τ) :
    Decidable (timely settings i l S) := by
  unfold timely
  split <;> infer_instance

/-- What carries the window: the time of the claim stands in the row, and a row of one attempt has that of the first
call. -/
structure Anchored (settings : LedgerSettings) (v : Standing τ) : Prop where
  window : InWindow settings.retryWindow v.obs
  attempts : ∀ row, v.row = some row → 1 ≤ row.attempts
  fresh : v.row = none → v.obs.calls = []
  claimed : ∀ c row, v.ClaimedBy c row → row.claimedAt = c.now ∧
    ∀ c₀, v.obs.firstClaim = some c₀ → c.now ≤ c₀.now + settings.retryWindow
  first : ∀ row, v.row = some row → row.attempts = 1 → ∀ c₀, v.obs.firstClaim = some c₀ → c₀.now = row.claimedAt

section Window

variable {settings : LedgerSettings} {key : DeliveryKey} {i : τ} {locked : Prop} {last : Option EmailEv}
  {v v' : Standing τ}

theorem anchored_start (settings : LedgerSettings) : Anchored (τ := τ) settings ⟨none, .none⟩ where
  window _ h := absurd h List.not_mem_nil
  attempts _ h := by cases h
  fresh _ := rfl
  claimed _ _ h := by cases h.stands
  first _ h := by cases h

theorem firstClaim_of_nil {o : Observed τ} (h : o.calls = []) : o.firstClaim = none := by
  rw [Observed.firstClaim, h]
  rfl

/-- A further call leaves the first one. -/
theorem firstClaim_calling (o : Observed τ) (i : τ) (message : OutboundEmail) :
    (o.calling i message).firstClaim = if o.calls = [] then o.claim else o.firstClaim := by
  rw [Observed.firstClaim, Observed.calling]
  cases h : o.calls with
  | nil => rfl
  | cons call calls =>
    rw [Observed.firstClaim, h, if_neg (List.cons_ne_nil call calls)]
    rfl

/-- A row that is written under its claim. -/
theorem Anchored.of_row {c : Claim τ} {row row' : EmailDelivery} (h : Anchored settings v) (hv : v.ClaimedBy c row)
    (hattempts : row'.attempts = row.attempts) (hclaimedAt : row'.claimedAt = row.claimedAt) :
    Anchored settings { v with row := some row' } where
  window := h.window
  attempts := by
    rintro _ ⟨⟩
    exact hattempts ▸ h.attempts row hv.stands
  fresh h := by cases h
  claimed c' _ hv' := by
    obtain ⟨hclaim, hstands, hstatus⟩ := hv'
    cases hstands
    have hsame : c' = c := Option.some.inj (hclaim.symm.trans hv.claim)
    rw [hsame, hclaimedAt]
    exact h.claimed c row hv
  first := by
    rintro _ ⟨⟩ hone c₀ hc₀
    exact (h.first row hv.stands (hattempts ▸ hone) c₀ hc₀).trans hclaimedAt.symm

/-- **Every step keeps the window**, if the claims are in time. -/
theorem DeliveryStep.anchored (hstep : DeliveryStep settings key i locked last v v') (h : Anchored settings v)
    (htimely : v'.row ≠ v.row → ∀ now email address, last = some (.claimed key now email address) →
      inTime settings now v = true) : Anchored settings v' := by
  cases hstep with
  | same => exact h
  | claiming hlock hfree hc =>
    exact ⟨h.window, h.attempts, h.fresh, fun c row hv => absurd ⟨row, hv.stands, hv.status⟩ hfree, h.first⟩
  | @opened c hlock hrow hclaim hc hlast =>
    have hnone := firstClaim_of_nil (h.fresh hrow)
    refine ⟨h.window, ?_, fun h => (by cases h), fun c' row' hv => ?_, fun row' _ _ c₀ hc₀ => ?_⟩
    · rintro _ ⟨⟩
      exact le_rfl
    · obtain ⟨hclaim', hstands, -⟩ := hv
      cases hstands
      cases hclaim.symm.trans hclaim'
      exact ⟨rfl, fun c₀ hc₀ => by cases hnone.symm.trans hc₀⟩
    · cases hnone.symm.trans hc₀
  | @reclaimed c row hlock hrow hretry hclaim hc hlast =>
    obtain ⟨-, -, hwithin⟩ := retryable_iff.mp hretry
    have hpos := h.attempts row hrow
    have hne : some (row.reclaimed c.now) ≠ v.row := by
      rw [hrow]
      intro he
      have hsucc : row.attempts + 1 = row.attempts := congrArg EmailDelivery.attempts (Option.some.inj he)
      omega
    have htime := htimely hne c.now c.email c.address hlast
    refine ⟨h.window, ?_, fun h => (by cases h), fun c' row' hv => ?_, ?_⟩
    · rintro _ ⟨⟩
      exact Nat.le_add_left 1 row.attempts
    · obtain ⟨hclaim', hstands, -⟩ := hv
      cases hstands
      cases hclaim.symm.trans hclaim'
      refine ⟨rfl, fun c₀ hc₀ => ?_⟩
      by_cases hone : row.attempts = 1
      · -- the first retry: the guard is about the first call
        have hanchor := h.first row hrow hone c₀ hc₀
        omega
      · rw [inTime, hrow, Option.all_some, Bool.or_eq_true, decide_eq_true_eq] at htime
        rcases htime with hfew | htime
        · omega
        · have hfirst : (v.obs.firstClaim).all (fun c₀ => decide (c.now ≤ c₀.now + settings.retryWindow)) = true := htime
          rw [show v.obs.firstClaim = some c₀ from hc₀, Option.all_some, decide_eq_true_eq] at hfirst
          exact hfirst
    · rintro _ ⟨⟩ hone
      have hzero : row.attempts + 1 = 1 := hone
      omega
  | @stored c row payload hlock hv hc hnone hto => exact h.of_row hv rfl rfl
  | @calling c row payload hv hc hpayload hidle hroom =>
    have hclaimed := h.claimed c row hv
    have hsame : ∀ c' row', Standing.ClaimedBy { v with obs := v.obs.calling i ((messageFromPayload payload).keyed key) } c' row' →
        c' = c ∧ row' = row := fun c' row' hv' =>
      ⟨Option.some.inj (hv'.claim.symm.trans hv.claim), Option.some.inj (hv'.stands.symm.trans hv.stands)⟩
    have hfirst := firstClaim_calling v.obs i ((messageFromPayload payload).keyed key)
    by_cases hcalls : v.obs.calls = []
    · -- the first call
      rw [if_pos hcalls, hv.claim] at hfirst
      have hc₀ : ∀ c₀, (v.obs.calling i ((messageFromPayload payload).keyed key)).firstClaim = some c₀ → c₀ = c :=
        fun c₀ h => Option.some.inj (h.symm.trans hfirst)
      refine ⟨fun call hcall => ⟨c, c, hfirst, ?_, Int.le_add_of_nonneg_right (Int.natCast_nonneg _)⟩, h.attempts,
        fun hrow => absurd (hv.stands.symm.trans hrow) (Option.some_ne_none row), fun c' row' hv' => ?_,
        fun row' hrow hone c₀ hfirst' => ?_⟩
      · rw [Observed.calling, hcalls, List.nil_append] at hcall
        rw [List.mem_singleton.mp hcall]
        exact hv.claim
      · obtain ⟨rfl, rfl⟩ := hsame c' row' hv'
        refine ⟨hclaimed.1, fun c₀ hfirst' => ?_⟩
        rw [hc₀ c₀ hfirst']
        exact Int.le_add_of_nonneg_right (Int.natCast_nonneg _)
      · rw [hc₀ c₀ hfirst', ← hclaimed.1, Option.some.inj (hv.stands.symm.trans hrow)]
    · rw [if_neg hcalls] at hfirst
      obtain ⟨call₀, hcall₀⟩ := List.exists_mem_of_ne_nil _ hcalls
      obtain ⟨c₀, -, hc₀, -, -⟩ := h.window call₀ hcall₀
      refine ⟨fun call hcall => ?_, h.attempts,
        fun hrow => absurd (hv.stands.symm.trans hrow) (Option.some_ne_none row), fun c' row' hv' => ?_,
        fun row' hrow hone c₀ hfirst' => h.first row' hrow hone c₀ (hfirst.symm.trans hfirst')⟩
      · rcases List.mem_append.mp hcall with hcall | hcall
        · obtain ⟨c₀, c', hc₀, hc', hle⟩ := h.window call hcall
          exact ⟨c₀, c', hfirst.trans hc₀, hc', hle⟩
        · rw [List.mem_singleton.mp hcall]
          exact ⟨c₀, c, hfirst.trans hc₀, hv.claim, hclaimed.2 c₀ hc₀⟩
      · obtain ⟨rfl, rfl⟩ := hsame c' row' hv'
        exact ⟨hclaimed.1, fun c₀ hfirst' => hclaimed.2 c₀ (hfirst.symm.trans hfirst')⟩
  | answering hv hc =>
    exact ⟨h.window, h.attempts, h.fresh, fun c row hv => h.claimed c row ⟨hv.claim, hv.stands, hv.status⟩, h.first⟩
  | @finished c row status lastError now hlock hv hc hidle hstatus hpayload => exact h.of_row hv rfl rfl

end Window

section Runs

variable [DecidableEq τ] {settings : SweepSettings} {task : τ → Task} {db : EmailDb} {kv : Outside} {key : DeliveryKey}
  {s : Scripts App τ Answer}

theorem anchored_of_reach (hmax : 1 ≤ settings.maxAttempts) (hdb : db.deliveries = [])
    (h : Scripts.Reach (fun _ _ => True) (timely settings.toLedgerSettings) (Mail.start settings task db kv) s)
    (key : DeliveryKey) : Anchored settings.toLedgerSettings (standing key s.sys.shared) := by
  refine Scripts.Reach.inv (sweep_rules hmax hdb) (J := fun S => Anchored settings.toLedgerSettings (standing key S)) ?_
    (fun s i a S' _ _ hA hJ hG => (hG.deliveries key).anchored hJ fun hrow now email address hlast => ?_)
    (fun _ _ _ hJ => hJ) h
  · have hrow : db.delivery key = none := by
      rw [EmailDb.delivery, hdb]
      rfl
    show Anchored _ ⟨db.delivery key, _⟩
    rw [hrow]
    exact anchored_start _
  · -- rows change at commits only
    have ha : a = .commit := by
      by_contra hne
      exact hrow (congrArg (·.delivery key) (hG.tables hne))
    have htimely := hA ha
    rw [timely, hlast] at htimely
    exact htimely

end Runs

/-! ### Three ticks -/

/-- A window of three hours. -/
def threeHours : SweepSettings := { SweepSettings.default with retryWindow := (hours 3).toNat }

/-- A refusal of the provider that is worth another try. -/
def refusal : Fate := .refused ⟨"HTTPStatusError", some 503⟩

/-- Reminder ticks at eight, refused. -/
def eightOClock : Scripts App ℕ Answer := Mail.start threeHours (fun _ => .tick .reminder) oneReader (onMonday 8 refusal)

/-- The tick at eight, and its refused call. -/
def eightTried (A : ℕ → Local App → Shared App ℕ → Prop) [∀ i l S, Decidable (A i l S)] : Scripts App ℕ Answer :=
  eightOClock.after A (List.replicate 41 0)

/-- A second tick at ten. -/
def tenTried (A : ℕ → Local App → Shared App ℕ → Prop) [∀ i l S, Decidable (A i l S)] (fate : Fate) :
    Scripts App ℕ Answer :=
  ((eightTried A).outside (onMonday 10 fate)).after A (List.replicate 31 1)

end CodeReader.Email
