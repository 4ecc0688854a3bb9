import CodeReader.Email.Sweeps
import CodeReader.Txn.Aside

/-!
# A delivery is sent once

Any number of sweeps, and of requests of users beside them.

* `program_spares` — the requests leave the deliveries alone;
* `sweep_rules` — what a thread does to the deliveries is what the others rely on;
* `SentOnce`, `Over` — what is seen of a delivery, and when it is over;
* `deliveries_sent_once` — **the result**.
-/

namespace CodeReader.Email

open Txn Prog

/-! ## Requests beside the sweeps -/

def KeepsDeliveries (f : EmailDb → EmailDb) : Prop := ∀ db, (f db).deliveries = db.deliveries

/-- Not an event of a delivery. -/
def EmailEv.Beside : EmailEv → Prop
  | .loaded _ | .found _ => True
  | _ => False

section Requests

variable {settings : Settings} {id : UserId}

theorem lockTokens_spares (hs : List String) : (lockTokens hs).Spares KeepsDeliveries EmailEv.Beside := by
  induction hs with
  | nil => trivial
  | cons h hs ih => exact ih

theorem invalidateOutstanding_spares (now : Int) :
    (invalidateOutstanding id now).Spares KeepsDeliveries EmailEv.Beside := fun seen =>
  ⟨trivial, (lockTokens_spares seen).bind fun _ => ⟨fun _ => rfl, trivial⟩⟩

theorem flushUser_spares (loaded new : Addresses) : (flushUser id loaded new).Spares KeepsDeliveries EmailEv.Beside := by
  unfold flushUser
  split
  · trivial
  · exact ⟨fun _ => rfl, trivial⟩

theorem addressConflict_spares : (addressConflict id).Spares KeepsDeliveries EmailEv.Beside := by
  intro address
  cases address with
  | none => trivial
  | some address => exact fun _ => trivial

theorem loadUser_spares : (loadUser id).Spares KeepsDeliveries EmailEv.Beside := by
  intro user
  cases user with
  | none => trivial
  | some user =>
    show (if user.deletedAt.isSome = true then _ else _ : Handler User).Spares _ _
    split
    · trivial
    · exact ⟨trivial, trivial⟩

theorem enforceBucket_spares (key : String) : (enforceBucket settings key).Spares KeepsDeliveries EmailEv.Beside := by
  intro now allowed
  cases allowed <;> trivial

theorem enforceSendThrottle_spares (email : String) :
    (enforceSendThrottle settings id email).Spares KeepsDeliveries EmailEv.Beside := by
  intro claimed
  cases claimed with
  | true => exact (enforceBucket_spares _).bind fun _ => enforceBucket_spares _
  | false => trivial

theorem issueAndSend_spares (user : User) (email : String) (env : IssueEnv) :
    (issueAndSend settings user email env).Spares KeepsDeliveries EmailEv.Beside := by
  refine (invalidateOutstanding_spares _).bind fun _ => (flushUser_spares _ _).bind fun _ => fun taken => ?_
  cases taken with
  | true => trivial
  | false =>
    refine ⟨fun _ => rfl, ?_⟩
    cases env.refused <;> trivial

theorem requestEmail_spares (rawEmail : String) (env : IssueEnv) :
    (requestEmail settings id rawEmail env).Spares KeepsDeliveries EmailEv.Beside := by
  unfold requestEmail
  split
  · trivial
  · refine loadUser_spares.bind fun user => ?_
    split
    · trivial
    · exact (enforceSendThrottle_spares _).bind fun _ => (issueAndSend_spares _ _ _).bind fun _ => trivial

theorem resendVerification_spares (env : IssueEnv) :
    (resendVerification settings id env).Spares KeepsDeliveries EmailEv.Beside := by
  refine loadUser_spares.bind fun user => ?_
  split
  · trivial
  · exact (enforceSendThrottle_spares _).bind fun _ => (issueAndSend_spares _ _ _).bind fun _ => trivial

theorem verifyEmail_spares (rawToken : String) (now : Int) :
    (verifyEmail settings id rawToken now).Spares KeepsDeliveries EmailEv.Beside := by
  unfold verifyEmail
  split
  · trivial
  · intro row
    cases row with
    | none => trivial
    | some row =>
      show (if _ then _ else _ : Handler EmailState).Spares _ _
      split
      · trivial
      · split
        · trivial
        · split
          · trivial
          · refine loadUser_spares.bind fun user => ⟨fun _ => rfl, ?_⟩
            refine (invalidateOutstanding_spares _).bind fun _ => (flushUser_spares _ _).bind fun _ => ?_
            refine addressConflict_spares.bind fun conflict => ?_
            cases conflict <;> trivial

theorem deleteEmail_spares (now : Int) : (deleteEmail id now).Spares KeepsDeliveries EmailEv.Beside :=
  loadUser_spares.bind fun _ => (invalidateOutstanding_spares _).bind fun _ => (flushUser_spares _ _).bind fun _ => trivial

theorem suppress_spares (kind : SuppressionKind) (reason source : String) :
    (suppress id kind reason source).Spares KeepsDeliveries EmailEv.Beside := by
  intro there
  cases there with
  | true => trivial
  | false =>
    intro missing
    cases missing with
    | true => trivial
    | false => exact ⟨fun _ => rfl, trivial⟩

theorem applyPref_spares (payload : EmailPrefsRequest) (kind : Kind) :
    (applyPref id payload kind).Spares KeepsDeliveries EmailEv.Beside := by
  unfold applyPref
  split
  · trivial
  · exact ⟨fun _ => rfl, trivial⟩
  · exact suppress_spares _ _ _

/-- **The requests of users** leave the deliveries alone. -/
theorem program_spares (op : EmailOp) : (op.program settings).Spares KeepsDeliveries EmailEv.Beside := by
  cases op with
  | address id op =>
    refine Spares.bind ?_ fun _ => trivial
    cases op with
    | request rawEmail env => exact requestEmail_spares rawEmail env
    | resend env => exact resendVerification_spares env
    | verify rawToken now => exact verifyEmail_spares rawToken now
    | delete now => exact deleteEmail_spares now
  | unsubscribe token =>
    refine Spares.bind ?_ fun _ => trivial
    unfold applyUnsubscribe
    split
    · trivial
    · exact (suppress_spares _ _ _).bind fun _ => trivial
  | patchPrefs id payload =>
    refine Spares.bind ?_ fun _ => trivial
    exact (applyPref_spares _ _).bind fun _ => (applyPref_spares _ _).bind fun _ => fun _ => trivial

end Requests

/-! ## Whole runs -/

section Runs

variable {τ : Type} [DecidableEq τ] {settings : SweepSettings} {i : τ} {l : Local App} {S : Shared App τ} {key : DeliveryKey}

theorem delivery_eq {db db' : EmailDb} (h : db'.deliveries = db.deliveries) : db'.delivery key = db.delivery key := by
  rw [EmailDb.delivery, h, EmailDb.delivery]

theorem spared_steady : Steady (SweepRely settings.toLedgerSettings i) fun (l : Local App) S =>
    AllSound settings.toLedgerSettings S ∧ KeepsDeliveries l.view where
  rely _ _ _ h hS := ⟨hS.sound h.1, h.2⟩
  lock _ _ _ h := h
  read _ _ _ h := h

theorem wp_request (op : EmailOp) (hS : AllSound settings.toLedgerSettings S) :
    wpScript (SweepRely settings.toLedgerSettings i) (SweepStep settings.toLedgerSettings i) i
      ((Task.request op).script settings) S := by
  have hspares : ((op.program settings.email >>= fun r => ret (.reply r) : Handler Answer)).Spares KeepsDeliveries
      EmailEv.Beside := (program_spares op).bind fun _ => trivial
  have hkeep : ∀ (S S' : Shared App τ), S'.db.deliveries = S.db.deliveries → S'.trace = S.trace →
      ∀ key, standing key S' = standing key S := by
    intro S S' hdb htrace key
    rw [standing, standing, delivery_eq hdb, htrace]
  refine wp_mono (fun _ _ _ _ => trivial) (spared_steady.wp_spares (W := KeepsDeliveries) (E := EmailEv.Beside) ?_ ?_ ?_ ?_
    hspares ⟨hS, fun _ => rfl⟩)
  · exact fun l S f hf h => ⟨h.1, fun db => (hf _).trans (h.2 db)⟩
  · intro l S h
    have hsame := hkeep S { S with db := l.view S.db, commits := S.commits ++ [i] } (h.2 S.db) rfl
    exact ⟨.of_same hsame (fun hne => absurd rfl hne) fun _ _ => rfl, fun key => hsame key ▸ h.1 key, fun _ => rfl⟩
  · exact fun l S kv h => ⟨(h.1.outside kv).1, h⟩
  · intro l S ev hev h
    have hsame : ∀ key, standing key { S with trace := S.trace ++ [(i, ev)] } = standing key S := by
      intro key
      rw [standing, observed_append_singleton]
      cases ev with
      | loaded addresses => rfl
      | found tokenHashes => rfl
      | _ => exact hev.elim
    exact ⟨.of_same hsame (fun _ => rfl) fun j hj => lastShown_other hj _ _, fun key => hsame key ▸ h.1 key, h.2⟩

variable {task : τ → Task} {db : EmailDb} {kv : Outside}

omit [DecidableEq τ] in
theorem allSound_start (hdb : db.deliveries = []) : AllSound (τ := τ) settings.toLedgerSettings ⟨⟨db, kv⟩, [], []⟩ := by
  intro key
  have hrow : db.delivery key = none := by
    rw [EmailDb.delivery, hdb]
    rfl
  show Sound _ key ⟨db.delivery key, _⟩
  rw [hrow]
  exact sound_start _ key

theorem sweep_rules (hmax : 1 ≤ settings.maxAttempts) (hdb : db.deliveries = []) :
    Scripts.Rules (fun _ _ => True) (Mail.start settings task db kv) (fun i => SweepRely settings.toLedgerSettings i)
      fun i => SweepStep settings.toLedgerSettings i where
  refl _ := SweepRely.refl
  trans _ _ _ _ _ := SweepRely.trans
  outside _ _ _ _ _ := ⟨fun _ => .refl _ _ _, id, rfl⟩
  compat s _ _ _ _ hj hG := hG.rely hmax hj (s.localOf_disjoint hj)
  start i := Scripts.good_start (by
    cases task i with
    | tick kind => exact wp_tick hmax (allSound_start hdb)
    | request op => exact wp_request op (allSound_start hdb))

/-! ### Sent once -/

/-- What has been seen of a delivery: no more calls than attempts, one at a time, all with the same message and the key
of the delivery; and a claimed row has been claimed by a thread. -/
structure SentOnce (settings : LedgerSettings) (key : DeliveryKey) (S : Shared App τ) : Prop where
  bounded : (observed key S.trace).calls.length ≤ settings.maxAttempts
  single : (observed key S.trace).overlapped = false
  same : ∀ call ∈ (observed key S.trace).calls, ∀ call' ∈ (observed key S.trace).calls, call.message = call'.message
  keyed : ∀ call ∈ (observed key S.trace).calls, call.message.idempotencyKey = some (deliveryIdempotencyKey key)
  owned : ∀ row, S.db.delivery key = some row → row.status = .claimed → ∃ c, (observed key S.trace).claim = some c

/-- The delivery is over: it was sent or skipped, or the sweep that has claimed it is dead. -/
def Over (key : DeliveryKey) (s : Scripts App τ Answer) : Prop :=
  ∃ row, s.sys.shared.db.delivery key = some row ∧ (row.status = .sent ∨ row.status = .skipped ∨
    row.status = .claimed ∧ ∃ c, (observed key s.sys.shared.trace).claim = some c ∧ s.sys.threads c.thread = .dead)

omit [DecidableEq τ] in
theorem Sound.sentOnce (h : Sound settings.toLedgerSettings key (standing key S))
    (howned : (standing key S).Taken → ∃ c, (standing key S).obs.claim = some c) :
    SentOnce settings.toLedgerSettings key S where
  bounded := by
    cases hrow : (standing key S).row with
    | none =>
      have hcalls : (observed key S.trace).calls = [] := h.fresh hrow
      rw [hcalls]
      exact Nat.zero_le _
    | some row => exact (h.room row hrow).1.trans (h.room row hrow).2
  single := h.single
  same := fun call hcall call' hcall' => by
    obtain ⟨row, payload, hrow, hpayload, hmessage⟩ := h.sent call hcall
    obtain ⟨row', payload', hrow', hpayload', hmessage'⟩ := h.sent call' hcall'
    cases hrow.symm.trans hrow'
    cases hpayload.symm.trans hpayload'
    rw [hmessage, hmessage']
  keyed := fun call hcall => by
    obtain ⟨row, payload, -, -, hmessage⟩ := h.sent call hcall
    rw [hmessage]
    rfl
  owned := fun row hrow hstatus => howned ⟨row, hrow, hstatus⟩

omit [DecidableEq τ] in
/-- A claimed row has been claimed by a thread. -/
theorem DeliveryStep.owned {settings : LedgerSettings} {locked : Prop} {last : Option EmailEv} {v v' : Standing τ}
    (hstep : DeliveryStep settings key i locked last v v') (h : v.Taken → ∃ c, v.obs.claim = some c) :
    v'.Taken → ∃ c, v'.obs.claim = some c := by
  intro htaken
  cases hstep with
  | same => exact h htaken
  | claiming _ _ _ => exact ⟨_, rfl⟩
  | opened _ _ hclaim _ _ => exact ⟨_, hclaim⟩
  | reclaimed _ _ _ hclaim _ _ => exact ⟨_, hclaim⟩
  | stored _ _ hv _ _ _ => exact ⟨_, hv.claim⟩
  | calling hv _ _ _ _ => exact ⟨_, hv.claim⟩
  | answering hv _ => exact ⟨_, hv.claim⟩
  | finished _ _ _ _ hv _ _ _ _ => exact ⟨_, hv.claim⟩

variable {A : τ → Local App → Shared App τ → Prop} {s s' : Scripts App τ Answer}

theorem sentOnce_of_reach (hmax : 1 ≤ settings.maxAttempts) (hdb : db.deliveries = [])
    (h : Scripts.Reach (fun _ _ => True) A (Mail.start settings task db kv) s) (key : DeliveryKey) :
    SentOnce settings.toLedgerSettings key s.sys.shared := by
  have hinv : AllSound settings.toLedgerSettings s.sys.shared ∧
      ((standing key s.sys.shared).Taken → ∃ c, (standing key s.sys.shared).obs.claim = some c) := by
    refine Scripts.Reach.inv (sweep_rules hmax hdb) (J := fun S => AllSound settings.toLedgerSettings S ∧
      ((standing key S).Taken → ∃ c, (standing key S).obs.claim = some c)) ?_ ?_ (fun _ _ _ hJ => hJ) h
    · have hrow : db.delivery key = none := by
        rw [EmailDb.delivery, hdb]
        rfl
      exact ⟨allSound_start hdb, fun htaken => absurd htaken (not_taken_of_none hrow)⟩
    · exact fun s i a S' _ _ _ hJ hG => ⟨hG.sound hmax hJ.1, (hG.deliveries key).owned hJ.2⟩
  exact (hinv.1 key).sentOnce hinv.2

/-- What is over stays over, without a call. -/
theorem calls_of_over (hmax : 1 ≤ settings.maxAttempts) (hdb : db.deliveries = [])
    (h : Scripts.Reach (fun _ _ => True) A (Mail.start settings task db kv) s) (hover : Over key s)
    (h' : Scripts.Reach (fun _ _ => True) A s s') :
    (observed key s'.sys.shared.trace).calls = (observed key s.sys.shared.trace).calls := by
  obtain ⟨row, hrow, hstatus⟩ := hover
  have hrules := (sweep_rules hmax hdb).restart h
  rcases or_assoc.mpr hstatus with hsettled | ⟨hclaimed, c, hc, hdead⟩
  · -- sent or skipped
    have hinv := Scripts.Reach.inv hrules (J := fun S => S.db.delivery key = some row ∧
      (observed key S.trace).calls = (observed key s.sys.shared.trace).calls) ⟨hrow, rfl⟩
      (fun s₁ i a S' _ _ _ hJ hG => by
        obtain ⟨hrow', hcalls⟩ := (hG.deliveries key).settled (v := standing key s₁.sys.shared) hJ.1 hsettled
        exact ⟨hrow', hcalls.trans hJ.2⟩) (fun _ _ _ hJ => hJ) h'
    exact hinv.2
  · -- claimed by a sweep that is dead
    have hinv := Scripts.Reach.inv hrules (J := fun S => standing key S = standing key s.sys.shared) rfl
      (fun s₁ i a S' hs₁ hrun _ hJ hG => by
        obtain ⟨p, reads, view, hrun⟩ := hrun
        have hne : c.thread ≠ i := by
          rintro rfl
          rw [hs₁.dead hdead] at hrun
          cases hrun
        have hv : (standing key s₁.sys.shared).ClaimedBy c row := hJ.symm ▸ ⟨hc, hrow, hclaimed⟩
        exact (((hG.deliveries key).undisturbed hne (fun _ h => h : _ → ¬ False)).claimed c row hv rfl).trans hJ)
      (fun _ _ _ hJ => hJ) h'
    exact congrArg (·.obs.calls) hinv

/-- **Sent once**: in every run of any number of sweeps and requests, with crashes between any two statements, a delivery
is sent at most as often as allowed, by one sweep at a time, with one message and one key; and once it has been sent or
skipped, or its sweep has died, it is not sent any more. -/
theorem deliveries_sent_once (settings : SweepSettings) (hmax : 1 ≤ settings.maxAttempts) (task : τ → Task) (db : EmailDb)
    (hdb : db.deliveries = []) (kv : Outside) (key : DeliveryKey) (s : Scripts App τ Answer)
    (h : Scripts.Reach (fun _ _ => True) anyCommit (Mail.start settings task db kv) s) :
    SentOnce settings.toLedgerSettings key s.sys.shared ∧
    (Over key s → ∀ s', Scripts.Reach (fun _ _ => True) anyCommit s s' →
      (observed key s'.sys.shared.trace).calls = (observed key s.sys.shared.trace).calls) :=
  ⟨sentOnce_of_reach hmax hdb h key, fun hover _ h' => calls_of_over hmax hdb h hover h'⟩

end Runs

/-! ### A reminder -/

/-- The defaults. -/
def SweepSettings.default : SweepSettings where
  toJobSettings := .default
  toLedgerSettings := ⟨3, (hours 24).toNat⟩
  email := ⟨.ok, id, id, fun _ => none, hours 24, 5⟩
  maxSendsPerTick := 50
  appOrigin := "https://reedkode.org"
  fromAddress := "mail@reedkode.org"
  mintUnsubscribeToken id kind := s!"{id}:{kind.name}"

/-- One user, with a reminder at eight. -/
def oneReader : EmailDb := ⟨[.verified 1 "UTC" (some 8)], [], [], []⟩

/-- A Monday, so many hours after midnight. -/
def onMonday (n : Int) (fate : Fate) : Outside := { Outside.lost with clock := 4 * microsPerDay + hours n, fate := fate }

/-- The reminder of that day. -/
def mondayReminder : DeliveryKey := ⟨1, .reminder, "1970-01-05"⟩

theorem reminder_sent_once :
    let s := (Mail.start .default (fun _ : Nat => .tick .reminder) oneReader (onMonday 10 .fine)).after anyCommit
      (List.replicate 38 0)
    (observed mondayReminder s.sys.shared.trace).calls.length = 1 ∧
    SentOnce SweepSettings.default.toLedgerSettings mondayReminder s.sys.shared ∧
    ∀ s', Scripts.Reach (fun _ _ => True) anyCommit s s' →
      (observed mondayReminder s'.sys.shared.trace).calls.length = 1 := by
  intro s
  have hreach : Scripts.Reach (fun _ _ => True) anyCommit
      (Mail.start .default (fun _ : Nat => .tick .reminder) oneReader (onMonday 10 .fine)) s :=
    Scripts.Reach.after (by decide +kernel)
  have hcalls : (observed mondayReminder s.sys.shared.trace).calls.length = 1 := by decide +kernel
  have hsent : (s.sys.shared.db.delivery mondayReminder).any (·.status == .sent) = true := by decide +kernel
  obtain ⟨row, hrow, hstatus⟩ := (Option.any_eq_true _ _).mp hsent
  obtain ⟨honce, hover⟩ := deliveries_sent_once .default (by decide) (fun _ : Nat => .tick .reminder) oneReader rfl
    (onMonday 10 .fine) mondayReminder s hreach
  refine ⟨hcalls, honce, fun s' h' => ?_⟩
  rw [hover ⟨row, hrow, .inl (beq_iff_eq.mp hstatus)⟩ s' h']
  exact hcalls

end CodeReader.Email
