import CodeReader.Email.DeliveryProtocol

/-!
# Sweeps that overlap

Every session of a sweep keeps to the protocol of the deliveries, whatever the others do meanwhile.

* `SweepStep`, `SweepRely` — what a statement does to the deliveries, and what a thread relies on;
* `At` — a delivery that the thread has locked, or claimed, stays where it is; with a rule for each statement;
* `wp_claimSession`, `wp_work` — the two sessions of a candidate: the claim, and the call with its record;
* `wp_runSweep`, `wp_tick` — a tick, candidate by candidate.
-/

namespace CodeReader.Email

open Txn Prog

variable {τ : Type} [DecidableEq τ]

/-! ## Rely and guarantee -/

/-- What a thread has shown last. -/
def lastShown (i : τ) (trace : List (τ × EmailEv)) : Option EmailEv := ((trace.filter (·.1 == i)).getLast?).map Prod.snd

theorem lastShown_self (i : τ) (trace : List (τ × EmailEv)) (e : EmailEv) : lastShown i (trace ++ [(i, e)]) = some e := by
  simp [lastShown, List.filter_append]

theorem lastShown_other {i j : τ} (h : j ≠ i) (trace : List (τ × EmailEv)) (e : EmailEv) :
    lastShown j (trace ++ [(i, e)]) = lastShown j trace := by
  simp [lastShown, List.filter_append, Ne.symm h]

/-- Every delivery is sound. -/
abbrev AllSound (settings : LedgerSettings) (S : Shared App τ) : Prop := ∀ key, Sound settings key (standing key S)

/-- What a statement of thread `i` does: one of its steps to each of the deliveries; only a commit changes tables. -/
structure SweepStep (settings : LedgerSettings) (i : τ) (a : Act) (l : Local App) (S S' : Shared App τ) : Prop where
  tables : a ≠ .commit → S'.db = S.db
  deliveries : ∀ key, DeliveryStep settings key i (.delivery key ∈ l.held) (lastShown i S.trace) (standing key S)
    (standing key S')
  shown : ∀ j, j ≠ i → lastShown j S'.trace = lastShown j S.trace

/-- What thread `i` relies on. -/
structure SweepRely (settings : LedgerSettings) (i : τ) (l : Local App) (S S' : Shared App τ) : Prop where
  undisturbed : ∀ key, Undisturbed i (.delivery key ∈ l.held) (standing key S) (standing key S')
  sound : AllSound settings S → AllSound settings S'
  shown : lastShown i S'.trace = lastShown i S.trace

/-- Among such steps of the others, the program does such steps and ends in `Q`. -/
abbrev SweepWp {α : Type} (settings : LedgerSettings) (i : τ) (Q : Except Err α → Local App → Shared App τ → Prop)
    (p : Handler α) (l : Local App) (S : Shared App τ) : Prop :=
  wp (SweepRely settings i) (SweepStep settings i) i Q p l S

section Protocol

variable {settings : LedgerSettings} {i j : τ} {a : Act} {l l' : Local App} {S S' S'' : Shared App τ}

theorem SweepRely.refl (l : Local App) (S : Shared App τ) : SweepRely settings i l S S :=
  ⟨fun _ => .refl i _ _, id, rfl⟩

theorem SweepRely.trans (h : SweepRely settings i l S S') (h' : SweepRely settings i l S' S'') :
    SweepRely settings i l S S'' :=
  ⟨fun key => (h.undisturbed key).trans (h'.undisturbed key), h'.sound ∘ h.sound, h'.shown.trans h.shown⟩

theorem SweepStep.sound (hmax : 1 ≤ settings.maxAttempts) (h : SweepStep settings i a l S S') (hS : AllSound settings S) :
    AllSound settings S' := fun key => (h.deliveries key).sound hmax (hS key)

/-- A step is what the others rely on. -/
theorem SweepStep.rely (hmax : 1 ≤ settings.maxAttempts) (h : SweepStep settings i a l S S') (hj : j ≠ i)
    (hlocks : ∀ r ∈ l.held, r ∉ l'.held) : SweepRely settings j l' S S' :=
  ⟨fun key => (h.deliveries key).undisturbed hj (hlocks _), h.sound hmax, h.shown j hj⟩

/-- A step to one delivery. -/
theorem SweepStep.of_key (key : DeliveryKey)
    (hstep : DeliveryStep settings key i (.delivery key ∈ l.held) (lastShown i S.trace) (standing key S) (standing key S'))
    (hothers : ∀ key', key' ≠ key → standing key' S' = standing key' S) (htables : a ≠ .commit → S'.db = S.db)
    (hshown : ∀ j, j ≠ i → lastShown j S'.trace = lastShown j S.trace) : SweepStep settings i a l S S' := by
  refine ⟨htables, fun key' => ?_, hshown⟩
  by_cases hkey : key' = key
  · rw [hkey]
    exact hstep
  · rw [hothers key' hkey]
    exact .same

/-- A step that leaves the deliveries. -/
theorem SweepStep.of_same (hsame : ∀ key, standing key S' = standing key S) (htables : a ≠ .commit → S'.db = S.db)
    (hshown : ∀ j, j ≠ i → lastShown j S'.trace = lastShown j S.trace) : SweepStep settings i a l S S' :=
  ⟨htables, fun key => hsame key ▸ .same, hshown⟩

end Protocol

/-! ## One delivery -/

/-- The delivery of the key stands at `v`, and stays there: thread `i` has locked its row, which is not claimed, or has
claimed it.  `f` is what the transaction has written, and `e` what the thread has shown last. -/
structure At (settings : LedgerSettings) (i : τ) (key : DeliveryKey) (locked : Prop) (v : Standing τ)
    (f : EmailDb → EmailDb) (e : Option EmailEv) (l : Local App) (S : Shared App τ) : Prop where
  sound : AllSound settings S
  stands : standing key S = v
  held : locked → .delivery key ∈ l.held
  view : l.view = f
  shown : lastShown i S.trace = e
  mine : locked ∧ ¬ v.Taken ∨ ∃ c row, v.ClaimedBy c row ∧ c.thread = i

section At

variable {settings : LedgerSettings} {i : τ} {key : DeliveryKey} {locked : Prop} {v : Standing τ}
  {f : EmailDb → EmailDb} {e : Option EmailEv} {l : Local App} {S : Shared App τ} {α β : Type}
  {Q : Except Err α → Local App → Shared App τ → Prop}

theorem at_steady : Steady (SweepRely settings i) (At settings i key locked v f e) where
  rely _ S S' h hS := by
    have hstands : standing key S' = standing key S := by
      rcases h.mine with ⟨hlocked, hfree⟩ | ⟨c, row, hv, hc⟩
      · have hrow := (hS.undisturbed key).row (h.held hlocked)
        have hobs := (hS.undisturbed key).obs (h.held hlocked) (h.stands.symm ▸ hfree)
        cases hs : standing key S'
        cases hs' : standing key S
        rw [hs, hs'] at hrow hobs
        exact congr (congrArg Standing.mk hrow) hobs
      · exact (hS.undisturbed key).claimed c row (h.stands.symm ▸ hv) hc
    exact ⟨hS.sound h.sound, hstands.trans h.stands, h.held, h.view, hS.shown.trans h.shown, h.mine⟩
  lock _ _ _ h := { h with held := fun hl => Set.mem_insert_of_mem _ (h.held hl) }
  read _ _ _ h := { h with }

/-- Commands of the store leave the deliveries. -/
theorem At.outside (h : At settings i key locked v f e l S) (kv : Outside) :
    SweepStep settings i .store l S { S with kv := kv } ∧ At settings i key locked v f e l { S with kv := kv } :=
  ⟨.of_same (fun _ => rfl) (fun _ => rfl) fun _ _ => rfl, { h with }⟩

theorem At.wp_cmd (h : At settings i key locked v f e l S) {g : Outside → β × Outside} {k : β → Handler α}
    (hk : ∀ b S, At settings i key locked v f e l S →
      SweepWp settings i Q (k b) l S) :
    SweepWp settings i Q (.kv g k) l S :=
  at_steady.wp_kv h fun _ hS => ⟨(hS.outside _).1, hk _ _ (hS.outside _).2⟩

/-- An exception, or on. -/
theorem wp_attempt {J : Local App → Shared App τ → Prop} (hJ : Steady (SweepRely settings i) J)
    (hkv : ∀ l S kv, J l S → SweepStep settings i .store l S { S with kv := kv } ∧ J l { S with kv := kv }) (h : J l S)
    {k : Unit → Handler α}
    (hk : ∀ S, J l S → SweepWp settings i Q (k ()) l S)
    (hQ : ∀ S, J l S → Q (.error interrupted) l S) :
    SweepWp settings i Q (attempt >>= k) l S := by
  refine hJ.wp_kv h fun S hS => ⟨(hkv l S _ hS).1, ?_⟩
  obtain ⟨-, hS'⟩ := hkv l S S.kv hS
  dsimp only
  cases S.kv.fate with
  | broken => exact hJ.wp_throw hS' hQ
  | fine => exact hk S hS'
  | refused error => exact hk S hS'

theorem At.wp_attempt (h : At settings i key locked v f e l S) {k : Unit → Handler α}
    (hk : ∀ S, At settings i key locked v f e l S →
      SweepWp settings i Q (k ()) l S)
    (hQ : ∀ S, At settings i key locked v f e l S → Q (.error interrupted) l S) :
    SweepWp settings i Q (attempt >>= k) l S :=
  Email.wp_attempt at_steady (fun _ _ kv h => h.outside kv) h hk hQ

theorem At.with_lock (h : At settings i key locked v f e l S) (hl : .delivery key ∈ l.held) :
    At settings i key True v f e l S :=
  { h with
    held := fun _ => hl
    mine := h.mine.imp_left fun hfree => ⟨trivial, hfree.2⟩ }

theorem At.wp_lock (h : At settings i key locked v f e l S) {k : Handler α}
    (hk : ∀ l S, At settings i key True v f e l S →
      SweepWp settings i Q k l S) :
    SweepWp settings i Q (.lock (.delivery key) k) l S :=
  at_steady.wp_lock h fun l S hS hl => hk l S (hS.with_lock hl)

theorem At.wp_write (h : At settings i key locked v f e l S) {g : EmailDb → EmailDb} {k : Handler α}
    (hk : ∀ l S, At settings i key locked v (g ∘ f) e l S →
      SweepWp settings i Q k l S) :
    SweepWp settings i Q (.write g k) l S :=
  at_steady.wp_write h fun S hS => hk _ S { hS with view := by rw [hS.view] }

/-- What the transaction sees of the row. -/
theorem At.row (h : At settings i key locked v id e l S) : (l.view S.db).delivery key = v.row := by
  rw [h.view]
  exact congrArg Standing.row h.stands

/-- An observation of the delivery. -/
theorem At.wp_note (hmax : 1 ≤ settings.maxAttempts) (h : At settings i key locked v f e l S) {ev : EmailEv} {k : Handler α}
    (v' : Standing τ) (hstep : ∀ p : Prop, (locked → p) → DeliveryStep settings key i p e v v')
    (hrow : v'.row = v.row) (hobs : v'.obs = v.obs.after key (i, ev))
    (hothers : ∀ key', key' ≠ key → ∀ o : Observed τ, o.after key' (i, ev) = o)
    (hmine : locked ∧ ¬ v'.Taken ∨ ∃ c row, v'.ClaimedBy c row ∧ c.thread = i)
    (hk : ∀ S, At settings i key locked v' f (some ev) l S →
      SweepWp settings i Q k l S) :
    SweepWp settings i Q (.emit ev k) l S := by
  refine at_steady.wp_emit h fun S hS => ?_
  have hkey : standing key { S with trace := S.trace ++ [(i, ev)] } = v' := by
    rw [standing, observed_append_singleton]
    change Standing.mk (standing key S).row ((standing key S).obs.after key (i, ev)) = v'
    rw [hS.stands, ← hrow, ← hobs]
  have hG : SweepStep settings i .observe l S { S with trace := S.trace ++ [(i, ev)] } := by
    refine .of_key key ?_ (fun key' hne => ?_) (fun _ => rfl) fun j hj => lastShown_other hj _ _
    · rw [hkey, hS.stands, hS.shown]
      exact hstep _ hS.held
    · rw [standing, observed_append_singleton, hothers key' hne]
      rfl
  exact ⟨hG, hk _ ⟨hG.sound hmax hS.sound, hkey, hS.held, hS.view, lastShown_self i _ _, hmine⟩⟩

end At

/-! ## Writes to one row -/

/-- The row of the key becomes `row'`, the others stay. -/
structure Writes (key : DeliveryKey) (f : EmailDb → EmailDb) (row row' : Option EmailDelivery) : Prop where
  self : ∀ db : EmailDb, db.delivery key = row → (f db).delivery key = row'
  others : ∀ (db : EmailDb) key', key' ≠ key → (f db).delivery key' = db.delivery key'

section Writes

variable {key : DeliveryKey} {row : EmailDelivery}

theorem writes_opened (now : Int) : Writes key (fun db => { db with deliveries := db.deliveries ++ [.opened key now] }) none
    (some (.opened key now)) where
  self db h := by
    have hself : (EmailDelivery.opened key now).key == key := beq_self_eq_true key
    simp only [EmailDb.delivery] at h ⊢
    rw [List.find?_append, h, List.find?_singleton, if_pos hself]
    rfl
  others db key' hkey := by
    have hother : ¬ ((EmailDelivery.opened key now).key == key') = true := fun h => hkey (beq_iff_eq.mp h).symm
    simp only [EmailDb.delivery]
    rw [List.find?_append, List.find?_singleton, if_neg hother, Option.or_none]

theorem writes_update {g : EmailDelivery → EmailDelivery} (hg : ∀ d, (g d).key = d.key) :
    Writes key (·.updateDelivery key g) (some row) (some (g row)) := by
  have hfind : ∀ (db : EmailDb) key', (db.updateDelivery key g).delivery key' =
      (db.delivery key').map fun d => if d.key == key then g d else d := by
    intro db key'
    have hkeys : ((fun d : EmailDelivery => d.key == key') ∘ fun d => if d.key == key then g d else d) =
        fun d => d.key == key' := by
      funext d
      dsimp only [Function.comp]
      split
      · rw [hg d]
      · rfl
    rw [EmailDb.delivery, EmailDb.updateDelivery, List.find?_map, hkeys]
    rfl
  refine ⟨fun db h => ?_, fun db key' hkey => ?_⟩
  · have hself : (row.key == key) = true := by simpa using List.find?_some h
    rw [hfind, h, Option.map_some, if_pos hself]
  · rw [hfind]
    cases h : db.delivery key' with
    | none => rfl
    | some d =>
      have hd : d.key = key' := by simpa using List.find?_some h
      have hother : ¬ (d.key == key) = true := fun he => hkey (hd.symm.trans (beq_iff_eq.mp he))
      rw [Option.map_some, if_neg hother]

end Writes

section Commit

variable {settings : LedgerSettings} {i : τ} {key : DeliveryKey} {v : Standing τ}
  {f : EmailDb → EmailDb} {e : Option EmailEv} {l : Local App} {S : Shared App τ} {α : Type}
  {Q : Except Err α → Local App → Shared App τ → Prop}

/-- What the transaction has written is committed. -/
theorem At.wp_commit (hmax : 1 ≤ settings.maxAttempts) (h : At settings i key True v f e l S) {k : Handler α}
    (row' : EmailDelivery) (hstep : ∀ p : Prop, p → DeliveryStep settings key i p e v ⟨some row', v.obs⟩) (hf : Writes key f v.row (some row'))
    (hk : ∀ S, AllSound settings S → standing key S = ⟨some row', v.obs⟩ → lastShown i S.trace = e →
      SweepWp settings i Q k .idle S) :
    SweepWp settings i Q (.commit k) l S := by
  refine at_steady.wp_commit h fun S hS => ?_
  have hkey : standing key { S with db := l.view S.db, commits := S.commits ++ [i] } = ⟨some row', v.obs⟩ := by
    rw [hS.view, ← hS.stands]
    exact congrArg (Standing.mk · _) (hf.self S.db (congrArg Standing.row hS.stands))
  have hG : SweepStep settings i .commit l S { S with db := l.view S.db, commits := S.commits ++ [i] } := by
    refine .of_key key ?_ (fun key' hne => ?_) (fun hne => absurd rfl hne) fun _ _ => rfl
    · rw [hkey, hS.stands, hS.shown]
      exact hstep _ (hS.held trivial)
    · rw [hS.view]
      exact congrArg (Standing.mk · _) (hf.others S.db key' hne)
  exact ⟨hG, hk _ (hG.sound hmax hS.sound) hkey hS.shown⟩

end Commit

/-! ## Sessions -/

/-- Thread `i` has claimed the delivery for an address, and has an attempt left. -/
structure Owns (settings : LedgerSettings) (i : τ) (key : DeliveryKey) (email : String) (v : Standing τ) (c : Claim τ)
    (row : EmailDelivery) : Prop where
  claimed : v.ClaimedBy c row
  thread : c.thread = i
  email : c.email = email
  idle : v.obs.inProgress = none
  room : v.obs.calls.length < row.attempts

/-- A session ends so: every delivery is sound, and after a claim the delivery is the thread's. -/
def Claimed (settings : LedgerSettings) (i : τ) (key : DeliveryKey) (email : String) (r : Except Err Answer)
    (S : Shared App τ) : Prop :=
  AllSound settings S ∧ (r = .ok .claimed → ∃ c row, Owns settings i key email (standing key S) c row)

/-- A claim is about to be committed. -/
structure Claiming (settings : LedgerSettings) (i : τ) (key : DeliveryKey) (email : String) (v : Standing τ) (c : Claim τ)
    (row' : EmailDelivery) (f : EmailDb → EmailDb) : Prop where
  free : ¬ v.Taken
  writes : Writes key f v.row (some row')
  owns : Owns settings i key email ⟨some row', v.obs⟩ c row'
  step : ∀ p : Prop, p → DeliveryStep settings key i p (some (.claimed key c.now c.email c.address)) v ⟨some row', v.obs⟩

section Sessions

variable {settings : SweepSettings} {kind : Kind} {i : τ} {key : DeliveryKey} {email : String} {l : Local App}
  {S : Shared App τ} {v : Standing τ} {e : Option EmailEv}

/-- Before anything is locked. -/
theorem sound_steady : Steady (SweepRely settings.toLedgerSettings i) fun (l : Local App) S =>
    AllSound settings.toLedgerSettings S ∧ l.view = id where
  rely _ _ _ h hS := ⟨hS.sound h.1, h.2⟩
  lock _ _ _ h := h
  read _ _ _ h := h

theorem AllSound.outside (h : AllSound settings.toLedgerSettings S) (kv : Outside) :
    SweepStep settings.toLedgerSettings i .store l S { S with kv := kv } ∧ AllSound settings.toLedgerSettings { S with kv := kv } :=
  ⟨.of_same (fun _ => rfl) (fun _ => rfl) fun _ _ => rfl, h⟩

omit [DecidableEq τ] in
/-- A first claim. -/
theorem claiming_opened (hS : Sound settings.toLedgerSettings key v) (hrow : v.row = none)
    (c : Claim τ) (hc : c.thread = i) :
    Claiming settings.toLedgerSettings i key c.email { v with obs := v.obs.claiming c } c (.opened key c.now)
      fun db => { db with deliveries := db.deliveries ++ [.opened key c.now] } where
  free := not_taken_of_none hrow
  writes := by
    show Writes key _ v.row _
    rw [hrow]
    exact writes_opened c.now
  owns := ⟨⟨rfl, rfl, rfl⟩, hc, rfl, hS.idle (not_taken_of_none hrow), by
    show v.obs.calls.length < 1
    rw [hS.fresh hrow]
    exact Nat.one_pos⟩
  step _ hp := .opened hp hrow rfl hc rfl

omit [DecidableEq τ] in
theorem claiming_reclaimed {row : EmailDelivery} (hS : Sound settings.toLedgerSettings key v) (hrow : v.row = some row)
    (c : Claim τ) (hretry : row.retryable settings.toLedgerSettings c.now = true) (hc : c.thread = i) :
    Claiming settings.toLedgerSettings i key c.email { v with obs := v.obs.claiming c } c (row.reclaimed c.now)
      (·.updateDelivery key (.reclaimed c.now)) := by
  obtain ⟨hfailed, -, -⟩ := retryable_iff.mp hretry
  have hfree : ¬ v.Taken := not_taken_of_row hrow (by rw [hfailed]; decide)
  refine ⟨hfree, ?_, ⟨⟨rfl, rfl, rfl⟩, hc, rfl, hS.idle hfree, ?_⟩, fun _ hp => .reclaimed hp hrow hretry rfl hc rfl⟩
  · show Writes key _ v.row _
    rw [hrow]
    exact writes_update fun _ => rfl
  · show v.obs.calls.length < row.attempts + 1
    exact Nat.lt_succ_of_le (hS.room row hrow).1

/-- Where a claim ends: about to be committed, or refused. -/
def ClaimEnds (settings : SweepSettings) (i : τ) (key : DeliveryKey) (email : String) (r : Except Err Bool) (l : Local App)
    (S : Shared App τ) : Prop :=
  match r with
  | .ok true => ∃ v c row' f, Claiming settings.toLedgerSettings i key email v c row' f ∧
      At settings.toLedgerSettings i key True v f (some (.claimed key c.now c.email c.address)) l S
  | _ => AllSound settings.toLedgerSettings S

theorem At.wp_claim (hmax : 1 ≤ settings.maxAttempts) {f : EmailDb → EmailDb} {row' : EmailDelivery} {c : Claim τ}
    (h : At settings.toLedgerSettings i key True v f e l S) (hc : c.thread = i) (hfree : ¬ v.Taken)
    (hclaiming : Claiming settings.toLedgerSettings i key c.email { v with obs := v.obs.claiming c } c row' f) :
    SweepWp settings.toLedgerSettings i
      (ClaimEnds settings i key c.email) (.emit (.claimed key c.now c.email c.address) (.ret true)) l S := by
  refine h.wp_note hmax { v with obs := v.obs.claiming c } (fun p hp => .claiming (hp trivial) hfree hc) rfl ?_ ?_
    (.inl ⟨trivial, hclaiming.free⟩) fun S hS => ?_
  · subst hc
    exact (if_pos rfl).symm
  · intro key' hne o
    exact if_neg (Ne.symm hne)
  · exact at_steady.wp_ret hS fun S hS => ⟨_, c, row', f, hclaiming, hS⟩

/-- **A claim**: made under the lock of its row, on a row that is not claimed. -/
theorem wp_claimPeriod (hmax : 1 ≤ settings.maxAttempts) (key : DeliveryKey) (email : String)
    (hS : AllSound settings.toLedgerSettings S) (hl : l.view = id) :
    SweepWp settings.toLedgerSettings i
      (ClaimEnds settings i key email) (claimPeriod settings.toLedgerSettings key email) l S := by
  have hends : ∀ {l : Local App} {S : Shared App τ}, AllSound settings.toLedgerSettings S ∧ l.view = id →
      ClaimEnds settings i key email (.ok false) l S := fun h => h.1
  refine sound_steady.wp_kv ⟨hS, hl⟩ fun S hS => ⟨(hS.1.outside _).1, ?_⟩
  generalize S.kv.clock = now
  refine sound_steady.wp_lock hS fun l S hS hlock => ?_
  refine (sound_steady.and Steady.held).wp_select ⟨hS, hlock⟩ fun l S hS => ?_
  obtain ⟨⟨hS, hl⟩, hlock⟩ := hS
  have hrow : (l.view S.db).delivery key = (standing key S).row := by
    rw [hl]
    rfl
  generalize (l.view S.db).address key = address
  generalize hv : standing key S = v at hrow
  have hat : ¬ v.Taken → At settings.toLedgerSettings i key True v id (lastShown i S.trace) l S :=
    fun hfree => ⟨hS, hv, fun _ => hlock, hl, rfl, .inl ⟨trivial, hfree⟩⟩
  simp only [hrow]
  cases hv' : v.row with
  | none =>
    have hfree := not_taken_of_none hv'
    refine at_steady.wp_select (hat hfree) fun l S hS => ?_
    cases ((l.view S.db).user key.userId).isNone with
    | true => exact at_steady.wp_throw hS fun S hS => hS.sound
    | false =>
      refine hS.wp_write fun l S hS => ?_
      exact hS.wp_claim (c := ⟨i, now, email, address⟩) hmax rfl hfree
        (claiming_opened (hS.stands ▸ hS.sound key) hv' ⟨i, now, email, address⟩ rfl)
  | some row =>
    show wp _ _ i _ (if row.retryable settings.toLedgerSettings now = true then _ else _) _ _
    by_cases hretry : row.retryable settings.toLedgerSettings now = true
    · obtain ⟨hfailed, -, -⟩ := retryable_iff.mp hretry
      have hfree : ¬ v.Taken := not_taken_of_row hv' (by rw [hfailed]; decide)
      rw [if_pos hretry]
      refine (hat hfree).wp_write fun l S hS => ?_
      exact hS.wp_claim (c := ⟨i, now, email, address⟩) hmax rfl hfree
        (claiming_reclaimed (hS.stands ▸ hS.sound key) hv' ⟨i, now, email, address⟩ hretry rfl)
    · rw [if_neg hretry]
      exact sound_steady.wp_ret ⟨hS, hl⟩ fun S hS => hends hS

omit [DecidableEq τ] in
theorem Claimed.of_sound {r : Except Err Answer} (hS : AllSound settings.toLedgerSettings S) (hr : r ≠ .ok .claimed) :
    Claimed settings.toLedgerSettings i key email r S :=
  ⟨hS, fun h => absurd h hr⟩

/-- **The first session of a candidate**: the claim is committed before anything is sent. -/
theorem wp_claimSession (hmax : 1 ≤ settings.maxAttempts) (c : Candidate) (hS : AllSound settings.toLedgerSettings S) :
    SweepWp settings.toLedgerSettings i
      (fun r _ S => Claimed settings.toLedgerSettings i (c.key kind) c.email r S) (claimSession settings kind c) .idle S := by
  refine wp_attempt sound_steady (fun _ _ kv h => ⟨(h.1.outside kv).1, h⟩) ⟨hS, rfl⟩ (fun S hS => ?_)
    fun S hS => .of_sound hS.1 (by simp)
  refine wp_bind SweepRely.refl (wp_mono (fun r l S hr => ?_) (wp_claimPeriod hmax (c.key kind) c.email hS.1 hS.2))
  rcases r with e | _ | _
  · exact .of_sound hr (by simp)
  · exact fun S' hS' => .of_sound (hS'.sound hr) (by simp)
  · obtain ⟨v, cl, row', f, hcl, hat⟩ := hr
    refine hat.wp_attempt (fun S hS => ?_) fun S hS => .of_sound hS.sound (by simp)
    refine hS.wp_commit hmax row' hcl.step hcl.writes fun S hS hv he => ?_
    have hat : At settings.toLedgerSettings i (c.key kind) False ⟨some row', v.obs⟩ id _ .idle S :=
      ⟨hS, hv, False.elim, rfl, he, .inr ⟨cl, row', hcl.owns.claimed, hcl.owns.thread⟩⟩
    refine hat.wp_attempt (fun S hS => ?_) fun S hS => .of_sound hS.sound (by simp)
    exact at_steady.wp_ret hS fun S hS => ⟨hS.sound, fun _ => ⟨cl, row', hS.stands ▸ hcl.owns⟩⟩

/-- What has come of a delivery is recorded. -/
theorem At.wp_finish (hmax : 1 ≤ settings.maxAttempts) {c : Claim τ} {row : EmailDelivery}
    (h : At settings.toLedgerSettings i key False v id e l S) (hv : v.ClaimedBy c row) (hc : c.thread = i)
    (hidle : v.obs.inProgress = none) (status : DeliveryStatus) (hstatus : status ≠ .claimed) (hpayload : status = .failed → row.payload.isSome)
    (lastError : Option String) (now : Int) (answer : Answer) :
    SweepWp settings.toLedgerSettings i
      (fun _ _ S => AllSound settings.toLedgerSettings S) (do
        finish key status lastError now
        attempt
        commitTx
        attempt
        return answer) l S := by
  refine h.wp_lock fun l S hS => hS.wp_write fun l S hS => ?_
  refine hS.wp_attempt (fun S hS => ?_) fun S hS => hS.sound
  refine hS.wp_commit hmax (row.finished status lastError now)
    (fun p hp => .finished status lastError now hp hv hc hidle hstatus hpayload) ?_ fun S hS _ _ => ?_
  · rw [hv.stands]
    exact writes_update fun _ => rfl
  · refine Email.wp_attempt sound_steady (fun _ _ kv h => ⟨(h.1.outside kv).1, h⟩) ⟨hS, rfl⟩ (fun S hS => ?_) fun S hS => hS.1
    exact sound_steady.wp_ret hS fun S hS => hS.1

/-- **A call to the sender**: of the payload that is stored. -/
theorem At.wp_send (hmax : 1 ≤ settings.maxAttempts) {c : Claim τ} {row : EmailDelivery} {payload : Payload}
    (h : At settings.toLedgerSettings i key False v id e l S) (hown : Owns settings.toLedgerSettings i key email v c row)
    (hpayload : row.payload = some payload) {Q : Except Err Answer → Local App → Shared App τ → Prop}
    {k : Option EmailSendError → Handler Answer}
    (hk : ∀ error S, At settings.toLedgerSettings i key False
        { v with obs := (v.obs.calling i ((messageFromPayload payload).keyed key)).answering } id (some (.answered key)) l S →
      SweepWp settings.toLedgerSettings i Q (k error) l S)
    (hQ : ∀ S err, AllSound settings.toLedgerSettings S → Q (.error err) l S) :
    SweepWp settings.toLedgerSettings i Q
      (send key ((messageFromPayload payload).keyed key) >>= k) l S := by
  have hothers : ∀ key', key' ≠ key → ¬ key = key' := fun key' hne he => hne he.symm
  have hclaimed : ∀ obs : Observed τ, obs.claim = v.obs.claim → Standing.ClaimedBy { v with obs := obs } c row :=
    fun obs hobs => ⟨hobs.trans hown.claimed.claim, hown.claimed.stands, hown.claimed.status⟩
  refine h.wp_note hmax { v with obs := v.obs.calling i ((messageFromPayload payload).keyed key) }
    (fun p _ => .calling hown.claimed hown.thread hpayload hown.idle hown.room) rfl (if_pos rfl).symm
    (fun key' hne o => if_neg (hothers key' hne)) (.inr ⟨c, row, hclaimed _ rfl, hown.thread⟩) fun S hS => ?_
  refine hS.wp_cmd fun fate S hS => ?_
  refine hS.wp_note hmax { v with obs := (v.obs.calling i ((messageFromPayload payload).keyed key)).answering }
    (fun p _ => .answering (hclaimed _ rfl) hown.thread) rfl (if_pos rfl).symm
    (fun key' hne o => if_neg (hothers key' hne)) (.inr ⟨c, row, hclaimed _ rfl, hown.thread⟩) fun S hS => ?_
  cases fate with
  | fine => exact hk none S hS
  | refused error => exact hk (some error) S hS
  | broken => exact at_steady.wp_throw hS fun S hS => hQ S _ hS.sound

/-- A call, and its record. -/
theorem At.wp_deliver (hmax : 1 ≤ settings.maxAttempts) {c : Claim τ} {row : EmailDelivery} {payload : Payload}
    {message : OutboundEmail} (h : At settings.toLedgerSettings i key False v id e l S)
    (hown : Owns settings.toLedgerSettings i key email v c row) (hpayload : row.payload = some payload)
    (hmessage : message.keyed key = (messageFromPayload payload).keyed key) (began : Option Int) :
    SweepWp settings.toLedgerSettings i
      (fun _ _ S => AllSound settings.toLedgerSettings S) (deliver key message began) l S := by
  rw [deliver, hmessage]
  refine h.wp_send hmax hown hpayload (fun error S hS => ?_) fun S _ hS => hS
  have hv : Standing.ClaimedBy { v with obs := (v.obs.calling i ((messageFromPayload payload).keyed key)).answering } c row :=
    ⟨hown.claimed.claim, hown.claimed.stands, hown.claimed.status⟩
  refine hS.wp_attempt (fun S hS => ?_) fun S hS => hS.sound
  cases error with
  | some e =>
    cases began with
    | some t => exact hS.wp_finish hmax hv hown.thread rfl .failed (by decide) (fun _ => Option.isSome_of_eq_some hpayload) _ t _
    | none =>
      refine hS.wp_cmd fun now S hS => ?_
      exact hS.wp_finish hmax hv hown.thread rfl .failed (by decide) (fun _ => Option.isSome_of_eq_some hpayload) _ now _
  | none =>
    cases began with
    | some t => exact hS.wp_finish hmax hv hown.thread rfl .sent (by decide) (fun h => absurd h (by decide)) _ t _
    | none =>
      refine hS.wp_cmd fun now S hS => ?_
      exact hS.wp_finish hmax hv hown.thread rfl .sent (by decide) (fun h => absurd h (by decide)) _ now _

theorem messageFromPayload_keyed (message : OutboundEmail) (key : DeliveryKey) :
    message.keyed key = (messageFromPayload (payloadFromMessage message)).keyed key := rfl

/-- A message is for the candidate's address. -/
theorem At.wp_build {c : Candidate} (h : At settings.toLedgerSettings i key False v id e l S)
    {Q : Except Err Answer → Local App → Shared App τ → Prop} {k : Option OutboundEmail → Handler Answer}
    (hk : ∀ message S, (∀ m, message = some m → m.toAddress = c.email) →
      At settings.toLedgerSettings i key False v id e l S →
      SweepWp settings.toLedgerSettings i Q (k message) l S)
    (hQ : ∀ S err, AllSound settings.toLedgerSettings S → Q (.error err) l S) :
    SweepWp settings.toLedgerSettings i Q
      (build settings kind c >>= k) l S := by
  unfold build
  rw [bind_assoc]
  refine h.wp_attempt (fun S hS => ?_) fun S hS => hQ S _ hS.sound
  cases kind with
  | reminder => exact hS.wp_cmd fun count S hS => hk _ S (fun m hm => Option.some.inj hm ▸ rfl) hS
  | recap =>
    refine hS.wp_cmd fun recap S hS => hk _ S (fun m hm => ?_) hS
    obtain ⟨r, -, rfl⟩ := Option.map_eq_some_iff.mp hm
    rfl

/-- **The second session of a candidate**: what is sent has been stored, and what comes of it is recorded. -/
theorem wp_work (hmax : 1 ≤ settings.maxAttempts) (c : Candidate) (hS : AllSound settings.toLedgerSettings S)
    {cl : Claim τ} {row : EmailDelivery}
    (hown : Owns settings.toLedgerSettings i (c.key kind) c.email (standing (c.key kind) S) cl row) :
    SweepWp settings.toLedgerSettings i
      (fun _ _ S => AllSound settings.toLedgerSettings S) (work settings kind c) .idle S := by
  have hat : At settings.toLedgerSettings i (c.key kind) False (standing (c.key kind) S) id _ .idle S :=
    ⟨hS, rfl, False.elim, rfl, rfl, .inr ⟨cl, row, hown.claimed, hown.thread⟩⟩
  generalize standing (c.key kind) S = v at hat hown
  refine hat.wp_attempt (fun S hS => ?_) fun S hS => hS.sound
  refine hS.wp_cmd fun began S hS => ?_
  refine at_steady.wp_select hS fun l S hS => ?_
  have hrow : ((l.view S.db).delivery (c.key kind)).bind (·.payload) = row.payload := by
    rw [hS.row, hown.claimed.stands]
    rfl
  rw [hrow]
  cases hpayload : row.payload with
  | some payload =>
    show wp _ _ i _ (deliver (c.key kind) (messageFromPayload payload) (some began)) l S
    exact hS.wp_deliver hmax hown hpayload rfl _
  | none =>
    refine hS.wp_build (fun message S hto hS => ?_) fun S _ hS => hS
    cases message with
    | none =>
      refine hS.wp_attempt (fun S hS => ?_) fun S hS => hS.sound
      exact hS.wp_finish hmax hown.claimed hown.thread hown.idle .skipped (by decide) (fun h => absurd h (by decide)) _ _ _
    | some message =>
      -- the payload is stored before the sender is called
      refine hS.wp_attempt (fun S hS => ?_) fun S hS => hS.sound
      refine hS.wp_lock fun l S hS => hS.wp_write fun l S hS => ?_
      refine hS.wp_attempt (fun S hS => ?_) fun S hS => hS.sound
      have hto : (payloadFromMessage message).toAddress = cl.email := (hto message rfl).trans hown.email.symm
      refine hS.wp_commit hmax { row with payload := some (payloadFromMessage message) }
        (fun p hp => .stored _ hp hown.claimed hown.thread hpayload hto) ?_ fun S hS hv he => ?_
      · rw [hown.claimed.stands]
        exact writes_update fun _ => rfl
      · have hclaimed : Standing.ClaimedBy ⟨some { row with payload := some (payloadFromMessage message) }, v.obs⟩ cl
            { row with payload := some (payloadFromMessage message) } := ⟨hown.claimed.claim, rfl, hown.claimed.status⟩
        have hat : At settings.toLedgerSettings i (c.key kind) False
            ⟨some { row with payload := some (payloadFromMessage message) }, v.obs⟩ id _ .idle S :=
          ⟨hS, hv, False.elim, rfl, he, .inr ⟨cl, _, hclaimed, hown.thread⟩⟩
        refine hat.wp_attempt (fun S hS => ?_) fun S hS => hS.sound
        exact hS.wp_deliver hmax ⟨hclaimed, hown.thread, hown.email, hown.idle, hown.room⟩ rfl
          (messageFromPayload_keyed message _) none

theorem wp_runSweep (hmax : 1 ≤ settings.maxAttempts) (cs : List Candidate) (attempted : Nat)
    (hS : AllSound settings.toLedgerSettings S) :
    wpScript (SweepRely settings.toLedgerSettings i) (SweepStep settings.toLedgerSettings i) i
      (runSweep settings kind cs attempted) S := by
  induction cs generalizing attempted S with
  | nil => trivial
  | cons c cs ih =>
    unfold runSweep
    split
    · trivial
    · refine wp_mono (fun r _ S hr => ?_) (wp_claimSession hmax c hS)
      rcases r with e | answer
      · exact ih attempted hr.1
      · cases answer with
        | claimed =>
          obtain ⟨cl, row, hown⟩ := hr.2 rfl
          exact wp_mono (fun _ _ S hS => ih (attempted + 1) hS) (wp_work hmax c hr.1 hown)
        | _ => exact ih attempted hr.1

theorem wp_tick (hmax : 1 ≤ settings.maxAttempts) (hS : AllSound settings.toLedgerSettings S) :
    wpScript (SweepRely settings.toLedgerSettings i) (SweepStep settings.toLedgerSettings i) i
      ((Task.tick kind).script settings) S := by
  refine Email.wp_attempt sound_steady (fun _ _ kv h => ⟨(h.1.outside kv).1, h⟩) ⟨hS, rfl⟩ (fun S hS => ?_)
    fun _ _ => trivial
  refine sound_steady.wp_kv hS fun S hS => ⟨(hS.1.outside _).1, ?_⟩
  refine sound_steady.wp_kv (s := { S with kv := S.kv }) hS fun S hS => ⟨(hS.1.outside _).1, ?_⟩
  refine sound_steady.wp_select (s := { S with kv := S.kv }) hS fun l S hS => ?_
  exact sound_steady.wp_ret hS fun S hS => wp_runSweep hmax _ 0 hS.1

end Sessions

end CodeReader.Email
