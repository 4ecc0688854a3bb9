import CodeReader.Email.Spec
import CodeReader.Txn.History

/-!
# The last decision about notifications

Consent is stored as suppressions of single kinds and of all; an opt-in removes the suppression of its kind.

* `EmailOp.decision`, `lastDecision` — what the users have decided;
* `Follows` — the preference that is shown, and that the jobs obey, is the last decision;
* `consent_follows_iff` — **the result**: that is so as long as nobody opts in after an unsubscribe from all;
* `consent_lost` — what happens otherwise.
-/

namespace CodeReader.Email

open Txn Prog

/-! ## Decisions -/

namespace EmailOp

/-- What the operation decides about a kind of mail to user `u`. -/
def decision (settings : Settings) (u : UserId) (kind : Kind) : EmailOp → Option Bool
  | address _ _ => none
  | unsubscribe token =>
    match settings.parseUnsubscribeToken token with
    | none => none
    | some (id, k) => if id = u ∧ (k = .only kind ∨ k = .all) then some false else none
  | patchPrefs id payload => if id = u then payload.field kind else none

/-- User `u` opts in to a kind of mail. -/
def optsIn (u : UserId) (kind : Kind) : EmailOp → Prop
  | patchPrefs id payload => id = u ∧ payload.field kind = some true
  | _ => False

/-- A link unsubscribes user `u` from all mail. -/
def unsubscribesAll (settings : Settings) (u : UserId) : EmailOp → Prop
  | unsubscribe token => settings.parseUnsubscribeToken token = some (u, .all)
  | _ => False

end EmailOp

/-- The last decision about a kind of mail to user `u`. -/
def lastDecision (settings : Settings) (u : UserId) (kind : Kind) (ops : List EmailOp) : Option Bool :=
  ops.foldl (fun d o => (o.decision settings u kind).or d) none

theorem lastDecision_append_singleton {settings : Settings} {u : UserId} {kind : Kind} {ops : List EmailOp}
    {o : EmailOp} : lastDecision settings u kind (ops ++ [o]) =
      (o.decision settings u kind).or (lastDecision settings u kind ops) := by
  rw [lastDecision, List.foldl_append]
  rfl

/-- Mail of the kind is on, as the user is shown. -/
def EmailDb.enabled (db : EmailDb) (u : UserId) (kind : Kind) : Bool := (emailPreferences db u).enabled kind

/-- After the operation `o`, the preference is the last decision, the jobs obey it, an opt-in is answered with it, and
nothing but an opt-in has turned a kind on. -/
structure Follows (settings : Settings) (s : Store App) (u : UserId) (pre : List EmailOp) (o : EmailOp) : Prop where
  last : ∀ kind, (runOps settings s (pre ++ [o])).db.enabled u kind =
    (lastDecision settings u kind (pre ++ [o])).getD true
  swept : ∀ kind, (runOps settings s (pre ++ [o])).db.optedOut u kind =
    !(runOps settings s (pre ++ [o])).db.enabled u kind
  answered : ∀ kind, o.optsIn u kind →
    ∃ prefs, (o.run settings (runOps settings s pre)).res = .ok (.preferences prefs) ∧ prefs.enabled kind = true
  reenabled : ∀ kind, (runOps settings s pre).db.enabled u kind = false →
    (runOps settings s (pre ++ [o])).db.enabled u kind = true → o.optsIn u kind

/-! ## Suppressions -/

section Suppressions

variable {db cur : EmailDb} {s : Store App} {id u : UserId} {kind : Kind} {k k' : SuppressionKind}

theorem suppression_iff : db.suppression id k = true ↔ ∃ x ∈ db.suppressions, x.userId = id ∧ x.kind = k := by
  simp [EmailDb.suppression]

theorem enabled_eq : db.enabled u kind = !(db.suppression u (.only kind) || db.suppression u .all) := by
  have h : db.isSuppressed u kind = (db.suppression u (.only kind) || db.suppression u .all) := by
    rw [Bool.eq_iff_iff, Bool.or_eq_true, suppression_iff, suppression_iff, EmailDb.isSuppressed, Bool.or_eq_true]
    simp only [List.contains_iff_mem, List.mem_map, List.mem_filter, beq_iff_eq, and_assoc]
  rw [← h]
  cases kind <;> rfl

/-- The jobs filter by what the user is shown. -/
theorem optedOut_eq : db.optedOut u kind = !db.enabled u kind := by
  rw [enabled_eq, Bool.not_not, Bool.eq_iff_iff, Bool.or_eq_true, suppression_iff, suppression_iff, EmailDb.optedOut]
  simp only [List.any_eq_true, Bool.and_eq_true, Bool.or_eq_true, beq_iff_eq]
  constructor
  · rintro ⟨x, hx, hu, hk | hk⟩
    · exact .inl ⟨x, hx, hu, hk⟩
    · exact .inr ⟨x, hx, hu, hk⟩
  · rintro (⟨x, hx, hu, hk⟩ | ⟨x, hx, hu, hk⟩)
    · exact ⟨x, hx, hu, .inl hk⟩
    · exact ⟨x, hx, hu, .inr hk⟩

namespace EmailDb

/-- The tables with a suppression of the kind. -/
def suppressed (db : EmailDb) (id : UserId) (k : SuppressionKind) (reason source : String) : EmailDb :=
  if db.suppression id k then db else { db with suppressions := db.suppressions ++ [⟨id, k, reason, source⟩] }

def unsuppressed (db : EmailDb) (id : UserId) (k : SuppressionKind) : EmailDb :=
  { db with suppressions := db.suppressions.filter fun s => !(s.userId == id && s.kind == k) }

/-- The tables after one field of the preferences. -/
def preferred (db : EmailDb) (id : UserId) (payload : EmailPrefsRequest) (kind : Kind) : EmailDb :=
  match payload.field kind with
  | none => db
  | some true => db.unsuppressed id (.only kind)
  | some false => db.suppressed id (.only kind) "unsubscribe" "profile"

end EmailDb

theorem suppression_suppressed {reason source : String} : (db.suppressed id k reason source).suppression u k' =
    (db.suppression u k' || (id = u && k = k')) := by
  unfold EmailDb.suppressed
  split
  · rename_i h
    by_cases he : id = u ∧ k = k'
    · rw [← he.1, ← he.2, h]
      simp
    · rcases not_and_or.mp he with h | h <;> simp [h]
  · simp [EmailDb.suppression, beq_eq_decide]

theorem user_suppressed {reason source : String} :
    ((db.suppressed id k reason source).user u).isSome = (db.user u).isSome := by
  unfold EmailDb.suppressed
  split <;> rfl

theorem suppression_unsuppressed : (db.unsuppressed id k).suppression u k' =
    (db.suppression u k' && !(id = u && k = k')) := by
  rw [Bool.eq_iff_iff, Bool.and_eq_true, suppression_iff, suppression_iff, EmailDb.unsuppressed]
  simp only [List.mem_filter, Bool.not_eq_true', Bool.and_eq_false_iff, beq_eq_false_iff_ne, decide_eq_false_iff_not]
  constructor
  · rintro ⟨x, ⟨hx, hne⟩, rfl, rfl⟩
    exact ⟨⟨x, hx, rfl, rfl⟩, hne.imp Ne.symm Ne.symm⟩
  · rintro ⟨⟨x, hx, rfl, rfl⟩, hne⟩
    exact ⟨x, ⟨hx, hne.imp Ne.symm Ne.symm⟩, rfl, rfl⟩

theorem user_preferred {payload : EmailPrefsRequest} :
    ((db.preferred id payload kind).user u).isSome = (db.user u).isSome := by
  unfold EmailDb.preferred
  split
  · rfl
  · rfl
  · exact user_suppressed

theorem suppression_preferred {payload : EmailPrefsRequest} : (db.preferred id payload kind).suppression u k =
    if id = u ∧ k = .only kind then
      match payload.field kind with
      | none => db.suppression u k
      | some on => !on
    else db.suppression u k := by
  unfold EmailDb.preferred
  split_ifs with h
  · obtain ⟨rfl, rfl⟩ := h
    cases payload.field kind with
    | none => rfl
    | some on => cases on <;> simp [suppression_suppressed, suppression_unsuppressed]
  · have h' : ¬ (id = u ∧ SuppressionKind.only kind = k) := fun he => h ⟨he.1, he.2.symm⟩
    cases payload.field kind with
    | none => rfl
    | some on =>
      have hne : (decide (id = u) && decide (SuppressionKind.only kind = k)) = false := by simpa using h'
      cases on with
      | true => rw [suppression_unsuppressed, hne, Bool.not_false, Bool.and_true]
      | false => rw [suppression_suppressed, hne, Bool.or_false]

/-! ### What the routes do to them -/

theorem exec_suppress {reason source : String} : (suppress id k reason source).exec cur s =
    if cur.suppression id k then ⟨.ok (), cur, s⟩
    else if (cur.user id).isNone then ⟨.error (.integrity "email_suppressions_user_id_fkey"), cur, s⟩
    else ⟨.ok (), cur.suppressed id k reason source, s⟩ := by
  simp only [suppress, lockOn_bind, query_bind, exec_lock, exec_select]
  cases h : cur.suppression id k with
  | true => rfl
  | false =>
    simp only [Bool.false_eq_true, if_false, exec_select]
    cases hu : (cur.user id).isNone with
    | true => rfl
    | false => simp [EmailDb.suppressed, h, update]

theorem exec_unsuppress : (unsuppress id k).exec cur s = ⟨.ok (), cur.unsuppressed id k, s⟩ := rfl

/-- A user that is there is suppressed. -/
theorem exec_suppress_user {reason source : String} (hu : (cur.user id).isSome = true) :
    (suppress id k reason source).exec cur s = ⟨.ok (), cur.suppressed id k reason source, s⟩ := by
  have hnone : (cur.user id).isNone = false := by simpa using hu
  rw [exec_suppress, hnone]
  by_cases h : cur.suppression id k = true
  · rw [if_pos h, EmailDb.suppressed, if_pos h]
  · rw [if_neg h]
    rfl

theorem exec_applyPref {payload : EmailPrefsRequest} (hu : (cur.user id).isSome = true) :
    (applyPref id payload kind).exec cur s = ⟨.ok (), cur.preferred id payload kind, s⟩ := by
  unfold applyPref EmailDb.preferred
  cases payload.field kind with
  | none => rfl
  | some on =>
    cases on with
    | true => rfl
    | false => exact exec_suppress_user hu

/-- User `u` is still there, and the suppressions of `u` are as they were. -/
def KeepsConsent (u : UserId) (db db' : EmailDb) : Prop :=
  (db'.user u).isSome = (db.user u).isSome ∧ ∀ k, db'.suppression u k = db.suppression u k

theorem KeepsConsent.refl (db : EmailDb) : KeepsConsent u db db := ⟨rfl, fun _ => rfl⟩

theorem KeepsConsent.trans {db db' db'' : EmailDb} (h : KeepsConsent u db db') (h' : KeepsConsent u db' db'') :
    KeepsConsent u db db'' := ⟨h'.1.trans h.1, fun k => (h'.2 k).trans (h.2 k)⟩

/-- Another user's preference. -/
theorem exec_applyPref_other {payload : EmailPrefsRequest} (hid : id ≠ u) :
    ((applyPref id payload kind).exec cur s).store = s ∧
      KeepsConsent u cur ((applyPref id payload kind).exec cur s).cur := by
  unfold applyPref
  cases payload.field kind with
  | none => exact ⟨rfl, rfl, fun _ => rfl⟩
  | some on =>
    cases on with
    | true => exact ⟨rfl, rfl, fun k => by simp [exec_unsuppress, suppression_unsuppressed, hid]⟩
    | false =>
      dsimp only
      rw [exec_suppress]
      split_ifs with h hu
      · exact ⟨rfl, rfl, fun _ => rfl⟩
      · exact ⟨rfl, rfl, fun _ => rfl⟩
      · exact ⟨rfl, user_suppressed, fun k => by simp [suppression_suppressed, hid]⟩

end Suppressions

/-! ## What the operations do to a user's consent -/

section Operations

variable {settings : Settings} {s : Store App} {u : UserId} {kind : Kind} {o : EmailOp} {pre ops : List EmailOp}

theorem EmailOp.after_address (id : UserId) (op : AddressOp) :
    (address id op).after settings s = (op.run settings id s).store := by
  simp only [after, run, program, exec_bind, AddressOp.run]
  cases h : ((op.program settings id).exec s.db s).res <;> simp [andThen, h]

theorem keepsConsent_address (id : UserId) (op : AddressOp) :
    KeepsConsent u s.db ((EmailOp.address id op).after settings s).db := by
  have hflushed : ∀ (db : EmailDb) (loaded new : Addresses), KeepsConsent u db (db.flushed id loaded new) := by
    intro db loaded new
    unfold EmailDb.flushed
    split
    · exact .refl _
    · refine ⟨?_, fun _ => rfl⟩
      simp only [EmailDb.user, EmailDb.updateUser, List.find?_map, Option.isSome_map]
      congr 2
      funext x
      simp only [Function.comp_apply]
      split <;> rfl
  rw [EmailOp.after_address]
  have heffect : AddressEffect settings id s.db op (op.run settings id s).res (op.run settings id s).store.db :=
    op.effect
  generalize (op.run settings id s).res = res at heffect
  generalize (op.run settings id s).store.db = db' at heffect ⊢
  cases heffect with
  | refused op e => exact .refl _
  | issued hu hissues hfresh => exact hflushed _ _ _
  | verified hu hcan hc => exact hflushed _ _ _
  | withdrawn hu => exact hflushed _ _ _

/-- The consents of a user after the preferences of the user. -/
theorem run_patchPrefs (payload : EmailPrefsRequest) (hu : (s.db.user u).isSome = true) :
    (EmailOp.patchPrefs u payload).run settings s =
      let db := (s.db.preferred u payload .reminder).preferred u payload .recap
      ⟨.ok (.preferences (emailPreferences db u)), db, ⟨db, s.kv⟩⟩ := by
  have hu' : ((s.db.preferred u payload .reminder).user u).isSome = true := user_preferred.trans hu
  simp only [EmailOp.run, EmailOp.program, patchEmailPrefs, exec_bind, exec_applyPref hu, exec_applyPref hu', andThen,
    commitTx, exec_commit, exec_ret, query, exec_select, pure_eq]

/-- The preferences of another user. -/
theorem after_patchPrefs_other {id : UserId} (payload : EmailPrefsRequest) (hid : id ≠ u) :
    KeepsConsent u s.db ((EmailOp.patchPrefs id payload).after settings s).db := by
  obtain ⟨hstore, hkeep⟩ : ((applyPref id payload .reminder).exec s.db s).store = s ∧
      KeepsConsent u s.db ((applyPref id payload .reminder).exec s.db s).cur := exec_applyPref_other hid
  simp only [EmailOp.after, EmailOp.run, EmailOp.program, patchEmailPrefs, exec_bind, andThen, hstore]
  cases ((applyPref id payload .reminder).exec s.db s).res with
  | error e => exact .refl _
  | ok _ =>
    generalize ((applyPref id payload .reminder).exec s.db s).cur = cur at hkeep ⊢
    obtain ⟨hstore, hkeep'⟩ : ((applyPref id payload .recap).exec cur s).store = s ∧
        KeepsConsent u cur ((applyPref id payload .recap).exec cur s).cur := exec_applyPref_other hid
    simp only [hstore]
    cases ((applyPref id payload .recap).exec cur s).res with
    | error e => exact .refl _
    | ok _ => exact hkeep.trans hkeep'

/-- A link of another user. -/
theorem after_unsubscribe {token : String} {id : UserId} {k : SuppressionKind}
    (hparse : settings.parseUnsubscribeToken token = some (id, k)) :
    ((EmailOp.unsubscribe token).after settings s).db =
      ((suppress id k "unsubscribe" "email_link").exec s.db s).cur := by
  simp only [EmailOp.after, EmailOp.run, EmailOp.program, applyUnsubscribe, hparse, exec_bind, exec_suppress]
  split_ifs <;> rfl

/-- What an operation decides is what becomes of the preference, unless it opts in against a suppression of all. -/
structure Decides (settings : Settings) (u : UserId) (o : EmailOp) (db db' : EmailDb) : Prop where
  user : (db'.user u).isSome = true
  all : db'.suppression u .all = true ↔ db.suppression u .all = true ∨ o.unsubscribesAll settings u
  enabled : ∀ kind, db'.enabled u kind = match o.decision settings u kind with
    | none => db.enabled u kind
    | some on => on && !db.suppression u .all

theorem KeepsConsent.decides {db db' : EmailDb} (h : KeepsConsent u db db') (hu : (db.user u).isSome = true)
    (hnone : ∀ kind, o.decision settings u kind = none) (hall : ¬ o.unsubscribesAll settings u) :
    Decides settings u o db db' where
  user := h.1.trans hu
  all := by rw [h.2, or_iff_left hall]
  enabled kind := by rw [hnone, enabled_eq, h.2, h.2, ← enabled_eq]

/-- **One step** for consent. -/
theorem EmailOp.decides (hu : (s.db.user u).isSome = true) (o : EmailOp) :
    Decides settings u o s.db (o.after settings s).db := by
  cases o with
  | address id op => exact (keepsConsent_address id op).decides hu (fun _ => rfl) not_false
  | unsubscribe token =>
    cases hparse : settings.parseUnsubscribeToken token with
    | none =>
      have hsame : ((unsubscribe token).after settings s).db = s.db := by
        simp [after, run, program, applyUnsubscribe, hparse]
      rw [hsame]
      refine (KeepsConsent.refl _).decides hu (fun kind => by simp [decision, hparse]) fun h => ?_
      rw [unsubscribesAll, hparse] at h
      cases h
    | some parsed =>
      obtain ⟨id, k⟩ := parsed
      rw [after_unsubscribe hparse]
      by_cases hid : id = u
      · subst hid
        rw [exec_suppress_user hu]
        refine ⟨user_suppressed.trans hu, ?_, fun kind => ?_⟩
        · simp [suppression_suppressed, unsubscribesAll, hparse]
        · simp only [enabled_eq, suppression_suppressed, decision, hparse, true_and]
          by_cases hk : k = .only kind ∨ k = .all
          · rw [if_pos hk]
            rcases hk with rfl | rfl <;> simp
          · rw [if_neg hk]
            obtain ⟨h₁, h₂⟩ := not_or.mp hk
            simp [h₁, h₂]
      · have hkeep : KeepsConsent u s.db ((suppress id k "unsubscribe" "email_link").exec s.db s).cur := by
          rw [exec_suppress]
          split_ifs
          · exact .refl _
          · exact .refl _
          · exact ⟨user_suppressed, fun k' => by simp [suppression_suppressed, hid]⟩
        refine hkeep.decides hu (fun kind => by simp [decision, hparse, hid]) fun h => ?_
        rw [unsubscribesAll, hparse] at h
        exact hid (congrArg Prod.fst (Option.some.inj h))
  | patchPrefs id payload =>
    by_cases hid : id = u
    · subst hid
      rw [after, run_patchPrefs payload hu]
      refine ⟨user_preferred.trans (user_preferred.trans hu), ?_, fun kind => ?_⟩
      · simp [suppression_preferred, unsubscribesAll]
      · -- a field only touches the suppression of its kind
        cases kind with
        | reminder => cases hf : payload.field .reminder <;> simp [enabled_eq, suppression_preferred, decision, hf]
        | recap => cases hf : payload.field .recap <;> simp [enabled_eq, suppression_preferred, decision, hf]
    · exact (after_patchPrefs_other payload hid).decides hu (fun kind => by simp [decision, hid]) not_false

theorem runOps_user (hu : (s.db.user u).isSome = true) : ((runOps settings s ops).db.user u).isSome = true := by
  induction ops using List.reverseRecOn with
  | nil => exact hu
  | append_singleton ops o ih =>
    rw [runOps_append_singleton]
    exact (EmailOp.decides ih o).user

/-- A suppression of all comes from a link. -/
theorem suppression_all_iff (hu : (s.db.user u).isSome = true) (hs : s.db.suppression u .all = false) :
    (runOps settings s ops).db.suppression u .all = true ↔ ∃ o ∈ ops, o.unsubscribesAll settings u := by
  induction ops using List.reverseRecOn with
  | nil => simp [runOps, hs]
  | append_singleton ops o ih =>
    rw [runOps_append_singleton, (EmailOp.decides (runOps_user hu) o).all, ih]
    simp [or_and_right, exists_or]

theorem optsIn_iff : o.optsIn u kind ↔ o.decision settings u kind = some true := by
  cases o with
  | address id op => simp [EmailOp.optsIn, EmailOp.decision]
  | unsubscribe token =>
    simp only [EmailOp.optsIn, EmailOp.decision, false_iff]
    split
    · exact fun h => nomatch h
    · split_ifs <;> simp
  | patchPrefs id payload =>
    simp only [EmailOp.optsIn, EmailOp.decision]
    split_ifs with h <;> simp [h]

/-- An opt-in is answered with the preferences that it leaves. -/
theorem answer_of_optsIn (hu : (s.db.user u).isSome = true) (h : o.optsIn u kind) :
    ∃ prefs, (o.run settings s).res = .ok (.preferences prefs) ∧
      prefs.enabled kind = (o.after settings s).db.enabled u kind := by
  cases o with
  | address id op => exact h.elim
  | unsubscribe token => exact h.elim
  | patchPrefs id payload =>
    obtain ⟨rfl, -⟩ := h
    rw [EmailOp.after, run_patchPrefs payload hu]
    exact ⟨_, rfl, rfl⟩

/-- Nobody opts in after an unsubscribe from all. -/
def OptsInBeforeAll (settings : Settings) (u : UserId) (pre : List EmailOp) (o : EmailOp) : Prop :=
  ∀ kind, o.optsIn u kind → ∀ o' ∈ pre, ¬ o'.unsubscribesAll settings u

/-- **Consent is the last decision** in a run from a user without suppressions, if and only if the user never opts in
after a link has unsubscribed it from all mail. -/
theorem consent_follows_iff (hu : (s.db.user u).isSome = true) (hs : ∀ k, s.db.suppression u k = false) :
    Steps (Follows settings s u) ops ↔ Steps (OptsInBeforeAll settings u) ops := by
  refine steps_iff fun pre o hpre _ => ?_
  -- the preference before the operation
  have hbefore : ∀ kind, (runOps settings s pre).db.enabled u kind = (lastDecision settings u kind pre).getD true := by
    cases pre using List.reverseRecOn with
    | nil => exact fun kind => by simp [runOps, lastDecision, enabled_eq, hs]
    | append_singleton pre o' => exact (steps_append_singleton.mp hpre).2.last
  have hall : (runOps settings s pre).db.suppression u .all = true ↔ ∃ o ∈ pre, o.unsubscribesAll settings u :=
    suppression_all_iff hu (hs .all)
  have hu' : ((runOps settings s pre).db.user u).isSome = true := runOps_user hu
  have hstep : Decides settings u o (runOps settings s pre).db (runOps settings s (pre ++ [o])).db := by
    rw [runOps_append_singleton]
    exact o.decides hu'
  constructor
  · intro h kind hopt o' ho' hunsub
    have hon := h.last kind
    rw [hstep.enabled, lastDecision_append_singleton, optsIn_iff.mp hopt, hall.mpr ⟨o', ho', hunsub⟩] at hon
    cases hon
  · intro h
    have hlast : ∀ kind, (runOps settings s (pre ++ [o])).db.enabled u kind =
        (lastDecision settings u kind (pre ++ [o])).getD true := by
      intro kind
      rw [hstep.enabled, lastDecision_append_singleton]
      cases hd : o.decision settings u kind with
      | none => exact hbefore kind
      | some on =>
        cases on with
        | false => rfl
        | true =>
          have hnone : (runOps settings s pre).db.suppression u .all = false := by
            refine eq_false_of_ne_true fun ht => ?_
            obtain ⟨o', ho', hunsub⟩ := hall.mp ht
            exact h kind (optsIn_iff.mpr hd) o' ho' hunsub
          rw [hnone]
          rfl
    refine ⟨hlast, fun _ => optedOut_eq, fun kind hopt => ?_, fun kind hoff hon => ?_⟩
    · obtain ⟨prefs, hres, hprefs⟩ := answer_of_optsIn hu' hopt
      refine ⟨prefs, hres, ?_⟩
      rw [hprefs, ← runOps_append_singleton]
      rw [hlast, lastDecision_append_singleton, optsIn_iff.mp hopt]
      rfl
    · rw [hstep.enabled] at hon
      cases hd : o.decision settings u kind with
      | none =>
        rw [hd, hoff] at hon
        cases hon
      | some on =>
        cases on with
        | true => exact optsIn_iff.mpr hd
        | false =>
          rw [hd] at hon
          cases hon

end Operations

/-! ### One user -/

/-- A deployment whose tokens are what they stand for. -/
def Settings.plain : Settings where
  normalizeEmail := .ok
  verificationTokenHash := id
  addressBucketKey := id
  parseUnsubscribeToken token :=
    if token = "1:all" then some (1, .all) else if token = "1:recap" then some (1, .only .recap) else none
  verificationTtl := 10
  verificationSendsPerHour := 5

def User.plain (id : UserId) : User := ⟨id, none, none, none, "UTC", none, none⟩

/-- One user, and nothing else. -/
def oneUser : Store App := ⟨⟨[.plain 1], [], [], []⟩, .lost⟩

/-- The reminders are turned off and on again, and a link turns the recap off. -/
def decisions : List EmailOp :=
  [.patchPrefs 1 ⟨some (some false), none⟩, .patchPrefs 1 ⟨some (some true), some none⟩, .unsubscribe "1:recap"]

theorem decisions_before_all : Steps (OptsInBeforeAll .plain 1) decisions := by
  intro pre o hpre kind _ o' ho' hunsub
  have hmem : o' ∈ decisions := (hpre.subset (List.mem_append_left _ ho'))
  have hnone : ∀ o ∈ decisions, ¬ o.unsubscribesAll .plain 1 := by
    intro o ho
    simp only [decisions, List.mem_cons, List.not_mem_nil, or_false] at ho
    rcases ho with rfl | rfl | rfl
    · exact id
    · exact id
    · have hparse : Settings.plain.parseUnsubscribeToken "1:recap" = some (1, .only .recap) := by decide +kernel
      rw [EmailOp.unsubscribesAll, hparse]
      decide
  exact hnone o' hmem hunsub

theorem consent_follows_decisions : Steps (Follows .plain oneUser 1) decisions ∧
    emailPreferences (runOps .plain oneUser decisions).db 1 = ⟨true, false⟩ :=
  ⟨(consent_follows_iff rfl fun _ => rfl).mpr decisions_before_all, by decide +kernel⟩

/-- A link unsubscribes from all, and then the owner turns the reminders on. -/
def backOn : List EmailOp := [.unsubscribe "1:all", .patchPrefs 1 ⟨some (some true), none⟩]

/-- **An opt-in that is lost**: after an unsubscribe from all, the reminders stay off, and the answer says so. -/
theorem consent_lost : lastDecision .plain 1 .reminder backOn = some true ∧
    emailPreferences (runOps .plain oneUser backOn).db 1 = ⟨false, false⟩ ∧
    ((EmailOp.patchPrefs 1 ⟨some (some true), none⟩).run .plain (runOps .plain oneUser [.unsubscribe "1:all"])).res =
      .ok (.preferences ⟨false, false⟩) ∧ ¬ Steps (Follows .plain oneUser 1) backOn := by
  have hdecided : lastDecision .plain 1 .reminder backOn = some true := by decide +kernel
  have hshown : emailPreferences (runOps .plain oneUser backOn).db 1 = ⟨false, false⟩ := by decide +kernel
  refine ⟨hdecided, hshown, by decide +kernel, fun h => ?_⟩
  have hlast := (h [.unsubscribe "1:all"] _ List.prefix_rfl).last .reminder
  have hoff : (runOps .plain oneUser backOn).db.enabled 1 .reminder = false := by rw [EmailDb.enabled, hshown]; rfl
  exact absurd (hoff.symm.trans (hlast.trans (congrArg (·.getD true) hdecided))) Bool.false_ne_true

end CodeReader.Email
