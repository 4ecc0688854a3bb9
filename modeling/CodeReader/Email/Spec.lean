import CodeReader.Email.Deliveries
import CodeReader.Txn.Aside
import Mathlib.Data.List.Nodup

/-!
# What the email routes do when they run alone

* `AddressOp`, `EmailOp` — the routes as operations; `runOps` — what a run of them leaves;
* `EmailDb.issued`, `EmailDb.verified`, `EmailDb.withdrawn` — the tables after each of them;
* `AddressEffect` — all that an operation on an address can do: `AddressOp.effect`;
* `EmailDb.suppressed`, `EmailDb.unsuppressed` — the tables after a decision about consent.
-/

namespace CodeReader.Email

open Txn Prog
open Auth (citext)

/-! ## Operations -/

/-- An operation of a user on its own address. -/
inductive AddressOp
  | request (rawEmail : String) (env : IssueEnv)
  | resend (env : IssueEnv)
  | verify (rawToken : String) (now : Int)
  | delete (now : Int)

def AddressOp.program (settings : Settings) (id : UserId) : AddressOp → Handler EmailState
  | request rawEmail env => requestEmail settings id rawEmail env
  | resend env => resendVerification settings id env
  | verify rawToken now => verifyEmail settings id rawToken now
  | delete now => deleteEmail id now

/-- An operation on the mail of users. -/
inductive EmailOp
  | address (id : UserId) (op : AddressOp)
  | unsubscribe (token : String)
  | patchPrefs (id : UserId) (payload : EmailPrefsRequest)

inductive EmailReply
  | state (state : EmailState)
  | unsubscribed (kind : SuppressionKind)
  | preferences (prefs : EmailPreferences)
  deriving DecidableEq

namespace EmailOp

def program (settings : Settings) : EmailOp → Handler EmailReply
  | address id op => do return .state (← op.program settings id)
  | unsubscribe token => do return .unsubscribed (← applyUnsubscribe settings token)
  | patchPrefs id payload => do return .preferences (← patchEmailPrefs id payload)

/-- The operation run alone. -/
def run (settings : Settings) (o : EmailOp) (s : Store App) : Txn.Run App EmailReply := (o.program settings).exec s.db s

def after (settings : Settings) (s : Store App) (o : EmailOp) : Store App := (o.run settings s).store

end EmailOp

/-- The operations one after another. -/
def runOps (settings : Settings) (s : Store App) (ops : List EmailOp) : Store App :=
  ops.foldl (fun s o => o.after settings s) s

theorem runOps_append_singleton {settings : Settings} {s : Store App} {ops : List EmailOp} {o : EmailOp} :
    runOps settings s (ops ++ [o]) = o.after settings (runOps settings s ops) := by
  rw [runOps, List.foldl_append]
  rfl

/-! ## The tables -/

namespace EmailDb

/-- The outstanding tokens in `seen` are killed. -/
def killed (db : EmailDb) (seen : List String) (now : Int) : EmailDb :=
  db.updateTokens (fun t => seen.contains t.tokenHash && t.outstanding) (.invalidated now)

/-- The user's row is flushed. -/
def flushed (db : EmailDb) (id : UserId) (loaded new : Addresses) : EmailDb :=
  if new = loaded then db else db.updateUser id (.flush loaded new)

def added (db : EmailDb) (row : EmailVerificationToken) : EmailDb := { db with tokens := db.tokens ++ [row] }

/-- The token `h` is consumed. -/
def consumed (db : EmailDb) (h : String) (now : Int) : EmailDb :=
  db.updateTokens (·.tokenHash == h) (.consumed now)

/-- A new token, after `loaded` and the tokens `seen` were read. -/
def issued (db : EmailDb) (settings : Settings) (id : UserId) (loaded : Addresses) (seen : List String)
    (email : String) (env : IssueEnv) : EmailDb :=
  ((db.killed seen env.now).flushed id loaded { loaded with pendingEmail := some email }).added
    (env.row settings id email)

/-- The token `row` is consumed, and its address promoted. -/
def verified (db : EmailDb) (id : UserId) (loaded : Addresses) (row : EmailVerificationToken) (seen : List String)
    (now : Int) : EmailDb :=
  ((db.consumed row.tokenHash now).killed seen now).flushed id loaded ⟨some row.email, some now, none⟩

def withdrawn (db : EmailDb) (id : UserId) (loaded : Addresses) (seen : List String) (now : Int) : EmailDb :=
  (db.killed seen now).flushed id loaded ⟨none, none, none⟩

theorem user_some {db : EmailDb} {id : UserId} {u : User} (h : db.user id = some u) : u ∈ db.users ∧ u.id = id :=
  ⟨List.mem_of_find?_eq_some h, by simpa using List.find?_some h⟩

/-- The user, unless it is deleted. -/
def activeUser (db : EmailDb) (id : UserId) : Option User := (db.user id).filter fun u => u.deletedAt.isNone

theorem activeUser_some {db : EmailDb} {id : UserId} {u : User} (h : db.activeUser id = some u) :
    db.user id = some u ∧ u.deletedAt = none := by
  obtain ⟨hu, hd⟩ := Option.filter_eq_some_iff.mp h
  exact ⟨hu, by simpa using hd⟩

theorem activeUser_id {db : EmailDb} {id : UserId} {u : User} (h : db.activeUser id = some u) : u.id = id :=
  (user_some (activeUser_some h).1).2

theorem token_some {db : EmailDb} {h : String} {t : EmailVerificationToken} (ht : db.token h = some t) :
    t ∈ db.tokens ∧ t.tokenHash = h :=
  ⟨List.mem_of_find?_eq_some ht, by simpa using List.find?_some ht⟩

theorem token_eq_none {db : EmailDb} {h : String} : db.token h = none ↔ ∀ t ∈ db.tokens, t.tokenHash ≠ h := by
  simp [token]

end EmailDb

/-! ## What the parts do -/

section Parts

variable {settings : Settings} {id : UserId} {cur : EmailDb} {s : Store App}

theorem exec_lockTokens (hs : List String) : (lockTokens hs).exec cur s = ⟨.ok (), cur, s⟩ := by
  induction hs with
  | nil => rfl
  | cons h hs ih => exact ih

theorem exec_invalidateOutstanding (now : Int) : (invalidateOutstanding id now).exec cur s =
    ⟨.ok (), cur.killed (cur.outstandingTokens id) now, s⟩ := by
  simp only [invalidateOutstanding, query_bind, note_bind, exec_select, exec_emit, exec_bind, exec_lockTokens, andThen]
  rfl

theorem exec_flushUser (loaded new : Addresses) : (flushUser id loaded new).exec cur s =
    ⟨.ok (), cur.flushed id loaded new, s⟩ := by
  unfold flushUser EmailDb.flushed
  split <;> rfl

theorem exec_loadUser : (loadUser id).exec cur s = ⟨match cur.activeUser id with
    | none => .error invalidAccessToken
    | some user => .ok user, cur, s⟩ := by
  simp only [loadUser, query_bind, exec_select, EmailDb.activeUser]
  cases cur.user id with
  | none => rfl
  | some user => cases h : user.deletedAt <;> simp [h, Option.filter]

/-- The unique index on verified addresses rejects the user's row. -/
def EmailDb.conflicted (db : EmailDb) (id : UserId) : Bool :=
  ((db.user id).bind User.verifiedAddress).any fun address => db.addressTaken id address

theorem exec_addressConflict : (addressConflict id).exec cur s = ⟨.ok (cur.conflicted id), cur, s⟩ := by
  unfold EmailDb.conflicted
  simp only [addressConflict, query_bind, exec_select]
  cases (cur.user id).bind User.verifiedAddress <;> rfl

/-- A token is given only where the limit allows one. -/
theorem tokenBucketScript_allowed {limit window : Nat} {now : Int} {data : Option Bucket}
    (h : (tokenBucketScript limit window now data).1 = true) : 1 ≤ limit := by
  have hmin : ∀ {tokens : Rat} {b b' : Bucket},
      (if 1 ≤ min (limit : Rat) tokens then (true, b) else (false, b')).1 = true → 1 ≤ limit := by
    intro tokens b b' h
    split_ifs at h with hmin
    exact_mod_cast (le_min_iff.mp hmin).1
  cases data <;> exact hmin h

/-- A bucket that was never used gives a token. -/
theorem tokenBucketScript_new {limit window : Nat} (hlimit : 1 ≤ limit) (now : Int) :
    (tokenBucketScript limit window now none).1 = true := by
  have hmin : (1 : Rat) ≤ limit := by exact_mod_cast hlimit
  simp [tokenBucketScript, hmin]

/-- The throttle only talks to Redis, and lets a mail pass only where the limit allows one. -/
theorem enforceSendThrottle_aside (settings : Settings) (id : UserId) (email : String) :
    (enforceSendThrottle settings id email).Aside fun r => r = .ok () → 1 ≤ settings.verificationSendsPerHour := by
  have hbucket : ∀ key, (enforceBucket settings key).Aside fun r => r = .ok () → 1 ≤ settings.verificationSendsPerHour := by
    intro key o o'
    dsimp only
    cases hallowed : (Outside.checkTokenBucket key settings.verificationSendsPerHour 3600 o.clock o').1 with
    | true => exact fun _ => tokenBucketScript_allowed hallowed
    | false => exact fun h => nomatch h
  intro o
  dsimp only
  cases (Outside.claimCooldown _ o).1 with
  | true => exact (hbucket _).bind (fun _ _ => hbucket _) fun e _ h => nomatch h
  | false => exact fun h => nomatch h

/-- Redis when it has been lost. -/
def Outside.lost : Outside :=
  ⟨[], fun _ => none, 0, .fine, fun _ => none, fun _ _ => none, fun _ _ => none⟩

/-- The buckets of a user and of an address are different ones. -/
theorem bucketKeys_ne (id : UserId) (addr : String) : s!"rl:emailsend:addr:{addr}" ≠ s!"rl:emailsend:user:{id}" := by
  intro h
  have hchars := congrArg (fun key : String => key.toList.take 14) h
  simp [toString] at hchars

theorem checkTokenBucket_other {key key' : String} (hkey : key' ≠ key) (limit window : Nat) (now : Int) (o : Outside) :
    (o.checkTokenBucket key limit window now).2.buckets key' = o.buckets key' := by
  simp [Outside.checkTokenBucket, hkey]

/-- The throttle lets a first mail pass. -/
theorem exec_enforceSendThrottle (hlimit : 1 ≤ settings.verificationSendsPerHour) (email : String) (db : EmailDb) :
    ∃ kv, (enforceSendThrottle settings id email).exec cur ⟨db, .lost⟩ = ⟨.ok (), cur, ⟨db, kv⟩⟩ := by
  have hbucket : ∀ (key : String) (kv : Outside), kv.buckets key = none →
      (enforceBucket settings key).exec cur ⟨db, kv⟩ =
        ⟨.ok (), cur, ⟨db, (Outside.checkTokenBucket key settings.verificationSendsPerHour 3600 kv.clock kv).2⟩⟩ := by
    intro key kv hkey
    have hallowed : (Outside.checkTokenBucket key settings.verificationSendsPerHour 3600 kv.clock kv).1 = true := by
      rw [Outside.checkTokenBucket, hkey]
      exact tokenBucketScript_new hlimit _
    simp only [enforceBucket, cmd_bind, exec_kv, hallowed]
    rfl
  simp only [enforceSendThrottle, cmd_bind, exec_kv, Outside.claimCooldown, Outside.lost, List.contains_nil,
    Bool.false_eq_true, if_false, if_true, exec_bind]
  rw [hbucket _ _ rfl]
  simp only [andThen]
  exact ⟨_, hbucket _ _ (checkTokenBucket_other (bucketKeys_ne id _) _ _ _ _)⟩

/-- The hash of a new token is free. -/
abbrev EmailDb.fresh (db : EmailDb) (settings : Settings) (env : IssueEnv) : Prop :=
  db.token (settings.verificationTokenHash env.rawToken) = none

theorem token_update {db : EmailDb} {h : String} (p : EmailVerificationToken → Bool)
    (g : EmailVerificationToken → EmailVerificationToken) (hg : ∀ t, (g t).tokenHash = t.tokenHash) :
    (db.updateTokens p g).token h = (db.token h).map fun t => if p t then g t else t := by
  have hkey : ∀ t, (if p t = true then g t else t).tokenHash = t.tokenHash := by
    intro t
    split
    · exact hg t
    · rfl
  simp only [EmailDb.token, EmailDb.updateTokens, List.find?_map, Function.comp_def, hkey]

theorem token_flushed {db : EmailDb} {h : String} {loaded new : Addresses} :
    (db.flushed id loaded new).token h = db.token h := by
  unfold EmailDb.flushed
  split <;> rfl

/-- The new addresses of a user that asks for a verification. -/
def Addresses.awaiting (a : Addresses) (email : String) : Addresses := { a with pendingEmail := some email }

/-- A new token is issued, or its hash is taken, or the mail is refused. -/
theorem exec_issueAndSend (cur : EmailDb) (s : Store App) (user : User) (email : String) (env : IssueEnv) :
    ∃ cur', (issueAndSend settings user email env).exec cur s =
      ⟨if cur.fresh settings env then
          if env.refused then .error emailSendFailed else .ok (user.addresses.awaiting email)
        else .error (.integrity "email_verification_tokens_token_hash_key"), cur', s⟩ ∧
      (cur.fresh settings env →
        cur' = cur.issued settings user.id user.addresses (cur.outstandingTokens user.id) email env) := by
  simp only [issueAndSend, exec_bind, exec_invalidateOutstanding, exec_flushUser, andThen, lockOn, query, exec_lock,
    exec_select, exec_ret, token_flushed]
  have hfree : ((cur.killed (cur.outstandingTokens user.id) env.now).token (env.row settings user.id email).tokenHash) =
      none ↔ cur.fresh settings env := by
    rw [EmailDb.killed, token_update _ (.invalidated env.now) fun _ => rfl, Option.map_eq_none_iff]
    rfl
  by_cases hf : cur.fresh settings env
  · refine ⟨cur.issued settings user.id user.addresses (cur.outstandingTokens user.id) email env, ?_, fun _ => rfl⟩
    rw [hfree.mpr hf, if_pos hf]
    cases hr : env.refused <;> simp [update, EmailDb.issued, EmailDb.added, Addresses.awaiting]
  · obtain ⟨t, ht⟩ := Option.ne_none_iff_exists'.mp fun h => hf (hfree.mp h)
    rw [ht, if_neg hf]
    exact ⟨_, rfl, fun h => absurd h hf⟩

end Parts

/-! ## What the operations do -/

/-- The operation asks for a verification of `email`, which the user has not verified. -/
inductive Issues (settings : Settings) (user : User) (email : String) (env : IssueEnv) : AddressOp → Prop
  | request {rawEmail : String} : settings.normalizeEmail rawEmail = .ok email →
      (user.email.any fun e => e.toLower == email) = false → Issues settings user email env (.request rawEmail env)
  | resend : user.pendingEmail = some email → Issues settings user email env (.resend env)

/-- The token `row` can be consumed by user `id` at `now`. -/
structure Consumable (settings : Settings) (id : UserId) (db : EmailDb) (rawToken : String) (now : Int)
    (row : EmailVerificationToken) : Prop where
  presented : rawToken ≠ ""
  found : db.token (settings.verificationTokenHash rawToken) = some row
  outstanding : row.outstanding = true
  unexpired : now < row.expiresAt
  own : row.userId = id

/-- All that an operation of a user on its address can do: its answer, and the tables it leaves. -/
inductive AddressEffect (settings : Settings) (id : UserId) (db : EmailDb) :
    AddressOp → Except Err EmailState → EmailDb → Prop
  | refused (op : AddressOp) (e : Err) : AddressEffect settings id db op (.error e) db
  | issued {op : AddressOp} {user : User} {email : String} {env : IssueEnv} : db.activeUser id = some user →
      Issues settings user email env op → db.fresh settings env →
      AddressEffect settings id db op (.ok (emailState (user.addresses.awaiting email)))
        (db.issued settings id user.addresses (db.outstandingTokens id) email env)
  | verified {user : User} {rawToken : String} {now : Int} {row : EmailVerificationToken} :
      db.activeUser id = some user → Consumable settings id db rawToken now row →
      (db.verified id user.addresses row ((db.consumed row.tokenHash now).outstandingTokens id) now).conflicted id =
        false →
      AddressEffect settings id db (.verify rawToken now) (.ok (emailState ⟨some row.email, some now, none⟩))
        (db.verified id user.addresses row ((db.consumed row.tokenHash now).outstandingTokens id) now)
  | withdrawn {user : User} {now : Int} : db.activeUser id = some user →
      AddressEffect settings id db (.delete now) (.ok (emailState ⟨none, none, none⟩))
        (db.withdrawn id user.addresses (db.outstandingTokens id) now)

namespace AddressOp

variable {settings : Settings} {id : UserId} {s : Store App}

/-- The operation run alone. -/
def run (settings : Settings) (id : UserId) (op : AddressOp) (s : Store App) : Txn.Run App EmailState :=
  (op.program settings id).exec s.db s

theorem run_delete {user : User} (hu : s.db.activeUser id = some user) (now : Int) :
    let db' := s.db.withdrawn id user.addresses (s.db.outstandingTokens id) now
    (delete now).run settings id s = ⟨.ok (emailState ⟨none, none, none⟩), db', ⟨db', s.kv⟩⟩ := by
  obtain rfl := EmailDb.activeUser_id hu
  simp only [run, program, deleteEmail, exec_bind, exec_loadUser, hu, andThen, exec_invalidateOutstanding,
    exec_flushUser]
  rfl

theorem effect_delete (now : Int) : AddressEffect settings id s.db (.delete now) ((delete now).run settings id s).res
    ((delete now).run settings id s).store.db := by
  cases hu : s.db.activeUser id with
  | none =>
    simp only [run, program, deleteEmail, exec_bind, exec_loadUser, hu]
    exact .refused _ _
  | some user =>
    rw [run_delete hu]
    exact .withdrawn hu

theorem run_verify {user : User} {rawToken : String} {now : Int} {row : EmailVerificationToken}
    (hu : s.db.activeUser id = some user) (hcan : Consumable settings id s.db rawToken now row) :
    let db' := s.db.verified id user.addresses row ((s.db.consumed row.tokenHash now).outstandingTokens id) now
    (verify rawToken now).run settings id s =
      if db'.conflicted id then ⟨.error verificationFailed, db', s⟩
      else ⟨.ok (emailState ⟨some row.email, some now, none⟩), db', ⟨db', s.kv⟩⟩ := by
  intro db'
  obtain ⟨hraw, hrow, hout, hexp, hown⟩ := hcan
  have huser := EmailDb.activeUser_id hu
  simp only [run, program, verifyEmail, query_bind, exec_select, hraw, hrow, hout, not_le.mpr hexp, hown, if_false,
    Bool.not_true, Bool.false_eq_true, ne_eq, not_true_eq_false, exec_bind, exec_loadUser, hu, andThen, lockOn_bind,
    update_bind, exec_lock, exec_write, exec_invalidateOutstanding, exec_flushUser, exec_addressConflict, huser]
  change (if db'.conflicted id then raise verificationFailed else do
    commitTx
    return emailState ⟨some row.email, some now, none⟩ : Handler EmailState).exec db' s = _
  split <;> rfl

theorem effect_verify (rawToken : String) (now : Int) : AddressEffect settings id s.db (.verify rawToken now)
    ((verify rawToken now).run settings id s).res ((verify rawToken now).run settings id s).store.db := by
  by_cases hraw : rawToken = ""
  · simp only [run, program, verifyEmail, hraw, if_true]
    exact .refused _ _
  cases hrow : s.db.token (settings.verificationTokenHash rawToken) with
  | none =>
    simp only [run, program, verifyEmail, hraw, if_false, query_bind, exec_select, hrow]
    exact .refused _ _
  | some row =>
    by_cases hcan : Consumable settings id s.db rawToken now row
    · cases hu : s.db.activeUser id with
      | none =>
        obtain ⟨-, -, hout, hexp, hown⟩ := hcan
        simp only [run, program, verifyEmail, hraw, if_false, query_bind, exec_select, hrow, hout, not_le.mpr hexp, hown,
          Bool.not_true, Bool.false_eq_true, ne_eq, not_true_eq_false, exec_bind, exec_loadUser, hu]
        exact .refused _ _
      | some user =>
        rw [run_verify hu hcan]
        dsimp only
        split
        · exact .refused _ _
        · exact .verified hu hcan (eq_false_of_ne_true ‹_›)
    · have hchecks : row.outstanding = true → ¬ row.expiresAt ≤ now → row.userId ≠ id :=
        fun hout hexp hown => hcan ⟨hraw, hrow, hout, lt_of_not_ge hexp, hown⟩
      simp only [run, program, verifyEmail, hraw, if_false, query_bind, exec_select, hrow]
      cases hout : row.outstanding with
      | false => exact .refused _ _
      | true =>
        by_cases hexp : row.expiresAt ≤ now
        · simp only [Bool.not_true, Bool.false_eq_true, if_false, hexp, if_true]
          exact .refused _ _
        · simp only [Bool.not_true, Bool.false_eq_true, if_false, hexp, hchecks hout hexp, ne_eq, not_false_eq_true,
            if_true]
          exact .refused _ _

/-- From the load of the user to the end of an issue. -/
theorem effect_issue {op : AddressOp} {user : User} {email : String} {env : IssueEnv}
    (hu : s.db.activeUser id = some user) (hissues : Issues settings user email env op) :
    let p := do
      enforceSendThrottle settings user.id email
      let new ← issueAndSend settings user email env
      commitTx
      return emailState new
    AddressEffect settings id s.db op (p.exec s.db s).res (p.exec s.db s).store.db := by
  intro p
  obtain rfl := EmailDb.activeUser_id hu
  obtain ⟨r, kv, hthrottle⟩ := (enforceSendThrottle_aside settings user.id email).exec s.kv
  obtain ⟨cur', hissue, hcur⟩ : ∃ cur', _ := exec_issueAndSend s.db ⟨s.db, kv⟩ user email env
  have hp : p.exec s.db s = andThen ⟨r, s.db, ⟨s.db, kv⟩⟩ fun _ => do
      let new ← issueAndSend settings user email env
      commitTx
      return emailState new := by
    rw [← hthrottle s.db s.db]
    exact exec_bind _ _ _ _
  rw [hp]
  cases r with
  | error e => exact .refused _ _
  | ok _ =>
    simp only [andThen]
    rw [exec_bind, hissue]
    by_cases hfresh : s.db.fresh settings env
    · rw [if_pos hfresh]
      cases env.refused with
      | true => exact .refused _ _
      | false =>
        rw [hcur hfresh]
        exact .issued hu hissues hfresh
    · rw [if_neg hfresh]
      exact .refused _ _

theorem effect_resend (env : IssueEnv) : AddressEffect settings id s.db (.resend env)
    ((resend env).run settings id s).res ((resend env).run settings id s).store.db := by
  simp only [run, program, resendVerification, exec_bind, exec_loadUser]
  cases hu : s.db.activeUser id with
  | none => exact .refused _ _
  | some user =>
    simp only [andThen]
    cases hp : user.pendingEmail with
    | none => exact .refused _ _
    | some email => exact effect_issue hu (.resend hp)

theorem effect_request (rawEmail : String) (env : IssueEnv) : AddressEffect settings id s.db (.request rawEmail env)
    ((request rawEmail env).run settings id s).res ((request rawEmail env).run settings id s).store.db := by
  simp only [run, program, requestEmail]
  cases hn : settings.normalizeEmail rawEmail with
  | error message => exact .refused _ _
  | ok email =>
    simp only [exec_bind, exec_loadUser]
    cases hu : s.db.activeUser id with
    | none => exact .refused _ _
    | some user =>
      simp only [andThen]
      cases hv : user.email.any fun e => e.toLower == email with
      | true => exact .refused _ _
      | false => exact effect_issue hu (.request hn hv)

/-- Where the limit allows a mail, the sender takes it and the hash is free, a verification is issued from some state of
Redis. -/
theorem run_issue {db : EmailDb} {op : AddressOp} {user : User} {email : String} {env : IssueEnv}
    (hu : db.activeUser id = some user) (hissues : Issues settings user email env op)
    (hlimit : 1 ≤ settings.verificationSendsPerHour) (hfresh : db.fresh settings env) (hsent : env.refused = false) :
    let db' := db.issued settings id user.addresses (db.outstandingTokens id) email env
    ∃ kv, op.run settings id ⟨db, .lost⟩ = ⟨.ok (emailState (user.addresses.awaiting email)), db', ⟨db', kv⟩⟩ := by
  obtain rfl := EmailDb.activeUser_id hu
  obtain ⟨kv, hthrottle⟩ : ∃ kv, (enforceSendThrottle settings user.id email).exec db ⟨db, .lost⟩ = ⟨.ok (), db, ⟨db, kv⟩⟩ :=
    exec_enforceSendThrottle hlimit email db
  obtain ⟨cur', hissue, hcur⟩ : ∃ cur', (issueAndSend settings user email env).exec db ⟨db, kv⟩ = _ ∧ _ :=
    exec_issueAndSend db ⟨db, kv⟩ user email env
  rw [if_pos hfresh, hsent, hcur hfresh] at hissue
  cases hissues with
  | request hn hv =>
    simp only [run, program, requestEmail, hn, exec_bind, exec_loadUser, hu, andThen, hv, Bool.false_eq_true, if_false,
      hthrottle, hissue]
    exact ⟨kv, rfl⟩
  | resend hp =>
    simp only [run, program, resendVerification, exec_bind, exec_loadUser, hu, andThen, hp, hthrottle, hissue,
      Bool.false_eq_true, if_false]
    exact ⟨kv, rfl⟩

/-- All that an operation does. -/
theorem effect (op : AddressOp) :
    AddressEffect settings id s.db op (op.run settings id s).res (op.run settings id s).store.db := by
  cases op with
  | request rawEmail env => exact effect_request rawEmail env
  | resend env => exact effect_resend env
  | verify rawToken now => exact effect_verify rawToken now
  | delete now => exact effect_delete now

end AddressOp

end CodeReader.Email
