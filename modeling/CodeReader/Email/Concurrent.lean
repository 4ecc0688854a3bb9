import CodeReader.Email.Ownership
import CodeReader.Txn.History

/-!
# Operations of one user at the same time

An operation loads its user without a lock, and its UPDATE takes the tokens that its snapshot shows; it then writes the
attributes that differ from what it has loaded.

* `EmailOps.start` — operations of one user, any number of them, run statement by statement;
* `undisturbed` — what a commit rests on still holds;
* `Lands` — all that a commit does, `wp_program`;
* `operations_serial` — **the result**: in every run of such commits, the tables are those of the operations one after
  another, in the order of their commits;
* `address_reattached` — what happens otherwise.
-/

namespace CodeReader.Email

open Txn Prog
open Auth (citext)

variable {τ : Type}

/-- The operations of user `id` at their start. -/
def EmailOps.start (settings : Settings) (id : UserId) (op : τ → AddressOp) (db : EmailDb) (kv : Outside) :
    Sys App τ EmailState := .start db kv fun i => (op i).program settings id

/-! ## What a commit rests on -/

/-- What a flush leaves untouched, because it was loaded at its new value, has that value. -/
abbrev Settles (loaded new cur : Addresses) : Prop :=
  (new.email = loaded.email → cur.email = new.email) ∧
  (new.emailVerifiedAt = loaded.emailVerifiedAt → cur.emailVerifiedAt = new.emailVerifiedAt) ∧
  (new.pendingEmail = loaded.pendingEmail → cur.pendingEmail = new.pendingEmail)

namespace AddressOp

/-- The tables bear the operation that has loaded `loaded`, with the addresses of its user as they are: an address that
is requested has not been verified, a token that is presented is outstanding, and what is not written is settled. -/
def Borne (settings : Settings) (db : EmailDb) (loaded cur : Addresses) : AddressOp → Prop
  | request rawEmail _ => ∀ email ∈ (settings.normalizeEmail rawEmail).toOption,
      (cur.email.any fun e => e.toLower == email) = false ∧
        (loaded.pendingEmail = some email → cur.pendingEmail = some email)
  | resend _ => cur.pendingEmail = loaded.pendingEmail
  | verify rawToken now => ∀ row ∈ db.token (settings.verificationTokenHash rawToken),
      row.outstanding = true ∧ Settles loaded ⟨some row.email, some now, none⟩ cur
  | delete _ => Settles loaded ⟨none, none, none⟩ cur

instance (settings : Settings) (db : EmailDb) (loaded cur : Addresses) :
    (op : AddressOp) → Decidable (op.Borne settings db loaded cur)
  | request rawEmail _ => inferInstanceAs (Decidable (∀ email ∈ (settings.normalizeEmail rawEmail).toOption,
      (cur.email.any fun e => e.toLower == email) = false ∧
        (loaded.pendingEmail = some email → cur.pendingEmail = some email)))
  | resend _ => inferInstanceAs (Decidable (cur.pendingEmail = loaded.pendingEmail))
  | verify rawToken now => inferInstanceAs (Decidable (∀ row ∈ db.token (settings.verificationTokenHash rawToken),
      row.outstanding = true ∧ Settles loaded ⟨some row.email, some now, none⟩ cur))
  | delete _ => inferInstanceAs (Decidable (Settles loaded ⟨none, none, none⟩ cur))

/-- The token that the operation consumes. -/
def consumes (settings : Settings) : AddressOp → Option String
  | verify rawToken _ => some (settings.verificationTokenHash rawToken)
  | _ => none

end AddressOp

/-- What the operation has observed still holds: the tables bear what it has loaded, and its UPDATE has found every
token of the user that is outstanding, but for the one that it consumes. -/
def EmailEv.Holds (settings : Settings) (op : AddressOp) (db : EmailDb) (u : User) : EmailEv → Prop
  | loaded addresses => op.Borne settings db addresses u.addresses
  | found seen => ∀ h ∈ db.outstandingTokens u.id, h ∈ seen ∨ op.consumes settings = some h
  | claimed _ _ _ _ => True
  | called _ _ => True
  | answered _ => True

instance (settings : Settings) (op : AddressOp) (db : EmailDb) (u : User) :
    (e : EmailEv) → Decidable (e.Holds settings op db u)
  | .loaded addresses => inferInstanceAs (Decidable (op.Borne settings db addresses u.addresses))
  | .found seen =>
    inferInstanceAs (Decidable (∀ h ∈ db.outstandingTokens u.id, h ∈ seen ∨ op.consumes settings = some h))
  | .claimed _ _ _ _ => inferInstanceAs (Decidable True)
  | .called _ _ => inferInstanceAs (Decidable True)
  | .answered _ => inferInstanceAs (Decidable True)

/-- What the commit rests on still holds. -/
abbrev undisturbed (settings : Settings) (id : UserId) (op : τ → AddressOp) (i : τ) (_ : Local App)
    (S : Shared App τ) : Prop :=
  ∀ u ∈ S.db.user id, ∀ e ∈ S.trace, e.1 = i → e.2.Holds settings (op i) S.db u

/-! ## The tables -/

/-- The users, but for the addresses of user `id`. -/
def maskedUsers (id : UserId) (db : EmailDb) : List User :=
  db.users.map fun u => if u.id = id then u.withAddresses ⟨none, none, none⟩ else u

/-- The token as it was issued. -/
def EmailVerificationToken.asIssued (t : EmailVerificationToken) : EmailVerificationToken :=
  { t with consumedAt := none, invalidatedAt := none }

def issuedTokens (db : EmailDb) : List EmailVerificationToken := db.tokens.map EmailVerificationToken.asIssued

/-- What a flush makes of the addresses. -/
def Addresses.merge (loaded new cur : Addresses) : Addresses where
  email := if new.email = loaded.email then cur.email else new.email
  emailVerifiedAt := if new.emailVerifiedAt = loaded.emailVerifiedAt then cur.emailVerifiedAt else new.emailVerifiedAt
  pendingEmail := if new.pendingEmail = loaded.pendingEmail then cur.pendingEmail else new.pendingEmail

section Tables

variable {db db' : EmailDb} {id : UserId} {user : User} {loaded new cur : Addresses} {seen : List String} {now : Int}
  {h : String}

theorem Settles.merge (hs : Settles loaded new cur) : Addresses.merge loaded new cur = new := by
  obtain ⟨hemail, hat, hpending⟩ := hs
  simp only [Addresses.merge]
  congr 1
  · exact ite_eq_right_iff.mpr hemail
  · exact ite_eq_right_iff.mpr hat
  · exact ite_eq_right_iff.mpr hpending

theorem merge_self : Addresses.merge cur new cur = new := Settles.merge ⟨Eq.symm, Eq.symm, Eq.symm⟩

theorem merge_same : Addresses.merge new new cur = cur := by simp [Addresses.merge]

/-- A flush that makes of the addresses what a flush without others would. -/
theorem flushed_eq (hids : (db.users.map User.id).Nodup) (hu : db.user id = some user) {new' : Addresses}
    (hmerge : Addresses.merge loaded new user.addresses = new') :
    db.flushed id loaded new = db.flushed id user.addresses new' := by
  have hflush : ∀ loaded new : Addresses, db.flushed id loaded new =
      db.updateUser id fun u => u.withAddresses (Addresses.merge loaded new u.addresses) := by
    intro loaded new
    unfold EmailDb.flushed
    split
    · rename_i hsame
      have hrow : ∀ u : User, u.withAddresses (Addresses.merge loaded loaded u.addresses) = u := by
        intro u
        simp [Addresses.merge, User.withAddresses, User.addresses]
      simp [hsame, EmailDb.updateUser, hrow]
    · rfl
  rw [hflush, hflush, EmailDb.updateUser, EmailDb.updateUser]
  congr 1
  refine List.map_congr_left fun u hm => ?_
  split
  · rename_i hid
    obtain rfl := user_eq hids hu hm (beq_iff_eq.mp hid)
    rw [hmerge, merge_self]
  · rfl

/-- The tokens that are killed are the outstanding ones of the user. -/
theorem killed_eq (hown : ∀ t ∈ db.tokens, t.tokenHash ∈ seen → t.userId = id)
    (hall : ∀ h ∈ db.outstandingTokens id, h ∈ seen) :
    db.killed seen now = db.killed (db.outstandingTokens id) now := by
  simp only [EmailDb.killed, EmailDb.updateTokens]
  congr 1
  refine List.map_congr_left fun t ht => ?_
  by_cases hout : t.outstanding = true
  · have hiff : t.tokenHash ∈ seen ↔ t.tokenHash ∈ db.outstandingTokens id := by
      refine ⟨fun hs => ?_, hall _⟩
      exact List.mem_map.mpr ⟨t, List.mem_filter.mpr ⟨ht, by simp [hown t ht hs, hout]⟩, rfl⟩
    simp [hiff]
  · simp [hout]

theorem maskedUsers_flushed : maskedUsers id (db.flushed id loaded new) = maskedUsers id db := by
  unfold EmailDb.flushed
  split
  · rfl
  · rw [maskedUsers, maskedUsers, EmailDb.updateUser, List.map_map]
    refine List.map_congr_left fun u _ => ?_
    by_cases hid : u.id = id <;> simp [hid, User.flush, User.withAddresses]

theorem issuedTokens_update (p : EmailVerificationToken → Bool) (g : EmailVerificationToken → EmailVerificationToken)
    (hg : ∀ t, (g t).asIssued = t.asIssued) : issuedTokens (db.updateTokens p g) = issuedTokens db := by
  rw [issuedTokens, issuedTokens, EmailDb.updateTokens, List.map_map]
  refine List.map_congr_left fun t _ => ?_
  simp only [Function.comp_apply]
  split
  · exact hg t
  · rfl

theorem issuedTokens_flushed : issuedTokens (db.flushed id loaded new) = issuedTokens db := by
  rw [issuedTokens, tokens_flushed, issuedTokens]

/-- A user is still there, with its addresses only changed. -/
theorem user_of_masked (hm : maskedUsers id db' = maskedUsers id db) (hu : db.user id = some user) :
    ∃ user', db'.user id = some user' ∧ user'.deletedAt = user.deletedAt := by
  have hfind : ∀ db : EmailDb, (maskedUsers id db).find? (·.id == id) =
      (db.user id).map fun u => u.withAddresses ⟨none, none, none⟩ := by
    intro db
    have hkey : ∀ u : User, (if u.id = id then u.withAddresses ⟨none, none, none⟩ else u).id = u.id := by
      intro u
      split <;> rfl
    rw [maskedUsers, List.find?_map]
    simp only [Function.comp_def, hkey, EmailDb.user]
    cases hf : db.users.find? fun u => u.id == id with
    | none => rfl
    | some u =>
      rw [Option.map_some, Option.map_some, if_pos (EmailDb.user_some hf).2]
  have hsame := hfind db'
  rw [hm, hfind db, hu, Option.map_some] at hsame
  obtain ⟨user', hu', he⟩ := Option.map_eq_some_iff.mp hsame.symm
  have hdeleted := congrArg User.deletedAt he
  exact ⟨user', hu', hdeleted⟩

theorem activeUser_of_masked (hm : maskedUsers id db' = maskedUsers id db) (hu : (db.activeUser id).isSome = true) :
    (db'.activeUser id).isSome = true := by
  obtain ⟨user, hu⟩ := Option.isSome_iff_exists.mp hu
  obtain ⟨hu, hactive⟩ := EmailDb.activeUser_some hu
  obtain ⟨user', hu', hdeleted⟩ := user_of_masked hm hu
  rw [EmailDb.activeUser, hu', Option.filter_some, hdeleted, hactive]
  rfl

theorem ids_of_masked (hm : maskedUsers id db' = maskedUsers id db) :
    db'.users.map User.id = db.users.map User.id := by
  have hids : ∀ db : EmailDb, (maskedUsers id db).map User.id = db.users.map User.id := by
    intro db
    apply Rows.map_update
    exact fun _ => rfl
  rw [← hids, hm, hids]

/-- Whether another user has an address in the index does not depend on the addresses of the user. -/
theorem addressTaken_of_masked (hm : maskedUsers id db' = maskedUsers id db) (address : List Char) :
    db'.addressTaken id address = db.addressTaken id address := by
  have htaken : ∀ db : EmailDb, db.addressTaken id address =
      (maskedUsers id db).any fun u => u.id != id && u.verifiedAddress == some address := by
    intro db
    rw [maskedUsers, List.any_map, EmailDb.addressTaken]
    refine List.any_congr rfl fun u => ?_
    by_cases hid : u.id = id <;> simp [hid, User.withAddresses]
  rw [htaken, htaken, hm]

/-- What a token was issued as tells its hash and its user. -/
theorem of_asIssued {t t' : EmailVerificationToken} (he : t.asIssued = t'.asIssued) :
    t.tokenHash = t'.tokenHash ∧ t.userId = t'.userId ∧ t.email = t'.email ∧ t.expiresAt = t'.expiresAt := by
  simp only [EmailVerificationToken.asIssued, EmailVerificationToken.mk.injEq] at he
  exact ⟨he.2.2.1, he.1, he.2.1, he.2.2.2.1⟩

/-- A token is still there, as it was issued. -/
theorem token_of_issued (hp : issuedTokens db <+: issuedTokens db') {t : EmailVerificationToken}
    (ht : db.token h = some t) : ∃ t', db'.token h = some t' ∧ t'.asIssued = t.asIssued := by
  have hfind : ∀ db : EmailDb, (issuedTokens db).find? (·.tokenHash == h) = (db.token h).map (·.asIssued) := by
    intro db
    rw [issuedTokens, List.find?_map]
    rfl
  have hsome : (issuedTokens db').find? (·.tokenHash == h) = some t.asIssued := by
    refine hp.find?_eq_some ?_
    rw [hfind, ht, Option.map_some]
  rw [hfind] at hsome
  exact Option.map_eq_some_iff.mp hsome

theorem hashes_update (p : EmailVerificationToken → Bool) (g : EmailVerificationToken → EmailVerificationToken)
    (hg : ∀ t, (g t).tokenHash = t.tokenHash) : (db.updateTokens p g).tokens.map EmailVerificationToken.tokenHash =
      db.tokens.map EmailVerificationToken.tokenHash := by
  rw [EmailDb.updateTokens, List.map_map]
  refine List.map_congr_left fun t _ => ?_
  simp only [Function.comp_apply]
  split
  · exact hg t
  · rfl

end Tables

/-! ## What the commits do -/

/-- What an operation knows before its commit: the keys of the tables. -/
structure Started (i : τ) (S : Shared App τ) : Prop where
  ids : (S.db.users.map User.id).Nodup
  hashes : (S.db.tokens.map EmailVerificationToken.tokenHash).Nodup
  once : i ∉ S.commits

/-- After the load: its user, and what it has loaded of it. -/
structure Loaded (id : UserId) (i : τ) (user : User) (S : Shared App τ) : Prop extends Started i S where
  owner : user.id = id
  active : (S.db.activeUser id).isSome = true
  loaded : (i, EmailEv.loaded user.addresses) ∈ S.trace

/-- After its UPDATE: the tokens that this has found. -/
structure Found (id : UserId) (i : τ) (user : User) (seen : List String) (S : Shared App τ) : Prop extends
    Loaded id i user S where
  found : (i, EmailEv.found seen) ∈ S.trace
  own : ∀ h ∈ seen, ∃ t, S.db.token h = some t ∧ t.userId = id

/-- Nothing is flushed, or the user's row is locked. -/
def Flushes (id : UserId) (loaded new : Addresses) (l : Local App) : Prop := new = loaded ∨ EmailLock.user id ∈ l.held

/-- The token `row` that was read: it is still there, as it was issued. -/
structure Presented (settings : Settings) (id : UserId) (rawToken : String) (now : Int) (row : EmailVerificationToken)
    (db : EmailDb) : Prop where
  presented : rawToken ≠ ""
  hash : row.tokenHash = settings.verificationTokenHash rawToken
  unexpired : now < row.expiresAt
  own : row.userId = id
  kept : ∃ t, db.token row.tokenHash = some t ∧ t.asIssued = row.asIssued

/-- All that a commit of an operation can do. -/
inductive Lands (settings : Settings) (id : UserId) (op : AddressOp) (i : τ) (l : Local App) (S : Shared App τ) :
    EmailDb → Prop
  | issued {user : User} {seen : List String} {email : String} {env : IssueEnv} : Found id i user seen S →
      Flushes id user.addresses (user.addresses.awaiting email) l → Issues settings user email env op →
      1 ≤ settings.verificationSendsPerHour → env.refused = false →
      EmailLock.token (settings.verificationTokenHash env.rawToken) ∈ l.held → S.db.fresh settings env →
      Lands settings id op i l S (S.db.issued settings id user.addresses seen email env)
  | verified {user : User} {seen : List String} {rawToken : String} {now : Int} {row : EmailVerificationToken} :
      Found id i user seen S → Flushes id user.addresses ⟨some row.email, some now, none⟩ l → op = .verify rawToken now →
      Presented settings id rawToken now row S.db →
      (user.addresses ≠ ⟨some row.email, some now, none⟩ →
        (S.db.verified id user.addresses row seen now).conflicted id = false) →
      Lands settings id op i l S (S.db.verified id user.addresses row seen now)
  | withdrawn {user : User} {seen : List String} {now : Int} : Found id i user seen S →
      Flushes id user.addresses ⟨none, none, none⟩ l → op = .delete now →
      Lands settings id op i l S (S.db.withdrawn id user.addresses seen now)

/-- What every commit keeps: the users but for the addresses, the tokens as they were issued, and what it has no lock
of. -/
structure Keeps (id : UserId) (l : Local App) (db db' : EmailDb) : Prop where
  users : maskedUsers id db' = maskedUsers id db
  tokens : issuedTokens db <+: issuedTokens db'
  hashes : (db.tokens.map EmailVerificationToken.tokenHash).Nodup →
    (db'.tokens.map EmailVerificationToken.tokenHash).Nodup
  free : ∀ h, EmailLock.token h ∉ l.held → db.token h = none → db'.token h = none
  row : EmailLock.user id ∉ l.held → db'.users = db.users

section Keeps

variable {settings : Settings} {id : UserId} {op : AddressOp} {i : τ} {l : Local App} {S : Shared App τ}
  {db db₁ db₂ db' : EmailDb} {loaded new : Addresses}

theorem Keeps.refl (db : EmailDb) : Keeps id l db db := ⟨rfl, List.prefix_rfl, fun h => h, fun _ _ h => h, fun _ => rfl⟩

theorem Keeps.trans (h : Keeps id l db db₁) (h' : Keeps id l db₁ db₂) : Keeps id l db db₂ where
  users := h'.users.trans h.users
  tokens := h.tokens.trans h'.tokens
  hashes := h'.hashes ∘ h.hashes
  free r hr := h'.free r hr ∘ h.free r hr
  row hr := (h'.row hr).trans (h.row hr)

theorem keeps_update (p : EmailVerificationToken → Bool) (g : EmailVerificationToken → EmailVerificationToken)
    (hissued : ∀ t, (g t).asIssued = t.asIssued) : Keeps id l db (db.updateTokens p g) where
  users := rfl
  tokens := issuedTokens_update p g hissued ▸ List.prefix_rfl
  hashes h := by
    rw [hashes_update p g fun t => (of_asIssued (hissued t)).1]
    exact h
  free h _ hnone := by
    rw [token_update p g fun t => (of_asIssued (hissued t)).1, hnone]
    rfl
  row _ := rfl

theorem keeps_killed (seen : List String) (now : Int) : Keeps id l db (db.killed seen now) :=
  keeps_update _ (.invalidated now) fun _ => rfl

theorem keeps_consumed (h : String) (now : Int) : Keeps id l db (db.consumed h now) :=
  keeps_update _ (.consumed now) fun _ => rfl

theorem keeps_flushed (hl : Flushes id loaded new l) : Keeps id l db (db.flushed id loaded new) where
  users := maskedUsers_flushed
  tokens := issuedTokens_flushed ▸ List.prefix_rfl
  hashes h := by
    rw [tokens_flushed]
    exact h
  free h _ hnone := token_flushed.trans hnone
  row hr := by
    obtain hsame | hheld := hl
    · rw [EmailDb.flushed, if_pos hsame]
    · exact absurd hheld hr

theorem keeps_added {row : EmailVerificationToken} (hl : EmailLock.token row.tokenHash ∈ l.held)
    (hfresh : db.token row.tokenHash = none) : Keeps id l db (db.added row) where
  users := rfl
  tokens := by
    rw [issuedTokens, issuedTokens, EmailDb.added, List.map_append]
    exact List.prefix_append _ _
  hashes h := by
    apply Rows.nodup_insert h
    exact EmailDb.token_eq_none.mp hfresh
  free h hh hnone := by
    have hne : ¬ row.tokenHash = h := fun he => hh (he ▸ hl)
    rw [EmailDb.token] at hnone ⊢
    rw [EmailDb.added, List.find?_append, hnone, Option.none_or, List.find?_singleton]
    simp [hne]
  row _ := rfl

theorem Lands.keeps (h : Lands settings id op i l S db') : Keeps id l S.db db' := by
  cases h with
  | issued hfound hflush hissues hlimit hsent hheld hfresh =>
    refine ((keeps_killed _ _).trans (keeps_flushed hflush)).trans (keeps_added hheld ?_)
    rw [token_flushed, EmailDb.killed, token_update _ (.invalidated _) fun _ => rfl]
    exact Option.map_eq_none_iff.mpr hfresh
  | verified hfound hflush hop hpres hc =>
    exact ((keeps_consumed _ _).trans (keeps_killed _ _)).trans (keeps_flushed hflush)
  | withdrawn hfound hflush hop => exact (keeps_killed _ _).trans (keeps_flushed hflush)

end Keeps

/-! ## Rely and guarantee -/

/-- What the other operations do while operation `i` knows `l` of its transaction. -/
structure OpsRely (id : UserId) (i : τ) (l : Local App) (S S' : Shared App τ) : Prop where
  once : i ∉ S.commits → i ∉ S'.commits
  trace : S.trace <+: S'.trace
  users : maskedUsers id S'.db = maskedUsers id S.db
  tokens : issuedTokens S.db <+: issuedTokens S'.db
  hashes : (S.db.tokens.map EmailVerificationToken.tokenHash).Nodup →
    (S'.db.tokens.map EmailVerificationToken.tokenHash).Nodup
  free : ∀ h, EmailLock.token h ∈ l.held → S.db.token h = none → S'.db.token h = none
  row : EmailLock.user id ∈ l.held → S'.db.users = S.db.users

/-- What a statement of the operation does. -/
def OpsGuarantee (settings : Settings) (id : UserId) (op : AddressOp) (i : τ) (a : Act) (l : Local App)
    (S S' : Shared App τ) : Prop := Commits (Lands settings id op i) i a l S S' ∧ S.trace <+: S'.trace

section Rely

variable {settings : Settings} {id : UserId} {op : AddressOp} {i j : τ} {l l' : Local App} {S S' S'' : Shared App τ}

theorem OpsRely.aside (hc : S'.commits = S.commits) (htrace : S.trace <+: S'.trace) (hdb : S'.db = S.db) :
    OpsRely id i l S S' :=
  ⟨hc ▸ fun h => h, htrace, congrArg _ hdb, hdb ▸ List.prefix_rfl, hdb ▸ fun h => h, hdb ▸ fun _ _ h => h,
    fun _ => congrArg _ hdb⟩

theorem OpsRely.refl (l : Local App) (S : Shared App τ) : OpsRely id i l S S := .aside rfl List.prefix_rfl rfl

theorem OpsRely.trans (h : OpsRely id i l S S') (h' : OpsRely id i l S' S'') : OpsRely id i l S S'' where
  once := h'.once ∘ h.once
  trace := h.trace.trans h'.trace
  users := h'.users.trans h.users
  tokens := h.tokens.trans h'.tokens
  hashes := h'.hashes ∘ h.hashes
  free r hr := h'.free r hr ∘ h.free r hr
  row hr := (h'.row hr).trans (h.row hr)

theorem OpsGuarantee.rely {a : Act} (h : OpsGuarantee settings id op i a l S S') (hj : j ≠ i)
    (hheld : ∀ r ∈ l.held, r ∉ l'.held) : OpsRely id j l' S S' := by
  have hkeeps : Keeps id l S.db S'.db := h.1.keeps Keeps.refl fun db' hP => hP.keeps
  refine ⟨fun hn => ?_, h.2, hkeeps.users, hkeeps.tokens, hkeeps.hashes,
    fun r hr => hkeeps.free r fun hl => hheld _ hl hr, fun hr => hkeeps.row fun hl => hheld _ hl hr⟩
  by_cases ha : a = .commit
  · rw [(h.1.1 ha).1, List.mem_append, List.mem_singleton]
    exact fun hm => hm.elim hn hj
  · rwa [(h.1.2 ha).1]

end Rely

/-! ## The operations -/

section Programs

variable {settings : Settings} {id : UserId} {op : AddressOp} {i : τ} {l : Local App} {S : Shared App τ} {user : User}
  {seen : List String} {J : Local App → Shared App τ → Prop}

theorem steady_started : Steady (OpsRely id i) fun _ (S : Shared App τ) => Started i S where
  rely _ _ _ h hr := ⟨ids_of_masked hr.users ▸ h.ids, hr.hashes h.hashes, hr.once h.once⟩
  lock _ _ _ h := h
  read _ _ _ h := h

theorem steady_loaded : Steady (OpsRely id i) fun _ (S : Shared App τ) => Loaded id i user S where
  rely l S S' h hr := ⟨steady_started.rely l S S' h.toStarted hr, h.owner, activeUser_of_masked hr.users h.active,
    hr.trace.subset h.loaded⟩
  lock _ _ _ h := h
  read _ _ _ h := h

theorem steady_found : Steady (OpsRely id i) fun _ (S : Shared App τ) => Found id i user seen S where
  rely l S S' h hr := by
    refine ⟨steady_loaded.rely l S S' h.toLoaded hr, hr.trace.subset h.found, fun r hseen => ?_⟩
    obtain ⟨t, ht, hown⟩ := h.own r hseen
    obtain ⟨t', ht', he⟩ := token_of_issued hr.tokens ht
    exact ⟨t', ht', (of_asIssued he).2.1.trans hown⟩
  lock _ _ _ h := h
  read _ _ _ h := h

theorem steady_presented {rawToken : String} {now : Int} {row : EmailVerificationToken} :
    Steady (OpsRely id i) fun _ (S : Shared App τ) => Presented settings id rawToken now row S.db where
  rely _ _ _ h hr := by
    obtain ⟨t, ht, he⟩ := h.kept
    obtain ⟨t', ht', he'⟩ := token_of_issued hr.tokens ht
    exact { h with kept := ⟨t', ht', he'.trans he⟩ }
  lock _ _ _ h := h
  read _ _ _ h := h

/-- The writes of the transaction stay. -/
theorem steady_writes (v : EmailDb → EmailDb) :
    Steady (OpsRely id i) fun (l : Local App) (_ : Shared App τ) => l.view = v :=
  ⟨fun _ _ _ h _ => h, fun _ _ _ h => h, fun _ _ _ h => h⟩

theorem steady_flushes {loaded new : Addresses} :
    Steady (OpsRely id i) fun (l : Local App) (_ : Shared App τ) => Flushes id loaded new l where
  rely _ _ _ h _ := h
  lock _ _ _ h := h.imp_right (Set.mem_insert_of_mem _)
  read _ _ _ h := h

/-- While its lock is held, a hash that no token has stays free. -/
theorem steady_free (h : String) : Steady (OpsRely id i) fun (l : Local App) (S : Shared App τ) =>
    EmailLock.token h ∈ l.held ∧ S.db.token h = none where
  rely _ _ _ hl hr := ⟨hl.1, hr.free h hl.1 hl.2⟩
  lock _ _ _ hl := ⟨Set.mem_insert_of_mem _ hl.1, hl.2⟩
  read _ _ _ hl := hl

/-- What the operation observes does not matter to it. -/
def Quiet (i : τ) (J : Local App → Shared App τ → Prop) : Prop :=
  ∀ l S e, J l S → J l { S with trace := S.trace ++ [(i, e)] }

theorem guarantee_observe (e : EmailEv) :
    OpsGuarantee settings id op i .observe l S { S with trace := S.trace ++ [(i, e)] } :=
  ⟨.observe _ _ _ _ _, List.prefix_append _ _⟩

theorem guarantee_store (kv : Outside) : OpsGuarantee settings id op i .store l S { S with kv := kv } :=
  ⟨.store _ _ _ _ _, List.prefix_rfl⟩

theorem guarantee_commit {db' : EmailDb} (h : Lands settings id op i l S db') :
    OpsGuarantee settings id op i .commit l S { S with db := db', commits := S.commits ++ [i] } :=
  ⟨.commit h, List.prefix_rfl⟩

/-- The load of the user. -/
theorem wp_loadUser (hJ : Steady (OpsRely id i) J) (hq : Quiet i J) (hstart : ∀ l S, J l S → Started i S)
    (hview : ∀ l S, J l S → l.view = fun db => db) (hl : J l S) {g : User → Handler EmailState}
    (hg : ∀ user l S, J l S → Loaded id i user S →
      wp (OpsRely id i) (OpsGuarantee settings id op i) i (fun _ _ _ => True) (g user) l S) :
    wp (OpsRely id i) (OpsGuarantee settings id op i) i (fun _ _ _ => True) (loadUser id >>= g) l S := by
  simp only [loadUser, query_bind, select_bind]
  intro S₁ hr
  have hl := hJ.rely _ _ _ hl hr
  dsimp only
  cases hu : (l.view S₁.db).user id with
  | none => exact fun _ _ => trivial
  | some user =>
    dsimp only
    cases hd : user.deletedAt with
    | some _ => exact fun _ _ => trivial
    | none =>
      rw [hview _ _ hl] at hu
      obtain ⟨-, howner⟩ := EmailDb.user_some hu
      have hactive : (S₁.db.activeUser id).isSome = true := by
        rw [EmailDb.activeUser, hu, Option.filter_some, hd]
        rfl
      intro S₂ hr₂
      have hl := hJ.rely _ S₁ S₂ (hJ.read _ _ .users hl) hr₂
      have hl := hq _ _ (.loaded user.addresses) hl
      refine ⟨guarantee_observe _, hg user _ _ hl ⟨hstart _ _ hl, howner, ?_, ?_⟩⟩
      · exact activeUser_of_masked hr₂.users hactive
      · exact List.mem_append_right _ List.mem_cons_self

/-- The locks of tokens are taken. -/
theorem wp_lockTokens (hJ : Steady (OpsRely id i) J) {g : Unit → Handler EmailState} (hl : J l S)
    (hg : ∀ l S, J l S → wp (OpsRely id i) (OpsGuarantee settings id op i) i (fun _ _ _ => True) (g ()) l S)
    (hs : List String) :
    wp (OpsRely id i) (OpsGuarantee settings id op i) i (fun _ _ _ => True) (lockTokens hs >>= g) l S := by
  induction hs generalizing l S with
  | nil => exact hg l S hl
  | cons h hs ih => exact fun S' hr => ih (hJ.lock _ _ _ (hJ.rely _ _ _ hl hr))

/-- The outstanding tokens of a user, in tables where tokens are as they were issued. -/
theorem own_of_outstanding {db db' : EmailDb} (hhashes : (db.tokens.map EmailVerificationToken.tokenHash).Nodup)
    (hissued : issuedTokens db' = issuedTokens db) :
    ∀ h ∈ db'.outstandingTokens id, ∃ t, db.token h = some t ∧ t.userId = id := by
  intro h hmem
  obtain ⟨t, ht, rfl⟩ := List.mem_map.mp hmem
  obtain ⟨ht, hown⟩ := List.mem_filter.mp ht
  have hissue : t.asIssued ∈ issuedTokens db := hissued ▸ List.mem_map_of_mem ht
  obtain ⟨t₀, ht₀, he⟩ := List.mem_map.mp hissue
  obtain ⟨hhash, huser, -⟩ := of_asIssued he
  have hfound : (db.token t.tokenHash).isSome = true := List.find?_isSome.mpr ⟨t₀, ht₀, beq_iff_eq.mpr hhash⟩
  obtain ⟨t₁, ht₁⟩ := Option.isSome_iff_exists.mp hfound
  obtain ⟨hmem₁, hhash₁⟩ := EmailDb.token_some ht₁
  obtain rfl := List.inj_on_of_nodup_map hhashes hmem₁ ht₀ (hhash₁.trans hhash.symm)
  exact ⟨t₁, ht₁, huser.trans (beq_iff_eq.mp (Bool.and_eq_true_iff.mp hown).1)⟩

/-- The UPDATE of the tokens. -/
theorem wp_invalidateOutstanding (hJ : Steady (OpsRely id i) J) (hq : Quiet i J)
    (hloaded : ∀ l S, J l S → Loaded id i user S)
    (hview : ∀ l S, J l S → issuedTokens (l.view S.db) = issuedTokens S.db) (hl : J l S) {now : Int}
    {g : Unit → Handler EmailState}
    (hg : ∀ seen l S, J l S → Found id i user seen S →
      wp (OpsRely id i) (OpsGuarantee settings id op i) i (fun _ _ _ => True) (g ())
        { l with view := (fun db => db.killed seen now) ∘ l.view } S) :
    wp (OpsRely id i) (OpsGuarantee settings id op i) i (fun _ _ _ => True) (invalidateOutstanding id now >>= g) l S := by
  simp only [invalidateOutstanding, query_bind, select_bind, note_bind]
  intro S₁ hr₁
  have hl := hJ.rely _ _ _ hl hr₁
  dsimp only
  rw [emit_bind]
  have hown : ∀ h ∈ (l.view S₁.db).outstandingTokens id, _ :=
    own_of_outstanding (hloaded _ _ hl).hashes (hview _ _ hl)
  generalize (l.view S₁.db).outstandingTokens id = seen at hown
  intro S₂ hr₂
  refine ⟨guarantee_observe _, ?_⟩
  rw [Prog.bind_assoc]
  have hl := hq _ _ (.found seen) (hJ.rely _ S₁ S₂ (hJ.read _ _ .tokens hl) hr₂)
  have hfound : Found id i user seen { S₂ with trace := S₂.trace ++ [(i, .found seen)] } := by
    refine ⟨hloaded _ _ hl, List.mem_append_right _ List.mem_cons_self, fun h hmem => ?_⟩
    obtain ⟨t, ht, hid⟩ := hown h hmem
    obtain ⟨t', ht', he⟩ := token_of_issued hr₂.tokens ht
    exact ⟨t', ht', (of_asIssued he).2.1.trans hid⟩
  have hsteady : Steady (OpsRely id i) fun l S => J l S ∧ Found id i user seen S := hJ.and steady_found
  refine wp_lockTokens hsteady ⟨hl, hfound⟩ (fun l S hl => ?_) seen
  exact hsteady.wp_write hl fun S hl => hg seen l S hl.1 hl.2

/-- The flush of the user's row. -/
theorem wp_flushUser (hJ : Steady (OpsRely id i) J) (hl : J l S) {loaded new : Addresses}
    {g : Unit → Handler EmailState}
    (hg : ∀ l S, J l S → Flushes id loaded new l →
      wp (OpsRely id i) (OpsGuarantee settings id op i) i (fun _ _ _ => True) (g ())
        { l with view := (fun db => db.flushed id loaded new) ∘ l.view } S) :
    wp (OpsRely id i) (OpsGuarantee settings id op i) i (fun _ _ _ => True) (flushUser id loaded new >>= g) l S := by
  unfold flushUser
  by_cases hsame : new = loaded
  · have hnothing : (fun db : EmailDb => db.flushed id loaded new) = fun db => db := by
      funext db
      rw [EmailDb.flushed, if_pos hsame]
    have hgoal := hg l S hl (.inl hsame)
    rw [hnothing] at hgoal
    rw [if_pos hsame]
    exact hgoal
  · have hwrite : (fun db : EmailDb => db.flushed id loaded new) = fun db => db.updateUser id (.flush loaded new) := by
      funext db
      rw [EmailDb.flushed, if_neg hsame]
    rw [hwrite] at hg
    rw [if_neg hsame]
    refine hJ.wp_lock hl fun l S hl hheld => ?_
    exact (hJ.and Steady.held).wp_write ⟨hl, hheld⟩ fun S hl => hg l S hl.1 (.inr hl.2)

theorem quiet_started (v : EmailDb → EmailDb) : Quiet i fun (l : Local App) S => Started i S ∧ l.view = v :=
  fun _ _ _ h => ⟨⟨h.1.ids, h.1.hashes, h.1.once⟩, h.2⟩

theorem quiet_loaded (v : EmailDb → EmailDb) :
    Quiet i fun (l : Local App) S => Loaded id i user S ∧ l.view = v :=
  fun _ _ _ h => ⟨{ h.1 with loaded := List.mem_append_left _ h.1.loaded }, h.2⟩

/-- From the flush of the pending address to the commit of a verification mail. -/
theorem wp_addToken {email : String} {env : IssueEnv} (hissues : Issues settings user email env op)
    (hlimit : 1 ≤ settings.verificationSendsPerHour) (hfound : Found user.id i user seen S)
    (hflush : Flushes user.id user.addresses (user.addresses.awaiting email) l)
    (hview : l.view = fun db => (db.killed seen env.now).flushed user.id user.addresses (user.addresses.awaiting email)) :
    wp (OpsRely user.id i) (OpsGuarantee settings user.id op i) i (fun _ _ _ => True) (do
      lockOn (.token (env.row settings user.id email).tokenHash)
      let taken ← query .tokens fun db => (db.token (env.row settings user.id email).tokenHash).isSome
      let new ← (if taken then raise (.integrity "email_verification_tokens_token_hash_key")
        else do
          update fun db => db.added (env.row settings user.id email)
          if env.refused then raise emailSendFailed else pure (user.addresses.awaiting email) : Handler Addresses)
      commitTx
      return emailState new) l S := by
  simp only [lockOn_bind, query_bind]
  have hsteady : Steady (OpsRely user.id i) fun l S => Found user.id i user seen S ∧
      Flushes user.id user.addresses (user.addresses.awaiting email) l := steady_found.and steady_flushes
  refine (hsteady.and (steady_writes _)).wp_lock ⟨⟨hfound, hflush⟩, hview⟩ fun l S hl hheld => ?_
  refine ((hsteady.and (steady_writes _)).and Steady.held).wp_select ⟨hl, hheld⟩ fun l S hl => ?_
  obtain ⟨⟨hl, hview⟩, hheld⟩ := hl
  cases htaken : ((l.view S.db).token (env.row settings user.id email).tokenHash).isSome with
  | true => exact fun _ _ => trivial
  | false =>
    have hfree : S.db.token (env.row settings user.id email).tokenHash = none := by
      rw [hview, token_flushed, EmailDb.killed, token_update _ (.invalidated env.now) fun _ => rfl] at htaken
      simpa using htaken
    simp only [Bool.false_eq_true, if_false, update_bind, write_bind]
    have hsteady := hsteady.and (steady_free (env.row settings user.id email).tokenHash)
    refine (hsteady.and (steady_writes _)).wp_write ⟨⟨hl, hheld, hfree⟩, hview⟩ fun S hl => ?_
    obtain ⟨hl, hview⟩ := hl
    cases hsent : env.refused with
    | true => exact fun _ _ => trivial
    | false =>
      rw [hview]
      intro S' hr
      obtain ⟨⟨hfound, hflush⟩, hheld, hfree⟩ :=
        hsteady.rely ⟨l.held, l.reads, fun db => db.issued settings user.id user.addresses seen email env⟩ S S' hl hr
      exact ⟨guarantee_commit (.issued hfound hflush hissues hlimit hsent hheld hfree), fun _ _ => trivial⟩

/-- From the UPDATE of the tokens to the commit of a verification mail. -/
theorem wp_issue {email : String} {env : IssueEnv} (hissues : Issues settings user email env op)
    (hlimit : 1 ≤ settings.verificationSendsPerHour) (hl : Loaded id i user S) (hview : l.view = fun db => db) :
    wp (OpsRely id i) (OpsGuarantee settings id op i) i (fun _ _ _ => True) (do
      let new ← issueAndSend settings user email env
      commitTx
      return emailState new) l S := by
  obtain rfl := hl.owner
  simp only [issueAndSend, Prog.bind_assoc]
  have hsteady : Steady (OpsRely user.id i) fun l S => Loaded user.id i user S ∧ l.view = fun db => db :=
    steady_loaded.and (steady_writes _)
  refine wp_invalidateOutstanding hsteady (quiet_loaded _) (fun _ _ h => h.1) (fun _ _ h => by rw [h.2]) ⟨hl, hview⟩
    fun seen l S hl hfound => ?_
  obtain ⟨-, hview⟩ := hl
  have hsteady : Steady (OpsRely user.id i) fun l S => Found user.id i user seen S ∧
      l.view = fun db => db.killed seen env.now := steady_found.and (steady_writes _)
  refine wp_flushUser hsteady ⟨hfound, by rw [hview]; rfl⟩ fun l S hl hflush => ?_
  obtain ⟨hfound, hview⟩ := hl
  refine wp_addToken hissues hlimit hfound hflush ?_
  rw [hview]
  rfl

/-- From the throttle to the commit of a verification mail. -/
theorem wp_throttled {email : String} {env : IssueEnv} (hissues : Issues settings user email env op)
    (hl : Loaded id i user S) (hview : l.view = fun db => db) :
    wp (OpsRely id i) (OpsGuarantee settings id op i) i (fun _ _ _ => True) (do
      enforceSendThrottle settings user.id email
      let new ← issueAndSend settings user email env
      commitTx
      return emailState new) l S := by
  have hsteady : Steady (OpsRely id i) fun l S => Loaded id i user S ∧ l.view = fun db => db :=
    steady_loaded.and (steady_writes _)
  refine wp_bind OpsRely.refl ?_
  refine hsteady.wp_aside (fun l S kv hl => ⟨guarantee_store kv, { hl.1 with }, hl.2⟩)
    (enforceSendThrottle_aside settings user.id email) ⟨hl, hview⟩ fun r S hpassed hl => ?_
  cases r with
  | error e => trivial
  | ok _ => exact wp_issue hissues (hpassed rfl) hl.1 hl.2

theorem steady_start : Steady (OpsRely id i) fun l (S : Shared App τ) => Started i S ∧ l.view = fun db => db :=
  steady_started.and (steady_writes _)

theorem wp_requestEmail {rawEmail : String} {env : IssueEnv} (hstart : Started i S) :
    wp (OpsRely id i) (OpsGuarantee settings id (.request rawEmail env) i) i (fun _ _ _ => True)
      (requestEmail settings id rawEmail env) .idle S := by
  unfold requestEmail
  cases hn : settings.normalizeEmail rawEmail with
  | error message => exact fun _ _ => trivial
  | ok email =>
    refine wp_loadUser steady_start (quiet_started _) (fun _ _ h => h.1) (fun _ _ h => h.2) ⟨hstart, rfl⟩
      fun user l S hl hloaded => ?_
    dsimp only
    cases hv : user.email.any fun e => e.toLower == email with
    | true => exact fun _ _ => trivial
    | false => exact wp_throttled (.request hn hv) hloaded hl.2

theorem wp_resendVerification {env : IssueEnv} (hstart : Started i S) :
    wp (OpsRely id i) (OpsGuarantee settings id (.resend env) i) i (fun _ _ _ => True)
      (resendVerification settings id env) .idle S := by
  unfold resendVerification
  refine wp_loadUser steady_start (quiet_started _) (fun _ _ h => h.1) (fun _ _ h => h.2) ⟨hstart, rfl⟩
    fun user l S hl hloaded => ?_
  dsimp only
  cases hp : user.pendingEmail with
  | none => exact fun _ _ => trivial
  | some email => exact wp_throttled (.resend hp) hloaded hl.2

theorem wp_deleteEmail {now : Int} (hstart : Started i S) :
    wp (OpsRely id i) (OpsGuarantee settings id (.delete now) i) i (fun _ _ _ => True) (deleteEmail id now) .idle S := by
  unfold deleteEmail
  refine wp_loadUser steady_start (quiet_started _) (fun _ _ h => h.1) (fun _ _ h => h.2) ⟨hstart, rfl⟩
    fun user l S hl hloaded => ?_
  obtain rfl := hloaded.owner
  have hsteady : Steady (OpsRely user.id i) fun l S => Loaded user.id i user S ∧ l.view = fun db => db :=
    steady_loaded.and (steady_writes _)
  refine wp_invalidateOutstanding hsteady (quiet_loaded _) (fun _ _ h => h.1) (fun _ _ h => by rw [h.2])
    ⟨hloaded, hl.2⟩ fun seen l S hl hfound => ?_
  obtain ⟨-, hview⟩ := hl
  have hsteady : Steady (OpsRely user.id i) fun l S => Found user.id i user seen S ∧
      l.view = fun db => db.killed seen now := steady_found.and (steady_writes _)
  refine wp_flushUser hsteady ⟨hfound, by rw [hview]; rfl⟩ fun l S hl hflush => ?_
  obtain ⟨hfound, hview⟩ := hl
  rw [hview]
  intro S' hr
  have hfound := steady_found.rely _ S S' hfound hr
  exact ⟨guarantee_commit (.withdrawn hfound hflush rfl), fun _ _ => trivial⟩

/-- A token that is read. -/
theorem presented_of_token {rawToken : String} {now : Int} {row : EmailVerificationToken} (hraw : rawToken ≠ "")
    (hrow : S.db.token (settings.verificationTokenHash rawToken) = some row) (hexp : now < row.expiresAt)
    (hown : row.userId = id) : Presented settings id rawToken now row S.db := by
  obtain ⟨-, hhash⟩ := EmailDb.token_some hrow
  exact ⟨hraw, hhash, hexp, hown, row, hhash ▸ hrow, rfl⟩

/-- The users tell whether the index rejects a row. -/
theorem conflicted_of_users {db db' : EmailDb} (h : db'.users = db.users) : db'.conflicted id = db.conflicted id := by
  simp only [EmailDb.conflicted, EmailDb.user, EmailDb.addressTaken, h]

theorem verified_users {db db' : EmailDb} {row : EmailVerificationToken} {loaded : Addresses} {now : Int}
    (h : db'.users = db.users) :
    (db'.verified id loaded row seen now).users = (db.verified id loaded row seen now).users := by
  simp only [EmailDb.verified, EmailDb.flushed]
  split
  · exact h
  · simp only [EmailDb.updateUser, EmailDb.killed, EmailDb.consumed, EmailDb.updateTokens, h]

/-- A verification that has flushed the user's row; while it holds this, the users are as its check has seen them. -/
structure Promoting (settings : Settings) (i : τ) (user : User) (rawToken : String) (now : Int)
    (row : EmailVerificationToken) (seen : List String) (users : List User) (l : Local App) (S : Shared App τ) :
    Prop where
  found : Found user.id i user seen S
  presented : Presented settings user.id rawToken now row S.db
  flushes : Flushes user.id user.addresses ⟨some row.email, some now, none⟩ l
  writes : l.view = fun db => db.verified user.id user.addresses row seen now
  users : user.addresses ≠ ⟨some row.email, some now, none⟩ → S.db.users = users

theorem steady_promoting {rawToken : String} {now : Int} {row : EmailVerificationToken} {users : List User} :
    Steady (OpsRely user.id i) (Promoting (τ := τ) settings i user rawToken now row seen users) where
  rely l S S' h hr := by
    refine ⟨steady_found.rely l S S' h.found hr, steady_presented.rely l S S' h.presented hr, h.flushes, h.writes,
      fun hne => ?_⟩
    exact (hr.row (h.flushes.resolve_left fun he => hne he.symm)).trans (h.users hne)
  lock _ _ _ h := { h with flushes := h.flushes.imp_right (Set.mem_insert_of_mem _) }
  read _ _ _ h := { h with }

/-- From the flush of the verified address to the commit. -/
theorem wp_promote {rawToken : String} {now : Int} {row : EmailVerificationToken} (hfound : Found user.id i user seen S)
    (hpres : Presented settings user.id rawToken now row S.db)
    (hflush : Flushes user.id user.addresses ⟨some row.email, some now, none⟩ l)
    (hview : l.view = fun db => db.verified user.id user.addresses row seen now) :
    wp (OpsRely user.id i) (OpsGuarantee settings user.id (.verify rawToken now) i) i (fun _ _ _ => True) (do
      if ← addressConflict user.id then raise verificationFailed
      else
        commitTx
        return emailState ⟨some row.email, some now, none⟩) l S := by
  simp only [addressConflict, query_bind, select_bind]
  intro S₁ hr₁
  have hl : Promoting settings i user rawToken now row seen S₁.db.users l S₁ :=
    ⟨steady_found.rely l S S₁ hfound hr₁, steady_presented.rely l S S₁ hpres hr₁, hflush, hview, fun _ => rfl⟩
  have hcommit : ∀ l S, Promoting settings i user rawToken now row seen S₁.db.users l S →
      (user.addresses ≠ ⟨some row.email, some now, none⟩ →
        (S₁.db.verified user.id user.addresses row seen now).conflicted user.id = false) →
      wp (OpsRely user.id i) (OpsGuarantee settings user.id (.verify rawToken now) i) i (fun _ _ _ => True) (do
        commitTx
        return emailState ⟨some row.email, some now, none⟩) l S := by
    refine fun l S hl hc => steady_promoting.wp_commit hl fun S hl => ?_
    rw [hl.writes]
    refine ⟨guarantee_commit (.verified hl.found hl.flushes rfl hl.presented fun hne => ?_), fun _ _ => trivial⟩
    rw [conflicted_of_users (verified_users (hl.users hne))]
    exact hc hne
  have hl := steady_promoting.read _ _ .users hl
  dsimp only
  cases haddress : ((l.view S₁.db).user user.id).bind User.verifiedAddress with
  | none =>
    refine hcommit _ _ hl fun _ => ?_
    rw [hview] at haddress
    rw [EmailDb.conflicted, haddress]
    rfl
  | some address =>
    rw [hview] at haddress
    simp only [lockOn_bind, lock_bind, query_bind]
    refine steady_promoting.wp_lock hl fun l S hl _ => ?_
    refine steady_promoting.wp_select hl fun l S hl => ?_
    cases htaken : (l.view S.db).addressTaken user.id address with
    | true => exact fun _ _ => trivial
    | false =>
      refine hcommit _ _ hl fun hne => ?_
      rw [hl.writes, EmailDb.addressTaken, verified_users (hl.users hne)] at htaken
      rw [EmailDb.conflicted, haddress]
      exact htaken

theorem wp_verifyEmail {rawToken : String} {now : Int} (hstart : Started i S) :
    wp (OpsRely id i) (OpsGuarantee settings id (.verify rawToken now) i) i (fun _ _ _ => True)
      (verifyEmail settings id rawToken now) .idle S := by
  unfold verifyEmail
  by_cases hraw : rawToken = ""
  · rw [if_pos hraw]
    exact fun _ _ => trivial
  rw [if_neg hraw]
  simp only [query_bind]
  refine (steady_started.and (steady_writes fun db => db)).wp_select ⟨hstart, rfl⟩ fun l S hl => ?_
  obtain ⟨hstart, hview⟩ := hl
  rw [hview]
  cases hrow : S.db.token (settings.verificationTokenHash rawToken) with
  | none => exact fun _ _ => trivial
  | some row =>
    dsimp only
    split_ifs with hout hexp hown
    · exact fun _ _ => trivial
    · exact fun _ _ => trivial
    · exact fun _ _ => trivial
    have hpres := presented_of_token hraw hrow (lt_of_not_ge hexp) (not_not.mp hown)
    have hsteady : Steady (OpsRely id i) fun l (S : Shared App τ) =>
        (Started i S ∧ l.view = fun db => db) ∧ Presented settings id rawToken now row S.db :=
      steady_start.and steady_presented
    refine wp_loadUser hsteady (fun l S e h => ⟨quiet_started _ l S e h.1, h.2⟩) (fun _ _ h => h.1.1)
      (fun _ _ h => h.1.2) ⟨⟨hstart, hview⟩, hpres⟩ fun user l S hl hloaded => ?_
    obtain rfl := hloaded.owner
    obtain ⟨⟨-, hview⟩, hpres⟩ := hl
    simp only [lockOn_bind, update_bind]
    have hsteady : Steady (OpsRely user.id i) fun l S =>
        Loaded user.id i user S ∧ Presented settings user.id rawToken now row S.db := steady_loaded.and steady_presented
    refine (hsteady.and (steady_writes _)).wp_lock ⟨⟨hloaded, hpres⟩, hview⟩ fun l S hl _ => ?_
    refine (hsteady.and (steady_writes _)).wp_write hl fun S hl => ?_
    obtain ⟨⟨hloaded, hpres⟩, hview⟩ := hl
    have hsteady : Steady (OpsRely user.id i) fun l S => (Loaded user.id i user S ∧ l.view = fun db =>
        db.consumed row.tokenHash now) ∧ Presented settings user.id rawToken now row S.db :=
      (steady_loaded.and (steady_writes _)).and steady_presented
    have hquiet : Quiet i fun l S => (Loaded user.id i user S ∧ l.view = fun db => db.consumed row.tokenHash now) ∧
        Presented settings user.id rawToken now row S.db := fun l S e h => ⟨quiet_loaded _ l S e h.1, h.2⟩
    refine wp_invalidateOutstanding hsteady hquiet (fun _ _ h => h.1.1) (fun _ _ h => ?_)
      ⟨⟨hloaded, by rw [hview]; rfl⟩, hpres⟩ fun seen l S hl hfound => ?_
    · rw [h.1.2]
      exact issuedTokens_update _ (.consumed now) fun _ => rfl
    · obtain ⟨⟨-, hview⟩, hpres⟩ := hl
      have hsteady : Steady (OpsRely user.id i) fun l S => (Found user.id i user seen S ∧
          Presented settings user.id rawToken now row S.db) ∧
          l.view = fun db => (db.consumed row.tokenHash now).killed seen now :=
        (steady_found.and steady_presented).and (steady_writes _)
      refine wp_flushUser hsteady ⟨⟨hfound, hpres⟩, by rw [hview]; rfl⟩ fun l S hl hflush => ?_
      refine wp_promote hl.1.1 hl.1.2 hflush ?_
      rw [hl.2]
      rfl

theorem wp_program (hstart : Started i S) :
    wp (OpsRely id i) (OpsGuarantee settings id op i) i (fun _ _ _ => True) (op.program settings id) .idle S := by
  cases op with
  | request rawEmail env => exact wp_requestEmail hstart
  | resend env => exact wp_resendVerification hstart
  | verify rawToken now => exact wp_verifyEmail hstart
  | delete now => exact wp_deleteEmail hstart

end Programs

/-! ## The serial order -/

/-- What the operation leaves when it runs alone. -/
def AddressOp.alone (settings : Settings) (id : UserId) (op : AddressOp) (db : EmailDb) : EmailDb :=
  (op.run settings id ⟨db, .lost⟩).store.db

/-- The operation does not fail when it runs alone. -/
def AddressOp.Succeeds (settings : Settings) (id : UserId) (op : AddressOp) (db : EmailDb) : Prop :=
  ∃ state, (op.run settings id ⟨db, .lost⟩).res = .ok state

section Serial

variable {settings : Settings} {id : UserId} {op : AddressOp} {i : τ} {l : Local App} {S : Shared App τ}
  {db db' : EmailDb} {user u : User} {seen : List String} {loaded new new' : Addresses} {now : Int}

/-- A kill and a flush, as a run alone has them. -/
theorem killed_flushed_eq (hids : (db.users.map User.id).Nodup) (hu : db.user id = some u)
    (hown : ∀ t ∈ db.tokens, t.tokenHash ∈ seen → t.userId = id) (hall : ∀ h ∈ db.outstandingTokens id, h ∈ seen)
    (hmerge : Addresses.merge loaded new u.addresses = new') :
    (db.killed seen now).flushed id loaded new =
      (db.killed (db.outstandingTokens id) now).flushed id u.addresses new' := by
  have hids' : ((db.killed (db.outstandingTokens id) now).users.map User.id).Nodup := hids
  rw [killed_eq hown hall]
  exact flushed_eq hids' hu hmerge

theorem conflicted_flushed (hids : (db.users.map User.id).Nodup) (hu : db.user id = some u)
    (husers : db'.users = db.users) :
    (db'.flushed id u.addresses new).conflicted id =
      (u.withAddresses new).verifiedAddress.any fun address => db.addressTaken id address := by
  have hrow : (db'.flushed id u.addresses new).user id = some (u.withAddresses new) :=
    user_of_users hu (users_flushed hids hu husers)
  have htaken : ∀ address, (db'.flushed id u.addresses new).addressTaken id address = db.addressTaken id address := by
    refine fun address => addressTaken_of_masked ?_ address
    rw [maskedUsers_flushed, maskedUsers, husers, maskedUsers]
  rw [EmailDb.conflicted, hrow]
  simp only [htaken, Option.bind_some]

theorem Found.own_tokens (h : Found id i user seen S) : ∀ t ∈ S.db.tokens, t.tokenHash ∈ seen → t.userId = id := by
  intro t ht hseen
  obtain ⟨t', ht', hown⟩ := h.own _ hseen
  obtain ⟨hmem, hhash⟩ := EmailDb.token_some ht'
  rw [← List.inj_on_of_nodup_map h.hashes hmem ht hhash]
  exact hown

/-- What is outstanding once a token is consumed. -/
theorem outstanding_consumed {h : String} (hseen : ∀ h' ∈ db.outstandingTokens id, h' ∈ seen ∨ h = h') :
    ∀ h' ∈ (db.consumed h now).outstandingTokens id, h' ∈ seen := by
  intro h' hmem
  obtain ⟨t, ht, rfl⟩ := List.mem_map.mp hmem
  obtain ⟨ht, hprop⟩ := List.mem_filter.mp ht
  obtain ⟨hown, hout⟩ := Bool.and_eq_true_iff.mp hprop
  rw [tokens_consumed] at ht
  obtain ⟨t₀, ht₀, rfl⟩ := List.mem_map.mp ht
  have hne : ¬ t₀.tokenHash = h := by
    intro he
    rw [EmailVerificationToken.spent, if_pos he, EmailVerificationToken.outstanding] at hout
    cases hout
  rw [spent_of_ne hne] at hown hout ⊢
  refine (hseen _ (List.mem_map.mpr ⟨t₀, List.mem_filter.mpr ⟨ht₀, ?_⟩, rfl⟩)).resolve_right fun he => hne he.symm
  rw [hown, hout]
  rfl

theorem own_consumed {h : String} (hown : ∀ t ∈ db.tokens, t.tokenHash ∈ seen → t.userId = id) :
    ∀ t ∈ (db.consumed h now).tokens, t.tokenHash ∈ seen → t.userId = id := by
  intro t ht hseen
  rw [tokens_consumed] at ht
  obtain ⟨t₀, ht₀, rfl⟩ := List.mem_map.mp ht
  rw [spent_tokenHash] at hseen
  rw [spent_userId]
  exact hown t₀ ht₀ hseen

/-- The user of the operation, with what the condition says of it. -/
theorem Found.undisturbed (h : Found id i user seen S)
    (hun : ∀ u ∈ S.db.user id, ∀ e ∈ S.trace, e.1 = i → e.2.Holds settings op S.db u) :
    ∃ u, S.db.activeUser id = some u ∧ op.Borne settings S.db user.addresses u.addresses ∧
      ∀ h ∈ S.db.outstandingTokens id, h ∈ seen ∨ op.consumes settings = some h := by
  obtain ⟨u, hu⟩ := Option.isSome_iff_exists.mp h.active
  obtain ⟨hu', -⟩ := EmailDb.activeUser_some hu
  refine ⟨u, hu, hun u hu' _ h.loaded rfl, ?_⟩
  have hseen := hun u hu' _ h.found rfl
  rwa [EmailEv.Holds, EmailDb.activeUser_id hu] at hseen

/-- A verification that may be issued may be issued by the operation alone. -/
theorem Issues.alone {email : String} {env : IssueEnv} (h : Issues settings user email env op)
    (hborne : op.Borne settings db user.addresses u.addresses) : Issues settings u email env op ∧
      Addresses.merge user.addresses (user.addresses.awaiting email) u.addresses = u.addresses.awaiting email ∧
      op.consumes settings = none := by
  cases h with
  | request hn hv =>
    obtain ⟨hv', hpending⟩ := hborne email (by rw [hn]; rfl)
    refine ⟨.request hn hv', ?_, rfl⟩
    simp only [Addresses.merge, Addresses.awaiting, if_true]
    congr 1
    exact ite_eq_right_iff.mpr fun he => hpending he.symm
  | resend hp =>
    have hp' : u.pendingEmail = some email := Eq.trans hborne hp
    refine ⟨.resend hp', ?_, rfl⟩
    simp only [Addresses.merge, Addresses.awaiting, if_true]
    congr 1
    exact ite_eq_right_iff.mpr fun _ => hp'

/-- **A commit that is undisturbed** leaves what its operation leaves alone. -/
theorem Lands.alone (h : Lands settings id op i l S db')
    (hun : ∀ u ∈ S.db.user id, ∀ e ∈ S.trace, e.1 = i → e.2.Holds settings op S.db u)
    (hc : S.db.conflicted id = false) :
    db' = op.alone settings id S.db ∧ op.Succeeds settings id S.db ∧ db'.conflicted id = false := by
  cases h with
  | @issued user seen email env hfound hflush hissues hlimit hsent hheld hfresh =>
    obtain ⟨u, hu, hborne, hseen⟩ := hfound.undisturbed hun
    obtain ⟨hu', -⟩ := EmailDb.activeUser_some hu
    obtain ⟨hissues', hmerge, hnone⟩ := hissues.alone hborne
    have hall : ∀ h ∈ S.db.outstandingTokens id, h ∈ seen := by
      rw [hnone] at hseen
      exact fun h hh => (hseen h hh).resolve_right fun hc => Option.some_ne_none h hc.symm
    have hsame : S.db.issued settings id user.addresses seen email env =
        S.db.issued settings id u.addresses (S.db.outstandingTokens id) email env :=
      congrArg (EmailDb.added · _) (killed_flushed_eq hfound.ids hu' hfound.own_tokens hall hmerge)
    obtain ⟨kv, hrun⟩ := AddressOp.run_issue hu hissues' hlimit hfresh hsent
    rw [hsame, AddressOp.alone, AddressOp.Succeeds, hrun]
    refine ⟨rfl, ⟨_, rfl⟩, ?_⟩
    have husers : (S.db.killed (S.db.outstandingTokens id) env.now).users = S.db.users := rfl
    have hconflict : (S.db.issued settings id u.addresses (S.db.outstandingTokens id) email env).conflicted id = _ :=
      conflicted_flushed hfound.ids hu' husers
    rw [EmailDb.conflicted, hu'] at hc
    exact hconflict.trans hc
  | @verified user seen rawToken now row hfound hflush hop hpres hfree =>
    obtain ⟨u, hu, hborne, hseen⟩ := hfound.undisturbed hun
    obtain ⟨hu', -⟩ := EmailDb.activeUser_some hu
    subst hop
    obtain ⟨t, ht, he⟩ := hpres.kept
    obtain ⟨hhash, howner, hemail, hexpires⟩ := of_asIssued he
    have ht' : S.db.token (settings.verificationTokenHash rawToken) = some t := hpres.hash ▸ ht
    obtain ⟨hout, hsettles⟩ := hborne t ht'
    have hcan : Consumable settings id S.db rawToken now t :=
      ⟨hpres.presented, ht', hout, hexpires ▸ hpres.unexpired, howner.trans hpres.own⟩
    have hseen' : ∀ h ∈ S.db.outstandingTokens id, h ∈ seen ∨ t.tokenHash = h :=
      fun h hh => (hseen h hh).imp_right fun hc => hhash.trans (hpres.hash.trans (Option.some.inj hc))
    have hsame : S.db.verified id user.addresses row seen now = S.db.verified id u.addresses t
        ((S.db.consumed t.tokenHash now).outstandingTokens id) now := by
      have hids : ((S.db.consumed t.tokenHash now).users.map User.id).Nodup := hfound.ids
      rw [EmailDb.verified, ← hhash, ← hemail]
      exact killed_flushed_eq hids hu' (own_consumed hfound.own_tokens) (outstanding_consumed hseen') hsettles.merge
    have hconflict : (S.db.verified id u.addresses t ((S.db.consumed t.tokenHash now).outstandingTokens id)
        now).conflicted id = false := by
      by_cases hne : user.addresses = ⟨some row.email, some now, none⟩
      · -- nothing is written: the user has the address already, and the index does not reject it
        have hcur : u.addresses = ⟨some t.email, some now, none⟩ := by
          have hmerge := hsettles.merge
          rwa [hne, ← hemail, merge_same] at hmerge
        have husers : ((S.db.consumed t.tokenHash now).killed
            ((S.db.consumed t.tokenHash now).outstandingTokens id) now).users = S.db.users := rfl
        rw [EmailDb.verified, conflicted_flushed hfound.ids hu' husers, ← hcur]
        rw [EmailDb.conflicted, hu'] at hc
        exact hc
      · rw [← hsame]
        exact hfree hne
    have hrun : (AddressOp.verify rawToken now).run settings id ⟨S.db, .lost⟩ = _ :=
      AddressOp.run_verify (s := ⟨S.db, .lost⟩) hu hcan
    rw [hconflict] at hrun
    rw [hsame, AddressOp.alone, AddressOp.Succeeds, hrun]
    exact ⟨rfl, ⟨_, rfl⟩, hconflict⟩
  | @withdrawn user seen now hfound hflush hop =>
    obtain ⟨u, hu, hborne, hseen⟩ := hfound.undisturbed hun
    obtain ⟨hu', -⟩ := EmailDb.activeUser_some hu
    subst hop
    have hall : ∀ h ∈ S.db.outstandingTokens id, h ∈ seen := fun h hh =>
      (hseen h hh).resolve_right fun hc => Option.some_ne_none h hc.symm
    have hsame : S.db.withdrawn id user.addresses seen now =
        S.db.withdrawn id u.addresses (S.db.outstandingTokens id) now :=
      killed_flushed_eq hfound.ids hu' hfound.own_tokens hall hborne.merge
    have hrun : (AddressOp.delete now).run settings id ⟨S.db, .lost⟩ = _ :=
      AddressOp.run_delete (s := ⟨S.db, .lost⟩) hu now
    rw [hsame, AddressOp.alone, AddressOp.Succeeds, hrun]
    exact ⟨rfl, ⟨_, rfl⟩, conflicted_flushed hfound.ids hu' rfl⟩

/-- A token that user `id` cannot use. -/
def Unusable (id : UserId) (h : String) (db : EmailDb) : Prop :=
  ∃ t, db.token h = some t ∧ (t.userId = id → t.outstanding = false)

theorem unusable_update {h : String} {p : EmailVerificationToken → Bool}
    {g : EmailVerificationToken → EmailVerificationToken} (hissued : ∀ t, (g t).asIssued = t.asIssued)
    (hover : ∀ t, (g t).outstanding = false) (hu : Unusable id h db) : Unusable id h (db.updateTokens p g) := by
  obtain ⟨t, ht, hdead⟩ := hu
  have ht' : (db.updateTokens p g).token h = _ := token_update p g fun t => (of_asIssued (hissued t)).1
  rw [ht, Option.map_some] at ht'
  refine ⟨_, ht', ?_⟩
  split
  · exact fun _ => hover t
  · exact hdead

theorem unusable_killed {h : String} (hu : Unusable id h db) : Unusable id h (db.killed seen now) :=
  unusable_update (fun _ => rfl) (fun _ => Bool.and_false _) hu

theorem unusable_consumed {h h' : String} (hu : Unusable id h db) : Unusable id h (db.consumed h' now) :=
  unusable_update (fun _ => rfl) (fun _ => Bool.false_and _) hu

theorem unusable_flushed {h : String} (hu : Unusable id h db) : Unusable id h (db.flushed id loaded new) := by
  rw [Unusable, token_flushed]
  exact hu

theorem unusable_added {h : String} {row : EmailVerificationToken} (hu : Unusable id h db) :
    Unusable id h (db.added row) := by
  obtain ⟨t, ht, hdead⟩ := hu
  refine ⟨t, ?_, hdead⟩
  rw [EmailDb.token] at ht ⊢
  rw [EmailDb.added, List.find?_append, ht]
  rfl

/-- What a user cannot use, it can never use again. -/
theorem AddressEffect.unusable {r : Except Err EmailState} {h : String} (he : AddressEffect settings id db op r db')
    (hu : Unusable id h db) : Unusable id h db' := by
  cases he with
  | refused e => exact hu
  | issued _ _ _ => exact unusable_added (unusable_flushed (unusable_killed hu))
  | verified _ _ _ => exact unusable_flushed (unusable_killed (unusable_consumed hu))
  | withdrawn _ => exact unusable_flushed (unusable_killed hu)

/-- A deletion leaves the user no token. -/
theorem unusable_of_delete {h : String} (hdel : (AddressOp.delete now).Succeeds settings id db)
    (ht : ((AddressOp.delete now).alone settings id db).token h ≠ none) :
    Unusable id h ((AddressOp.delete now).alone settings id db) := by
  have heffect : AddressEffect settings id db (.delete now) _ ((AddressOp.delete now).alone settings id db) :=
    AddressOp.effect_delete (s := ⟨db, .lost⟩) now
  obtain ⟨state, hstate⟩ := hdel
  rw [hstate] at heffect
  generalize (AddressOp.delete now).alone settings id db = db' at heffect ht ⊢
  cases heffect with
  | issued _ hissues _ => cases hissues
  | @withdrawn user _ _ =>
    obtain ⟨t, ht⟩ := Option.ne_none_iff_exists'.mp ht
    refine ⟨t, ht, fun hown => eq_false_of_ne_true fun hout => ?_⟩
    obtain ⟨hmem, -⟩ := EmailDb.token_some ht
    rw [EmailDb.withdrawn, tokens_flushed, EmailDb.killed, EmailDb.updateTokens] at hmem
    obtain ⟨t₀, ht₀, rfl⟩ := List.mem_map.mp hmem
    split at hout
    · simp [EmailVerificationToken.outstanding, EmailVerificationToken.invalidated] at hout
    · rename_i hkept
      rw [if_neg hkept] at hown
      have hseen : t₀.tokenHash ∈ db.outstandingTokens id :=
        List.mem_map.mpr ⟨t₀, List.mem_filter.mpr ⟨ht₀, by rw [hown, hout, beq_self_eq_true]; rfl⟩, rfl⟩
      rw [hout, Bool.and_true, List.contains_iff_mem] at hkept
      exact hkept hseen

/-- A verification uses a token. -/
theorem not_unusable_of_verify {rawToken : String} (hver : (AddressOp.verify rawToken now).Succeeds settings id db) :
    ¬ Unusable id (settings.verificationTokenHash rawToken) db := by
  rintro ⟨t, ht, hdead⟩
  have heffect : AddressEffect settings id db (.verify rawToken now) _
      ((AddressOp.verify rawToken now).alone settings id db) := AddressOp.effect_verify (s := ⟨db, .lost⟩) rawToken now
  obtain ⟨state, hstate⟩ := hver
  rw [hstate] at heffect
  generalize (AddressOp.verify rawToken now).alone settings id db = db' at heffect
  cases heffect with
  | issued _ hissues _ => cases hissues
  | verified _ hcan _ =>
    obtain rfl := Option.some.inj (ht.symm.trans hcan.found)
    have hout := hdead hcan.own
    rw [hcan.outstanding] at hout
    cases hout

end Serial

/-! ## Whole runs -/

section Runs

variable [DecidableEq τ] {settings : Settings} {id : UserId} {op : τ → AddressOp} {db : EmailDb} {kv : Outside}

omit [DecidableEq τ] in
theorem operations_rules (hdb : Keyed db) : Rules (fun _ _ => True) (EmailOps.start settings id op db kv)
    (fun j => OpsRely id j) (fun i => OpsGuarantee settings id (op i) i) (fun _ _ _ => True) where
  refl _ := OpsRely.refl
  trans _ _ _ _ _ := OpsRely.trans
  outside _ _ _ _ _ := .aside rfl List.prefix_rfl rfl
  compat s _ _ _ _ hj hG := hG.rely hj (Sys.localOf_disjoint s hj)
  stable _ _ _ _ _ _ := trivial
  start _ := good_start (wp_program ⟨hdb.ids, hdb.hashes, List.not_mem_nil⟩)

/-- The tables after the operations of `order`, one after another. -/
abbrev inOrder (settings : Settings) (id : UserId) (op : τ → AddressOp) (order : List τ) (db : EmailDb) : EmailDb :=
  serial (fun i => (op i).alone settings id) order db

/-- The committed operations are a serial run, in which each of them succeeds. -/
structure Serialized (settings : Settings) (id : UserId) (op : τ → AddressOp) (db : EmailDb) (S : Shared App τ) :
    Prop where
  nodup : S.commits.Nodup
  tables : S.db = inOrder settings id op S.commits db
  free : S.db.conflicted id = false
  succeed : Steps (fun pre i => (op i).Succeeds settings id (inOrder settings id op pre db)) S.commits

omit [DecidableEq τ] in
theorem Serialized.commit {i : τ} {l : Local App} {S : Shared App τ} {db' : EmailDb}
    (hS : Serialized settings id op db S) (hun : undisturbed settings id op i l S)
    (h : Lands settings id (op i) i l S db') :
    Serialized settings id op db { S with db := db', commits := S.commits ++ [i] } := by
  have honce : i ∉ S.commits := by
    cases h with
    | issued hfound => exact hfound.once
    | verified hfound => exact hfound.once
    | withdrawn hfound => exact hfound.once
  obtain ⟨hdb', hsucceeds, hfree⟩ := h.alone hun hS.free
  refine ⟨?_, ?_, hfree, ?_⟩
  · rw [List.nodup_append]
    refine ⟨hS.nodup, List.nodup_singleton _, fun j hj k hk hjk => honce ?_⟩
    rwa [← List.mem_singleton.mp hk, ← hjk]
  · rw [hdb', inOrder, serial_append]
    exact congrArg (AddressOp.alone settings id (op i)) hS.tables
  · exact steps_append_singleton.mpr ⟨hS.succeed, hS.tables ▸ hsucceeds⟩

theorem serialized_of_reach (hdb : Keyed db) (hfree : db.conflicted id = false) {s : Sys App τ EmailState}
    (h : Reach (fun _ _ => True) (undisturbed settings id op) (EmailOps.start settings id op db kv) s) :
    Serialized settings id op db s.shared := by
  refine Reach.inv (operations_rules hdb) (J := Serialized settings id op db) ⟨List.nodup_nil, rfl, hfree, steps_nil⟩
    ?_ ?_ (fun S kv _ hS => { hS with }) h
  · intro s i S' hun hS hG
    obtain ⟨hc, hP⟩ := hG.1.1 rfl
    have hnext := hS.commit hun hP
    exact ⟨hc ▸ hnext.nodup, hc ▸ hnext.tables, hnext.free, hc ▸ hnext.succeed⟩
  · intro s i a S' ha hS hG
    obtain ⟨hc, hdb'⟩ := hG.1.2 ha
    exact ⟨hc ▸ hS.nodup, hc ▸ hdb' ▸ hS.tables, hdb' ▸ hS.free, hc ▸ hS.succeed⟩

omit [DecidableEq τ] in
/-- What is unusable in a serial run is so in its continuations. -/
theorem unusable_inOrder {h : String} {pre later : List τ} (hu : Unusable id h (inOrder settings id op pre db)) :
    Unusable id h (inOrder settings id op (pre ++ later) db) := by
  induction later using List.reverseRecOn with
  | nil => rwa [List.append_nil]
  | append_singleton later i ih =>
    rw [← List.append_assoc, inOrder, serial_append]
    exact (AddressOp.effect (s := ⟨inOrder settings id op (pre ++ later) db, .lost⟩) (op i)).unusable ih

omit [DecidableEq τ] in
/-- A verification after a deletion is of a token that was not there yet. -/
theorem Serialized.new_token {S : Shared App τ} (hS : Serialized settings id op db S) {pre later : List τ} {j i : τ}
    (hcommits : S.commits = pre ++ j :: later) {now : Int} (hj : op j = .delete now) (hi : i ∈ later)
    {rawToken : String} {now' : Int} (hop : op i = .verify rawToken now') :
    (inOrder settings id op (pre ++ [j]) db).token (settings.verificationTokenHash rawToken) = none := by
  by_contra htoken
  obtain ⟨before, after, rfl⟩ := List.append_of_mem hi
  have hdel := hS.succeed pre j ⟨before ++ i :: after, by rw [hcommits, List.append_assoc]; rfl⟩
  have hver := hS.succeed (pre ++ [j] ++ before) i ⟨after, by rw [hcommits]; simp⟩
  rw [inOrder, serial_append, hj] at htoken
  rw [hj] at hdel
  rw [hop] at hver
  refine not_unusable_of_verify hver (unusable_inOrder ?_)
  rw [inOrder, serial_append, hj]
  exact unusable_of_delete hdel htoken

theorem Keyed.not_conflicted (hdb : Keyed db) : db.conflicted id = false := by
  rw [EmailDb.conflicted]
  cases haddress : (db.user id).bind User.verifiedAddress with
  | none => rfl
  | some address =>
    obtain ⟨user, hu, ha⟩ := Option.bind_eq_some_iff.mp haddress
    obtain ⟨hmem, hid⟩ := EmailDb.user_some hu
    rw [Option.any_some, EmailDb.addressTaken, List.any_eq_false]
    intro u hu' htaken
    rw [Bool.and_eq_true, bne_iff_ne, beq_iff_eq] at htaken
    exact htaken.1 (hdb.apart u hu' user hmem address htaken.2 ha ▸ hid)

/-- **Operations of one user**: in every run whose commits are undisturbed, the tables are those of the committed
operations one after another, each of them once and with success, in the order of their commits; and a verification
that commits after a deletion is of a token that was not there when the deletion committed. -/
theorem operations_serial (hdb : Keyed db) {s : Sys App τ EmailState}
    (h : Reach (fun _ _ => True) (undisturbed settings id op) (EmailOps.start settings id op db kv) s) :
    s.shared.commits.Nodup ∧ s.shared.db = inOrder settings id op s.shared.commits db ∧
    Steps (fun pre i => (op i).Succeeds settings id (inOrder settings id op pre db)) s.shared.commits ∧
    ∀ pre j later, s.shared.commits = pre ++ j :: later → ∀ now, op j = .delete now →
      ∀ i ∈ later, ∀ rawToken now', op i = .verify rawToken now' →
        (inOrder settings id op (pre ++ [j]) db).token (settings.verificationTokenHash rawToken) = none := by
  have hS := serialized_of_reach hdb hdb.not_conflicted h
  exact ⟨hS.nodup, hS.tables, hS.succeed, fun pre j later hc now hj i hi rawToken now' hop => hS.new_token hc hj hi hop⟩

end Runs

/-! ### One user -/

/-- A user with a pending address, and its token. -/
def oneToken : EmailDb where
  users := [{ User.plain 1 with pendingEmail := some "ada@x.org" }]
  tokens := [⟨1, "ada@x.org", "s1", 10, none, none⟩]
  suppressions := []
  deliveries := []

theorem oneToken_keyed : Keyed oneToken := ⟨by decide, by decide, by decide +kernel⟩

/-- Three clients of one user. -/
inductive Client
  | verifies | deletes | requests
  deriving DecidableEq

/-- A verification, a deletion, and a request for another address. -/
def threeOps : Client → AddressOp
  | .verifies => .verify "s1" 1
  | .deletes => .delete 2
  | .requests => .request "eve@x.org" ⟨"s2", 3, false⟩

/-- The request finds the token before the verification consumes it, and waits for the verification; the deletion comes
last. -/
def waiting : List Client :=
  List.replicate 9 .requests ++ List.replicate 15 .verifies ++ List.replicate 9 .requests ++ List.replicate 10 .deletes

theorem operations_serial_waiting :
    let s := (EmailOps.start .plain 1 threeOps oneToken .lost).after (undisturbed .plain 1 threeOps) waiting
    s.shared.commits = [.verifies, .requests, .deletes] ∧
      s.shared.db = inOrder .plain 1 threeOps [.verifies, .requests, .deletes] oneToken := by
  intro s
  have hreach : Reach (fun _ _ => True) (undisturbed .plain 1 threeOps)
      (EmailOps.start .plain 1 threeOps oneToken .lost) s := Reach.after (by decide +kernel)
  have hcommits : s.shared.commits = [.verifies, .requests, .deletes] := by decide +kernel
  obtain ⟨-, hdb, -⟩ := operations_serial oneToken_keyed hreach
  exact ⟨hcommits, hcommits ▸ hdb⟩

/-- A verification and a deletion. -/
def attachAndDelete : Bool → AddressOp
  | false => .verify "s1" 1
  | true => .delete 2

/-- The verification reads its token and its user, the deletion runs, and then the verification goes on. -/
def deletedMeanwhile : List Bool := List.replicate 3 false ++ List.replicate 10 true ++ List.replicate 12 false

/-- **An address that comes back**: a verification that has started before a deletion attaches the address after it, as
no serial order does. -/
theorem address_reattached : ∃ s,
    Reach (fun _ _ => True) anyCommit (EmailOps.start .plain 1 attachAndDelete oneToken .lost) s ∧
    s.shared.commits = [true, false] ∧ (s.shared.db.user 1).bind User.email = some "ada@x.org" ∧
    ∀ i j, i ≠ j → s.shared.db ≠ inOrder .plain 1 attachAndDelete [i, j] oneToken :=
  ⟨(EmailOps.start .plain 1 attachAndDelete oneToken .lost).after anyCommit deletedMeanwhile,
    Reach.after (by decide +kernel), by decide +kernel, by decide +kernel, by decide +kernel⟩

end CodeReader.Email
