import CodeReader.Core.Rows
import CodeReader.Email.Consent

/-!
# Who owns an address

Four fields of two tables say that an address is a user's: the address, the time of its verification, the pending
address, and the tokens.

* `Keyed` — the keys of the tables;
* `Owned` — what holds of them: `AddressEffect.owned` is the step, `owned_runTurns` the run;
* `emails_owned` — **the result**, for every serial run from users without addresses.
-/

namespace CodeReader.Email

open Txn Prog
open Auth (citext)

/-! ## The tables -/

/-- The token proves that its user controls the address: it was consumed before it expired. -/
structure Proves (t : EmailVerificationToken) (id : UserId) (email : String) : Prop where
  own : t.userId = id
  address : t.email = email
  consumed : ∃ now, t.consumedAt = some now ∧ now < t.expiresAt

/-- The keys of the tables: ids and hashes tell rows apart, and no two users that are not deleted have verified one
address. -/
structure Keyed (db : EmailDb) : Prop where
  ids : (db.users.map User.id).Nodup
  hashes : (db.tokens.map EmailVerificationToken.tokenHash).Nodup
  apart : ∀ u ∈ db.users, ∀ u' ∈ db.users, ∀ address ∈ u.verifiedAddress, u'.verifiedAddress = some address → u = u'

/-- An address is there with the time of its verification, and a token of its user proves it; a user has at most one
outstanding token, which is for the pending address. -/
structure Owned (db : EmailDb) : Prop extends Keyed db where
  verified : ∀ u ∈ db.users, u.email.isSome = u.emailVerifiedAt.isSome
  proven : ∀ u ∈ db.users, ∀ email ∈ u.email, ∃ t ∈ db.tokens, Proves t u.id email
  pending : ∀ u ∈ db.users, ∀ t ∈ db.tokens, t.userId = u.id → t.outstanding = true → u.pendingEmail = some t.email
  single : ∀ t ∈ db.tokens, ∀ t' ∈ db.tokens, t.userId = t'.userId → t.outstanding = true → t'.outstanding = true →
    t = t'

/-- Users without addresses, and no tokens. -/
structure NoAddresses (db : EmailDb) : Prop where
  ids : (db.users.map User.id).Nodup
  empty : ∀ u ∈ db.users, u.addresses = ⟨none, none, none⟩
  tokens : db.tokens = []

theorem NoAddresses.owned {db : EmailDb} (h : NoAddresses db) : Owned db := by
  have hnone : ∀ u ∈ db.users, u.email = none ∧ u.emailVerifiedAt = none := fun u hu =>
    ⟨congrArg Addresses.email (h.empty u hu), congrArg Addresses.emailVerifiedAt (h.empty u hu)⟩
  have htoken : ∀ t, t ∉ db.tokens := fun t ht => by
    rw [h.tokens] at ht
    cases ht
  refine ⟨⟨h.ids, ?_, fun u hu u' hu' address ha => ?_⟩, fun u hu => ?_, fun u hu email he => ?_,
    fun u hu t ht => absurd ht (htoken t), fun t ht => absurd ht (htoken t)⟩
  · rw [h.tokens]
    exact List.nodup_nil
  · rw [User.verifiedAddress, (hnone u hu).2] at ha
    cases ha
  · rw [(hnone u hu).1, (hnone u hu).2]
    rfl
  · rw [(hnone u hu).1] at he
    cases he

/-- The user with these addresses. -/
def User.withAddresses (u : User) (a : Addresses) : User :=
  { u with email := a.email, emailVerifiedAt := a.emailVerifiedAt, pendingEmail := a.pendingEmail }

theorem User.flush_addresses (u : User) (new : Addresses) : u.flush u.addresses new = u.withAddresses new := by
  simp only [flush, addresses, withAddresses, User.mk.injEq, true_and, and_true]
  exact ⟨ite_eq_right_iff.mpr Eq.symm, ite_eq_right_iff.mpr Eq.symm, ite_eq_right_iff.mpr Eq.symm⟩

section Rows

variable {db : EmailDb} {id : UserId} {user u : User} {t : EmailVerificationToken} {now : Int} {h : String}
  {new : Addresses}

theorem user_eq (hids : (db.users.map User.id).Nodup) (hu : db.user id = some user) (hm : u ∈ db.users)
    (hid : u.id = id) : u = user := by
  obtain ⟨hmem, hid'⟩ := EmailDb.user_some hu
  exact List.inj_on_of_nodup_map hids hm hmem (hid.trans hid'.symm)

/-- A flush of a user as it is sets the addresses. -/
theorem users_flushed (hids : (db.users.map User.id).Nodup) (hu : db.user id = some user) {db' : EmailDb} (hdb' : db'.users = db.users) :
    (db'.flushed id user.addresses new).users =
      db.users.map fun u => if u.id = id then u.withAddresses new else u := by
  have hrow : ∀ u ∈ db'.users, u.id = id → u = user := fun u hm hid => user_eq hids hu (hdb' ▸ hm) hid
  rw [← hdb']
  unfold EmailDb.flushed
  split
  · rename_i hsame
    conv_lhs => rw [← List.map_id db'.users]
    refine List.map_congr_left fun u hm => ?_
    split
    · rename_i hid
      rw [hrow u hm hid, hsame]
      rfl
    · rfl
  · refine List.map_congr_left fun u hm => ?_
    simp only [beq_iff_eq]
    split
    · rename_i hid
      rw [hrow u hm hid, User.flush_addresses]
    · rfl

theorem tokens_flushed {loaded : Addresses} : (db.flushed id loaded new).tokens = db.tokens := by
  unfold EmailDb.flushed
  split <;> rfl

/-- The token once the outstanding tokens of user `id` are killed. -/
def EmailVerificationToken.killedFor (t : EmailVerificationToken) (id : UserId) (now : Int) : EmailVerificationToken :=
  if t.userId = id ∧ t.outstanding = true then t.invalidated now else t

theorem tokens_killed (hashes : (db.tokens.map EmailVerificationToken.tokenHash).Nodup) :
    (db.killed (db.outstandingTokens id) now).tokens = db.tokens.map fun t => t.killedFor id now := by
  refine List.map_congr_left fun t ht => ?_
  have hseen : t.outstanding = true → (t.tokenHash ∈ db.outstandingTokens id ↔ t.userId = id) := by
    intro hout
    simp only [EmailDb.outstandingTokens, List.mem_map, List.mem_filter, Bool.and_eq_true, beq_iff_eq]
    constructor
    · rintro ⟨t', ⟨ht', hown, -⟩, he⟩
      rwa [List.inj_on_of_nodup_map hashes ht' ht he] at hown
    · exact fun hown => ⟨t, ⟨ht, hown, hout⟩, rfl⟩
  unfold EmailVerificationToken.killedFor
  cases hout : t.outstanding with
  | false => simp [hout]
  | true => simp [hout, hseen hout]

/-- Other tokens, and tokens that are not outstanding, are kept. -/
theorem killedFor_of_ne (h : t.userId ≠ id) : t.killedFor id now = t := if_neg fun hk => h hk.1

@[simp] theorem killedFor_userId : (t.killedFor id now).userId = t.userId := by
  unfold EmailVerificationToken.killedFor
  split <;> rfl

@[simp] theorem killedFor_tokenHash : (t.killedFor id now).tokenHash = t.tokenHash := by
  unfold EmailVerificationToken.killedFor
  split <;> rfl

/-- What is outstanding after a kill is another user's. -/
theorem outstanding_killedFor (h : (t.killedFor id now).outstanding = true) : t.userId ≠ id ∧ t.killedFor id now = t := by
  unfold EmailVerificationToken.killedFor at h ⊢
  split at h
  · simp [EmailVerificationToken.outstanding, EmailVerificationToken.invalidated] at h
  · rename_i hnot
    rw [if_neg hnot]
    exact ⟨fun hid => hnot ⟨hid, h⟩, rfl⟩

/-- A proof is not killed. -/
theorem Proves.killedFor {id' : UserId} {email : String} (hp : Proves t id' email) :
    Proves (t.killedFor id now) id' email := by
  unfold EmailVerificationToken.killedFor
  split
  · exact ⟨hp.own, hp.address, hp.consumed⟩
  · exact hp

end Rows

/-! ## The operations -/

section Operations

variable {settings : Settings} {db : EmailDb} {id : UserId} {user : User} {now : Int}

/-- What an operation of user `id` leaves: new addresses of `id`, which are proven, and tokens of `id` of which one at
most is outstanding. -/
structure Leaves (id : UserId) (user : User) (new : Addresses) (db db' : EmailDb) : Prop where
  users : db'.users = db.users.map fun u => if u.id = id then u.withAddresses new else u
  hashes : (db'.tokens.map EmailVerificationToken.tokenHash).Nodup
  verified : new.email.isSome = new.emailVerifiedAt.isSome
  proven : ∀ email ∈ new.email, ∃ t ∈ db'.tokens, Proves t id email
  proofs : ∀ t ∈ db.tokens, t.userId ≠ id → t ∈ db'.tokens
  others : ∀ t ∈ db'.tokens, t.outstanding = true → t.userId ≠ id → t ∈ db.tokens
  pending : ∀ t ∈ db'.tokens, t.outstanding = true → t.userId = id → new.pendingEmail = some t.email
  single : ∀ t ∈ db'.tokens, ∀ t' ∈ db'.tokens, t.outstanding = true → t'.outstanding = true → t.userId = id →
    t'.userId = id → t = t'
  apart : ∀ address ∈ (user.withAddresses new).verifiedAddress, ∀ u ∈ db.users, u.id ≠ id →
    u.verifiedAddress ≠ some address

theorem Leaves.owned {new : Addresses} {db' : EmailDb} (h : Leaves id user new db db') (hdb : Owned db)
    (hu : db.user id = some user) : Owned db' := by
  -- a user of the new tables is the user of the operation, or is as it was
  have hmem : ∀ u ∈ db'.users, u = user.withAddresses new ∧ u.id = id ∨ u ∈ db.users ∧ u.id ≠ id := by
    intro u hu'
    rw [h.users] at hu'
    obtain ⟨u₀, hu₀, rfl⟩ := List.mem_map.mp hu'
    by_cases hid : u₀.id = id
    · rw [if_pos hid, user_eq hdb.ids hu hu₀ hid]
      exact .inl ⟨rfl, (EmailDb.user_some hu).2⟩
    · rw [if_neg hid]
      exact .inr ⟨hu₀, hid⟩
  refine ⟨⟨?_, h.hashes, fun u hu' u' hu'' address ha ha' => ?_⟩, fun u hu' => ?_, fun u hu' email he => ?_,
    fun u hu' t ht hown hout => ?_, fun t ht t' ht' hsame hout hout' => ?_⟩
  · have hids : db'.users.map User.id = db.users.map User.id := by
      rw [h.users]
      apply Rows.map_update
      exact fun _ => rfl
    rw [hids]
    exact hdb.ids
  · obtain ⟨rfl, hid⟩ | ⟨hold, hid⟩ := hmem u hu' <;> obtain ⟨rfl, hid'⟩ | ⟨hold', hid'⟩ := hmem u' hu''
    · rfl
    · exact absurd ha' (h.apart address ha u' hold' hid')
    · exact absurd ha (h.apart address ha' u hold hid)
    · exact hdb.apart u hold u' hold' address ha ha'
  · obtain ⟨rfl, -⟩ | ⟨hold, -⟩ := hmem u hu'
    · exact h.verified
    · exact hdb.verified u hold
  · obtain ⟨rfl, hid⟩ | ⟨hold, hid⟩ := hmem u hu'
    · rw [hid]
      exact h.proven email he
    · obtain ⟨t, ht, hp⟩ := hdb.proven u hold email he
      exact ⟨t, h.proofs t ht (hp.own ▸ hid), hp⟩
  · obtain ⟨rfl, hid⟩ | ⟨hold, hid⟩ := hmem u hu'
    · exact h.pending t ht hout (hown.trans hid)
    · exact hdb.pending u hold t (h.others t ht hout (hown ▸ hid)) hown hout
  · by_cases hid : t.userId = id
    · exact h.single t ht t' ht' hout hout' hid (hsame ▸ hid)
    · exact hdb.single t (h.others t ht hout hid) t' (h.others t' ht' hout' (hsame ▸ hid)) hsame hout hout'

theorem mem_tokens_killed {t : EmailVerificationToken}
    (hashes : (db.tokens.map EmailVerificationToken.tokenHash).Nodup) :
    t ∈ (db.killed (db.outstandingTokens id) now).tokens ↔ ∃ t₀ ∈ db.tokens, t = t₀.killedFor id now := by
  rw [tokens_killed hashes, List.mem_map]
  simp only [eq_comm]

theorem hashes_killed (hashes : (db.tokens.map EmailVerificationToken.tokenHash).Nodup) :
    ((db.killed (db.outstandingTokens id) now).tokens.map EmailVerificationToken.tokenHash).Nodup := by
  rw [tokens_killed hashes, List.map_map]
  simpa only [Function.comp_def, killedFor_tokenHash] using hashes

/-- A user's verified address stays apart when the user keeps it. -/
theorem Keyed.keeps_apart (hdb : Keyed db) (hu : db.user id = some user) {address : List Char}
    (ha : user.verifiedAddress = some address) : ∀ u ∈ db.users, u.id ≠ id → u.verifiedAddress ≠ some address := by
  obtain ⟨hmem, hid⟩ := EmailDb.user_some hu
  intro u hu' hne ha'
  exact hne (hdb.apart u hu' user hmem address ha' ha ▸ hid)

theorem leaves_withdrawn (hdb : Owned db) (hu : db.user id = some user) : Leaves id user ⟨none, none, none⟩ db
    (db.withdrawn id user.addresses (db.outstandingTokens id) now) where
  users := users_flushed hdb.ids hu rfl
  hashes := by
    rw [EmailDb.withdrawn, tokens_flushed]
    exact hashes_killed hdb.hashes
  verified := rfl
  proven email he := nomatch he
  proofs t ht hid := by
    rw [EmailDb.withdrawn, tokens_flushed, mem_tokens_killed hdb.hashes]
    exact ⟨t, ht, (killedFor_of_ne hid).symm⟩
  others t ht hout hid := by
    rw [EmailDb.withdrawn, tokens_flushed, mem_tokens_killed hdb.hashes] at ht
    obtain ⟨t₀, ht₀, rfl⟩ := ht
    rwa [(outstanding_killedFor hout).2]
  pending t ht hout hid := by
    rw [EmailDb.withdrawn, tokens_flushed, mem_tokens_killed hdb.hashes] at ht
    obtain ⟨t₀, ht₀, rfl⟩ := ht
    exact absurd (killedFor_userId.symm.trans hid) (outstanding_killedFor hout).1
  single t ht t' ht' hout hout' hid hid' := by
    rw [EmailDb.withdrawn, tokens_flushed, mem_tokens_killed hdb.hashes] at ht
    obtain ⟨t₀, ht₀, rfl⟩ := ht
    exact absurd (killedFor_userId.symm.trans hid) (outstanding_killedFor hout).1
  apart address ha := nomatch ha

theorem leaves_issued (hdb : Owned db) (hu : db.user id = some user) {email : String} {env : IssueEnv}
    (hfresh : db.fresh settings env) : Leaves id user (user.addresses.awaiting email) db
      (db.issued settings id user.addresses (db.outstandingTokens id) email env) := by
  have htokens : (db.issued settings id user.addresses (db.outstandingTokens id) email env).tokens =
      (db.killed (db.outstandingTokens id) env.now).tokens ++ [env.row settings id email] := by
    rw [EmailDb.issued, EmailDb.added, tokens_flushed]
  have hmem : ∀ t, t ∈ (db.issued settings id user.addresses (db.outstandingTokens id) email env).tokens ↔
      (∃ t₀ ∈ db.tokens, t = t₀.killedFor id env.now) ∨ t = env.row settings id email := by
    intro t
    rw [htokens, List.mem_append, mem_tokens_killed hdb.hashes, List.mem_singleton]
  obtain ⟨humem, huid⟩ := EmailDb.user_some hu
  refine ⟨users_flushed hdb.ids hu rfl, ?_, hdb.verified user humem, fun e he => ?_, fun t ht hid => ?_,
    fun t ht hout hid => ?_, fun t ht hout hid => ?_, fun t ht t' ht' hout hout' hid hid' => ?_,
    fun address ha => hdb.keeps_apart hu ha⟩
  · rw [htokens]
    apply Rows.nodup_insert (hashes_killed hdb.hashes)
    intro t ht he
    obtain ⟨t₀, ht₀, rfl⟩ := (mem_tokens_killed hdb.hashes).mp ht
    rw [killedFor_tokenHash] at he
    exact EmailDb.token_eq_none.mp hfresh t₀ ht₀ he
  · obtain ⟨t, ht, hp⟩ := hdb.proven user humem e he
    exact ⟨_, (hmem _).mpr (.inl ⟨t, ht, rfl⟩), huid ▸ hp.killedFor⟩
  · exact (hmem t).mpr (.inl ⟨t, ht, (killedFor_of_ne hid).symm⟩)
  · obtain ⟨t₀, ht₀, rfl⟩ | rfl := (hmem t).mp ht
    · rwa [(outstanding_killedFor hout).2]
    · exact absurd rfl hid
  · obtain ⟨t₀, ht₀, rfl⟩ | rfl := (hmem t).mp ht
    · exact absurd (killedFor_userId.symm.trans hid) (outstanding_killedFor hout).1
    · rfl
  · -- the new token is the only one of the user that is outstanding
    have hnew : ∀ t ∈ (db.issued settings id user.addresses (db.outstandingTokens id) email env).tokens,
        t.outstanding = true → t.userId = id → t = env.row settings id email := by
      intro t ht hout hid
      obtain ⟨t₀, ht₀, rfl⟩ | rfl := (hmem t).mp ht
      · exact absurd (killedFor_userId.symm.trans hid) (outstanding_killedFor hout).1
      · rfl
    rw [hnew t ht hout hid, hnew t' ht' hout' hid']

/-- The token once the token `h` is consumed. -/
def EmailVerificationToken.spent (t : EmailVerificationToken) (h : String) (now : Int) : EmailVerificationToken :=
  if t.tokenHash = h then t.consumed now else t

theorem tokens_consumed (h : String) : (db.consumed h now).tokens = db.tokens.map fun t => t.spent h now := by
  simp [EmailDb.consumed, EmailDb.updateTokens, EmailVerificationToken.spent]

@[simp] theorem spent_tokenHash {t : EmailVerificationToken} {h : String} : (t.spent h now).tokenHash = t.tokenHash := by
  unfold EmailVerificationToken.spent
  split <;> rfl

@[simp] theorem spent_userId {t : EmailVerificationToken} {h : String} : (t.spent h now).userId = t.userId := by
  unfold EmailVerificationToken.spent
  split <;> rfl

theorem spent_of_ne {t : EmailVerificationToken} {h : String} (hne : t.tokenHash ≠ h) : t.spent h now = t := if_neg hne

/-- What is outstanding has not been spent. -/
theorem outstanding_spent {t : EmailVerificationToken} {h : String} (hout : (t.spent h now).outstanding = true) :
    t.spent h now = t := by
  unfold EmailVerificationToken.spent at hout ⊢
  split at hout
  · simp [EmailVerificationToken.outstanding, EmailVerificationToken.consumed] at hout
  · exact if_neg ‹_›

/-- The user in the tables that an operation leaves. -/
theorem user_of_users {new : Addresses} {db' : EmailDb} (hu : db.user id = some user)
    (h : db'.users = db.users.map fun u => if u.id = id then u.withAddresses new else u) :
    db'.user id = some (user.withAddresses new) := by
  have hkey : ∀ u : User, (if u.id = id then u.withAddresses new else u).id = u.id := by
    intro u
    split <;> rfl
  rw [EmailDb.user, h, List.find?_map]
  simp only [Function.comp_def, hkey]
  rw [EmailDb.user] at hu
  rw [hu, Option.map_some, if_pos (EmailDb.user_some hu).2]

theorem leaves_verified (hdb : Owned db) (hu : db.user id = some user) {rawToken : String}
    {row : EmailVerificationToken} (hcan : Consumable settings id db rawToken now row)
    (hc : (db.verified id user.addresses row ((db.consumed row.tokenHash now).outstandingTokens id) now).conflicted id =
      false) : Leaves id user ⟨some row.email, some now, none⟩ db
      (db.verified id user.addresses row ((db.consumed row.tokenHash now).outstandingTokens id) now) := by
  obtain ⟨hrow, -⟩ := EmailDb.token_some hcan.found
  have hconsumed : ((db.consumed row.tokenHash now).tokens.map EmailVerificationToken.tokenHash).Nodup := by
    rw [tokens_consumed, List.map_map]
    simpa only [Function.comp_def, spent_tokenHash] using hdb.hashes
  have hmem : ∀ t, t ∈ (db.verified id user.addresses row ((db.consumed row.tokenHash now).outstandingTokens id)
      now).tokens ↔ ∃ t₀ ∈ db.tokens, t = (t₀.spent row.tokenHash now).killedFor id now := by
    intro t
    rw [EmailDb.verified, tokens_flushed, mem_tokens_killed hconsumed, tokens_consumed]
    simp only [List.mem_map, exists_exists_and_eq_and]
  have husers : (db.verified id user.addresses row ((db.consumed row.tokenHash now).outstandingTokens id) now).users =
      db.users.map fun u => if u.id = id then u.withAddresses ⟨some row.email, some now, none⟩ else u :=
    users_flushed hdb.ids hu rfl
  refine ⟨husers, ?_, rfl, fun e he => ?_, fun t ht hid => ?_, fun t ht hout hid => ?_, fun t ht hout hid => ?_,
    fun t ht t' ht' hout hout' hid hid' => ?_, fun address ha u hmemu hid hu' => ?_⟩
  · rw [EmailDb.verified, tokens_flushed]
    exact hashes_killed hconsumed
  · cases he
    refine ⟨_, (hmem _).mpr ⟨row, hrow, rfl⟩, Proves.killedFor ?_⟩
    rw [EmailVerificationToken.spent, if_pos rfl]
    exact ⟨hcan.own, rfl, now, rfl, hcan.unexpired⟩
  · have hne : t.tokenHash ≠ row.tokenHash :=
      fun he => hid (List.inj_on_of_nodup_map hdb.hashes ht hrow he ▸ hcan.own)
    refine (hmem t).mpr ⟨t, ht, ?_⟩
    rw [spent_of_ne hne, killedFor_of_ne hid]
  · obtain ⟨t₀, ht₀, rfl⟩ := (hmem t).mp ht
    have hkept := (outstanding_killedFor hout).2
    rw [hkept] at hout ⊢
    rwa [outstanding_spent hout]
  · obtain ⟨t₀, ht₀, rfl⟩ := (hmem t).mp ht
    exact absurd (killedFor_userId.symm.trans hid) (outstanding_killedFor hout).1
  · obtain ⟨t₀, ht₀, rfl⟩ := (hmem t).mp ht
    exact absurd (killedFor_userId.symm.trans hid) (outstanding_killedFor hout).1
  · rw [EmailDb.conflicted, user_of_users hu husers, Option.bind_some, ha, Option.any_some, EmailDb.addressTaken] at hc
    have htaken := List.any_eq_false.mp hc u (husers ▸ List.mem_map.mpr ⟨u, hmemu, if_neg hid⟩)
    simp [hid, hu'] at htaken

/-- **One operation** keeps who owns what. -/
theorem AddressEffect.owned {op : AddressOp} {r : Except Err EmailState} {db' : EmailDb}
    (h : AddressEffect settings id db op r db') (hdb : Owned db) : Owned db' := by
  cases h with
  | refused e => exact hdb
  | issued hu hissues hfresh =>
    have hu := (EmailDb.activeUser_some hu).1
    exact (leaves_issued hdb hu hfresh).owned hdb hu
  | verified hu hcan hc =>
    have hu := (EmailDb.activeUser_some hu).1
    exact (leaves_verified hdb hu hcan hc).owned hdb hu
  | withdrawn hu =>
    have hu := (EmailDb.activeUser_some hu).1
    exact (leaves_withdrawn hdb hu).owned hdb hu

end Operations

/-! ## Runs -/

/-- An operation of a user, with what it finds outside the tables. -/
structure Turn where
  id : UserId
  op : AddressOp
  outside : Outside

def Turn.after (settings : Settings) (db : EmailDb) (turn : Turn) : EmailDb :=
  (turn.op.run settings turn.id ⟨db, turn.outside⟩).store.db

/-- The operations one after another. -/
def runTurns (settings : Settings) (db : EmailDb) (turns : List Turn) : EmailDb :=
  turns.foldl (Turn.after settings) db

section Runs

variable {settings : Settings} {db : EmailDb}

theorem owned_runTurns (hdb : Owned db) (turns : List Turn) : Owned (runTurns settings db turns) := by
  induction turns generalizing db with
  | nil => exact hdb
  | cons turn turns ih => exact ih ((AddressOp.effect turn.op).owned hdb)

/-- What fails leaves the tables as they are. -/
theorem AddressEffect.error {id : UserId} {op : AddressOp} {e : Err} {db' : EmailDb}
    (h : AddressEffect settings id db op (.error e) db') : db' = db := by
  cases h
  rfl

/-- **Addresses are owned** after every serial run from users without addresses, and a verification that fails then
leaves the tables as they are. -/
theorem emails_owned (hdb : NoAddresses db) (turns : List Turn) :
    Owned (runTurns settings db turns) ∧
      ∀ (id : UserId) (rawToken : String) (now : Int) (outside : Outside) (e : Err),
        ((AddressOp.verify rawToken now).run settings id ⟨runTurns settings db turns, outside⟩).res = .error e →
        ((AddressOp.verify rawToken now).run settings id ⟨runTurns settings db turns, outside⟩).store.db =
          runTurns settings db turns := by
  refine ⟨owned_runTurns hdb.owned turns, fun id rawToken now outside e he => ?_⟩
  have heffect : AddressEffect settings id (runTurns settings db turns) (.verify rawToken now) _ _ :=
    AddressOp.effect_verify (s := ⟨runTurns settings db turns, outside⟩) rawToken now
  rw [he] at heffect
  exact heffect.error

end Runs

/-! ### Two users -/

/-- Two users without addresses. -/
def twoUsers : EmailDb := ⟨[.plain 1, .plain 2], [], [], []⟩

/-- Both ask for one address; the first to verify has it. -/
def bothAsk : List Turn :=
  [⟨1, .request "ada@x.org" ⟨"s1", 0, false⟩, .lost⟩, ⟨2, .request "Ada@x.org" ⟨"s2", 1, false⟩, .lost⟩,
    ⟨2, .verify "s2" 4, .lost⟩]

theorem twoUsers_noAddresses : NoAddresses twoUsers := ⟨by decide, by decide, rfl⟩

/-- The other cannot verify it any more. -/
theorem emails_owned_bothAsk : Owned (runTurns .plain twoUsers bothAsk) ∧
    ((runTurns .plain twoUsers bothAsk).user 2).bind User.email = some "Ada@x.org" ∧
    ((AddressOp.verify "s1" 5).run .plain 1 ⟨runTurns .plain twoUsers bothAsk, .lost⟩).store.db =
      runTurns .plain twoUsers bothAsk := by
  obtain ⟨howned, hfail⟩ : Owned (runTurns .plain twoUsers bothAsk) ∧ _ := emails_owned twoUsers_noAddresses bothAsk
  exact ⟨howned, by decide +kernel, hfail 1 "s1" 5 .lost verificationFailed (by decide +kernel)⟩

end CodeReader.Email
