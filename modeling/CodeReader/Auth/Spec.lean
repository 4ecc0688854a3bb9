import CodeReader.Auth.Service
import CodeReader.Core.Rows
import Mathlib.Data.List.Nodup

/-!
# What the operations on accounts do when they run alone

* `GithubLogin`, `GithubLogin.program` — a login as a transaction of its own; `GithubLogin.after` — what it leaves;
* `LoginEffect` — all that a login can do: `GithubLogin.effect`;
* `OneEach` — one user for each GitHub account: every login keeps it.
-/

namespace CodeReader.Auth

open Txn Prog

/-- A login as GitHub answers it. -/
structure GithubLogin where
  profile : GithubProfile
  accessToken : String
  scopes : Option String

namespace GithubLogin

/-- The GitHub account, and its login name now. -/
def account (l : GithubLogin) : String := l.profile.providerUserId
def name (l : GithubLogin) : String := l.profile.login

def program (settings : Settings) (l : GithubLogin) : Handler (UserId × Bool) := do
  let user ← upsertGithubUser settings l.profile l.accessToken l.scopes
  commitTx
  return user

/-- The login run alone. -/
def run (settings : Settings) (l : GithubLogin) (db : AuthDb) : Run App (UserId × Bool) :=
  (l.program settings).exec db ⟨db, ()⟩

def after (settings : Settings) (db : AuthDb) (l : GithubLogin) : AuthDb := (l.run settings db).store.db

end GithubLogin

namespace AuthDb

/-- The user renamed to the GitHub login, and let in if that is invited. -/
def renamed (db : AuthDb) (settings : Settings) (l : GithubLogin) (user : User) : AuthDb where
  users := db.users.map fun u => if u.id == user.id then
    { u with
      username := l.name
      displayName := l.profile.displayName
      avatarUrl := l.profile.avatarUrl
      betaAllowed := u.betaAllowed || !user.betaAllowed && db.invited l.name }
    else u
  identities := db.identities.map fun i => if i.providerUserId == l.account then
    { i with
      providerLogin := l.name
      accessTokenEnc := settings.encryptToken l.accessToken
      tokenScopes := l.scopes }
    else i
  betaInvites := db.betaInvites
  refreshTokens := db.refreshTokens

/-- The username of a new user. -/
def newUsername (db : AuthDb) (l : GithubLogin) : String :=
  if (db.userNamed l.name).isSome then s!"{l.name}-{l.account}" else l.name

def added (db : AuthDb) (u : User) (i : AuthIdentity) : AuthDb :=
  { db with users := db.users ++ [u], identities := db.identities ++ [i] }

def newUser (db : AuthDb) (l : GithubLogin) : User :=
  ⟨db.freshUserId, db.newUsername l, l.profile.displayName, l.profile.avatarUrl, false⟩

def newIdentity (db : AuthDb) (settings : Settings) (l : GithubLogin) : AuthIdentity :=
  ⟨db.freshUserId, l.account, l.name, settings.encryptToken l.accessToken, l.scopes⟩

def registered (db : AuthDb) (settings : Settings) (l : GithubLogin) : AuthDb :=
  db.added { db.newUser l with betaAllowed := db.invited l.name } (db.newIdentity settings l)

theorem freshUserId_not_mem (db : AuthDb) : db.freshUserId ∉ db.users.map User.id := by
  have hle : ∀ (ids : List UserId), ∀ id ∈ ids, id ≤ ids.foldr max 0 := by
    intro ids
    induction ids with
    | nil => exact fun id h => absurd h List.not_mem_nil
    | cons id' ids ih =>
      intro id h
      rcases List.mem_cons.mp h with rfl | h
      · exact Nat.le_max_left _ _
      · exact Nat.le_trans (ih id h) (Nat.le_max_right _ _)
  intro h
  exact Nat.not_succ_le_self _ (hle _ _ h)

theorem user_id {db : AuthDb} {id : UserId} {u : User} (h : db.user id = some u) : u ∈ db.users ∧ u.id = id :=
  ⟨List.mem_of_find?_eq_some h, by simpa using List.find?_some h⟩

theorem identity_account {db : AuthDb} {a : String} {i : AuthIdentity} (h : db.identity a = some i) :
    i ∈ db.identities ∧ i.providerUserId = a :=
  ⟨List.mem_of_find?_eq_some h, by simpa using List.find?_some h⟩

theorem usernameTaken_iff {db : AuthDb} {id : UserId} {name : String} :
    db.usernameTaken id name = true ↔ ∃ u ∈ db.users, u.id ≠ id ∧ citext u.username = citext name := by
  simp [usernameTaken]

theorem userNamed_some {db : AuthDb} {name : String} {u : User} (h : db.userNamed name = some u) :
    u ∈ db.users ∧ citext u.username = citext name :=
  ⟨List.mem_of_find?_eq_some h, by simpa using List.find?_some h⟩

theorem userNamed_eq_none {db : AuthDb} {name : String} :
    db.userNamed name = none ↔ ∀ u ∈ db.users, citext u.username ≠ citext name := by
  simp [userNamed]

end AuthDb

/-! ## Logins -/

def usernameViolation : Err := .integrity "users_username_key"

/-- All that a login can do: its result and the tables it leaves. -/
inductive LoginEffect (settings : Settings) (l : GithubLogin) (db : AuthDb) :
    Except Err (UserId × Bool) → AuthDb → Prop
  | orphaned {i : AuthIdentity} : db.identity l.account = some i → db.user i.userId = none →
      LoginEffect settings l db (.error (.api 500 "internal" "Identity is missing its user.")) db
  | collided {i : AuthIdentity} {u : User} : db.identity l.account = some i → db.user i.userId = some u →
      db.usernameTaken u.id l.name = true → LoginEffect settings l db (.error usernameViolation) db
  | renamed {i : AuthIdentity} {u : User} : db.identity l.account = some i → db.user i.userId = some u →
      db.usernameTaken u.id l.name = false →
      LoginEffect settings l db (.ok (u.id, u.betaAllowed || db.invited l.name)) (db.renamed settings l u)
  | refused : db.identity l.account = none → db.usernameTaken db.freshUserId (db.newUsername l) = true →
      LoginEffect settings l db (.error usernameViolation) db
  | registered : db.identity l.account = none → db.usernameTaken db.freshUserId (db.newUsername l) = false →
      LoginEffect settings l db (.ok (db.freshUserId, db.invited l.name)) (db.registered settings l)

/-- The user let in, if it is not and its GitHub login is invited. -/
def AuthDb.letIn (db : AuthDb) (id : UserId) (betaAllowed : Bool) (login : String) : AuthDb :=
  if !betaAllowed && db.invited login then db.updateUser id fun u => { u with betaAllowed := true } else db

theorem exec_applyBetaInvite (id : UserId) (betaAllowed : Bool) (login : String) (cur : AuthDb) (s : Store App) :
    (applyBetaInvite id betaAllowed login).exec cur s =
      ⟨.ok (betaAllowed || cur.invited login), cur.letIn id betaAllowed login, s⟩ := by
  unfold applyBetaInvite AuthDb.letIn
  cases betaAllowed with
  | true => rfl
  | false => cases h : cur.invited login <;> simp [h]

theorem exec_flushUser (id : UserId) (f : User → User) (name : String) (cur : AuthDb) (s : Store App) :
    (flushUser id f name).exec cur s = if cur.usernameTaken id name then ⟨.error usernameViolation, cur, s⟩
      else ⟨.ok (), cur.updateUser id f, s⟩ := by
  unfold flushUser
  cases h : cur.usernameTaken id name with
  | true => simp [h, usernameViolation]
  | false => simp [h, update]

section Tables

variable (db : AuthDb) (id : UserId) (account name : String) (f : User → User) (g : AuthIdentity → AuthIdentity)

/-- Two updates of one user. -/
theorem updateUser_updateUser {f' : User → User} (hf : ∀ u, (f u).id = u.id) :
    (db.updateUser id f).updateUser id f' = db.updateUser id fun u => f' (f u) := by
  simp only [AuthDb.updateUser, List.map_map]
  congr 1
  refine List.map_congr_left fun u _ => ?_
  by_cases hu : u.id = id <;> simp [hu, hf]

theorem updateIdentity_updateUser :
    (db.updateUser id f).updateIdentity account g = (db.updateIdentity account g).updateUser id f := rfl

end Tables

/-- A returning user gets the GitHub login, and access if that is invited. -/
theorem renamed_eq (db : AuthDb) (settings : Settings) (l : GithubLogin) (user : User) :
    ((db.updateUser user.id fun u => { u with
        username := l.name
        displayName := l.profile.displayName
        avatarUrl := l.profile.avatarUrl }).updateIdentity l.account fun i => { i with
          providerLogin := l.name
          accessTokenEnc := settings.encryptToken l.accessToken
          tokenScopes := l.scopes }).letIn user.id user.betaAllowed l.name = db.renamed settings l user := by
  have hinvited : ∀ f g, ((db.updateUser user.id f).updateIdentity l.account g).invited l.name = db.invited l.name :=
    fun _ _ => rfl
  rw [AuthDb.letIn, hinvited]
  by_cases hflip : (!user.betaAllowed && db.invited l.name) = true
  · have hid : ∀ u : User, { u with
        username := l.name, displayName := l.profile.displayName, avatarUrl := l.profile.avatarUrl }.id = u.id :=
      fun _ => rfl
    rw [if_pos hflip, ← updateIdentity_updateUser, updateUser_updateUser _ _ _ hid]
    simp only [AuthDb.renamed, hflip, Bool.or_true]
    rfl
  · rw [if_neg hflip]
    simp only [AuthDb.renamed, eq_false_of_ne_true hflip, Bool.or_false]
    rfl

/-- A new user, with access if its GitHub login is invited. -/
theorem registered_eq (db : AuthDb) (settings : Settings) (l : GithubLogin) :
    (db.added (db.newUser l) (db.newIdentity settings l)).letIn db.freshUserId false l.name =
      db.registered settings l := by
  have hother : db.users.map (fun u => if u.id = db.freshUserId then { u with betaAllowed := true } else u) =
      db.users := by
    conv_rhs => rw [← List.map_id db.users]
    refine List.map_congr_left fun u hu => ?_
    have hne : u.id ≠ db.freshUserId := fun he => db.freshUserId_not_mem (he ▸ List.mem_map_of_mem hu)
    simp [hne]
  have hinvited : (db.added (db.newUser l) (db.newIdentity settings l)).invited l.name = db.invited l.name := rfl
  rw [AuthDb.letIn, hinvited]
  cases hflip : db.invited l.name with
  | true => simp [AuthDb.updateUser, AuthDb.registered, AuthDb.added, AuthDb.newUser, hother, hflip]
  | false => simp [AuthDb.registered, AuthDb.newUser, hflip]

namespace GithubLogin

variable {settings : Settings} {l : GithubLogin} {db : AuthDb} {i : AuthIdentity} {u : User}

theorem run_orphaned (hi : db.identity l.account = some i) (hu : db.user i.userId = none) :
    l.run settings db = ⟨.error (.api 500 "internal" "Identity is missing its user."), db, ⟨db, ()⟩⟩ := by
  rw [account] at hi
  simp [run, program, upsertGithubUser, hi, hu]

theorem run_collided (hi : db.identity l.account = some i) (hu : db.user i.userId = some u)
    (ht : db.usernameTaken u.id l.name = true) :
    l.run settings db = ⟨.error usernameViolation, db, ⟨db, ()⟩⟩ := by
  rw [account] at hi
  rw [name] at ht
  simp [run, program, upsertGithubUser, hi, hu, exec_bind, andThen, exec_flushUser, ht]

theorem run_renamed (hi : db.identity l.account = some i) (hu : db.user i.userId = some u)
    (ht : db.usernameTaken u.id l.name = false) :
    l.run settings db = ⟨.ok (u.id, u.betaAllowed || db.invited l.name), db.renamed settings l u,
      ⟨db.renamed settings l u, ()⟩⟩ := by
  rw [account] at hi
  rw [name] at ht
  rw [← renamed_eq]
  simp only [run, program, upsertGithubUser, exec_bind, andThen, query, exec_select, exec_ret, hi, hu, exec_flushUser,
    ht, Bool.false_eq_true, if_false, update, exec_write, exec_applyBetaInvite, pure_eq, commitTx, exec_commit, name,
    account]
  rfl

theorem run_refused (hi : db.identity l.account = none)
    (ht : db.usernameTaken db.freshUserId (db.newUsername l) = true) :
    l.run settings db = ⟨.error usernameViolation, db, ⟨db, ()⟩⟩ := by
  rw [account] at hi
  rw [AuthDb.newUsername, account, name] at ht
  simp [run, program, upsertGithubUser, hi, ht, usernameViolation]

theorem run_registered (hi : db.identity l.account = none)
    (ht : db.usernameTaken db.freshUserId (db.newUsername l) = false) :
    l.run settings db = ⟨.ok (db.freshUserId, db.invited l.name), db.registered settings l,
      ⟨db.registered settings l, ()⟩⟩ := by
  rw [← registered_eq]
  rw [account] at hi
  rw [AuthDb.newUsername, account, name] at ht
  simp [run, program, upsertGithubUser, hi, ht, exec_bind, andThen, exec_applyBetaInvite]
  exact ⟨rfl, rfl⟩

/-- All that a login does. -/
theorem effect (settings : Settings) (l : GithubLogin) (db : AuthDb) :
    LoginEffect settings l db (l.run settings db).res (l.after settings db) := by
  unfold after
  cases hi : db.identity l.account with
  | none =>
    cases ht : db.usernameTaken db.freshUserId (db.newUsername l) with
    | true =>
      rw [run_refused hi ht]
      exact .refused hi ht
    | false =>
      rw [run_registered hi ht]
      exact .registered hi ht
  | some i =>
    cases hu : db.user i.userId with
    | none =>
      rw [run_orphaned hi hu]
      exact .orphaned hi hu
    | some u =>
      cases ht : db.usernameTaken u.id l.name with
      | true =>
        rw [run_collided hi hu ht]
        exact .collided hi hu ht
      | false =>
        rw [run_renamed hi hu ht]
        exact .renamed hi hu ht

end GithubLogin

/-! ## One user for each account -/

/-- Each GitHub account has one identity, and each identity one user of its own. -/
structure OneEach (db : AuthDb) : Prop where
  accounts : (db.identities.map AuthIdentity.providerUserId).Nodup
  owners : db.identities.map AuthIdentity.userId = db.users.map User.id
  ids : (db.users.map User.id).Nodup

namespace OneEach

variable {db : AuthDb} {i i' : AuthIdentity} {u u' : User}

theorem eq_of_id (h : OneEach db) (hu : u ∈ db.users) (hu' : u' ∈ db.users) (hid : u.id = u'.id) : u = u' :=
  List.inj_on_of_nodup_map h.ids hu hu' hid

theorem eq_of_account (h : OneEach db) (hi : i ∈ db.identities) (hi' : i' ∈ db.identities)
    (ha : i.providerUserId = i'.providerUserId) : i = i' :=
  List.inj_on_of_nodup_map h.accounts hi hi' ha

theorem eq_of_owner (h : OneEach db) (hi : i ∈ db.identities) (hi' : i' ∈ db.identities)
    (hid : i.userId = i'.userId) : i = i' :=
  List.inj_on_of_nodup_map (h.owners ▸ h.ids) hi hi' hid

theorem exists_identity (h : OneEach db) (hu : u ∈ db.users) : ∃ i ∈ db.identities, i.userId = u.id := by
  have hid : u.id ∈ db.identities.map AuthIdentity.userId := h.owners ▸ List.mem_map_of_mem hu
  exact List.mem_map.mp hid

theorem exists_user (h : OneEach db) (hi : i ∈ db.identities) : ∃ u ∈ db.users, u.id = i.userId := by
  have hid : i.userId ∈ db.users.map User.id := h.owners ▸ List.mem_map_of_mem hi
  exact List.mem_map.mp hid

theorem identity_eq (h : OneEach db) (hi : i ∈ db.identities) : db.identity i.providerUserId = some i := by
  have hsome : (db.identity i.providerUserId).isSome := List.find?_isSome.mpr ⟨i, hi, by simp⟩
  obtain ⟨i', hi'⟩ := Option.isSome_iff_exists.mp hsome
  obtain ⟨hmem, hacc⟩ := AuthDb.identity_account hi'
  rw [hi', h.eq_of_account hmem hi hacc]

theorem user_eq (h : OneEach db) (hu : u ∈ db.users) : db.user u.id = some u := by
  have hsome : (db.user u.id).isSome := List.find?_isSome.mpr ⟨u, hu, by simp⟩
  obtain ⟨u', hu'⟩ := Option.isSome_iff_exists.mp hsome
  obtain ⟨hmem, hid⟩ := AuthDb.user_id hu'
  rw [hu', h.eq_of_id hmem hu hid]

/-- A login that finds the account keeps the users. -/
theorem ids_renamed (db : AuthDb) (settings : Settings) (l : GithubLogin) (user : User) :
    (db.renamed settings l user).users.map User.id = db.users.map User.id := by
  apply Rows.map_update
  exact fun _ => rfl

/-- A new user has a new id. -/
theorem ids_registered (settings : Settings) (l : GithubLogin) (hids : (db.users.map User.id).Nodup) :
    ((db.registered settings l).users.map User.id).Nodup := by
  apply Rows.nodup_insert hids
  intro u hu hid
  have hfresh : u.id = db.freshUserId := hid
  exact db.freshUserId_not_mem (hfresh ▸ List.mem_map_of_mem hu)

theorem renamed (h : OneEach db) (settings : Settings) (l : GithubLogin) (user : User) :
    OneEach (db.renamed settings l user) := by
  have hids := ids_renamed db settings l user
  have hacc : (db.renamed settings l user).identities.map AuthIdentity.providerUserId =
      db.identities.map AuthIdentity.providerUserId := by
    apply Rows.map_update
    exact fun _ => rfl
  have howners : (db.renamed settings l user).identities.map AuthIdentity.userId =
      db.identities.map AuthIdentity.userId := by
    apply Rows.map_update
    exact fun _ => rfl
  exact ⟨hacc ▸ h.accounts, howners.trans (h.owners.trans hids.symm), hids ▸ h.ids⟩

theorem registered (h : OneEach db) (settings : Settings) {l : GithubLogin} (hi : db.identity l.account = none) :
    OneEach (db.registered settings l) where
  accounts := by
    apply Rows.nodup_insert h.accounts
    intro i hmem hia
    have hia : i.providerUserId = l.account := hia
    rw [← hia, h.identity_eq hmem] at hi
    cases hi
  owners := by
    simp only [AuthDb.registered, AuthDb.added, List.map_append, h.owners]
    rfl
  ids := ids_registered settings l h.ids

/-- Every login keeps one user for each account. -/
theorem after (h : OneEach db) (settings : Settings) (l : GithubLogin) : OneEach (l.after settings db) := by
  have heffect := l.effect settings db
  generalize (l.run settings db).res = res at heffect
  generalize l.after settings db = db' at heffect ⊢
  cases heffect with
  | orphaned _ _ => exact h
  | collided _ _ _ => exact h
  | renamed _ _ _ => exact h.renamed settings l _
  | refused _ _ => exact h
  | registered hi _ => exact h.registered settings hi

end OneEach

end CodeReader.Auth
