import CodeReader.Auth.Spec
import CodeReader.Txn.History

/-!
# Usernames over all logins

A returning account's username becomes its GitHub login without a look at the other users, and a login that was free
when its account registered need not be free later.

* `lastLogin` — the login name that an account presented last;
* `LoginsFit` — what the code promises of a run of logins;
* `Released` — nobody logs in under a name that another account presented last;
* `logins_fit_iff` — **the result**: these are the same runs;
* `logins_collide` — an account that cannot log in twice.
-/

namespace CodeReader.Auth

open Txn Prog

/-- The tables without accounts, and with the invites that there are. -/
def AuthDb.initial (betaInvites : List String) : AuthDb := ⟨[], [], betaInvites, []⟩

/-- The tables after some logins. -/
def afterLogins (settings : Settings) (betaInvites : List String) (ls : List GithubLogin) : AuthDb :=
  ls.foldl (GithubLogin.after settings) (.initial betaInvites)

/-- The login name under which the account logged in last. -/
def lastLogin (ls : List GithubLogin) (account : String) : Option String :=
  (ls.reverse.find? (·.account == account)).map GithubLogin.name

/-- After the logins before it, a login stores no username that another user has; there is one user for each GitHub
account; and whoever logged in can do so again. -/
structure LoginsFit (settings : Settings) (betaInvites : List String) (ls : List GithubLogin) (l : GithubLogin) :
    Prop where
  stores : (l.run settings (afterLogins settings betaInvites ls)).res ≠ .error usernameViolation
  oneEach : OneEach (afterLogins settings betaInvites (ls ++ [l]))
  again : ∀ l' : GithubLogin, lastLogin (ls ++ [l]) l'.account = some l'.name →
    ∃ user, (l'.run settings (afterLogins settings betaInvites (ls ++ [l]))).res = .ok user

/-- No other account presented this name last. -/
def Released (ls : List GithubLogin) (l : GithubLogin) : Prop :=
  ∀ a n, a ≠ l.account → lastLogin ls a = some n → citext n ≠ citext l.name

theorem lastLogin_append_singleton (ls : List GithubLogin) (l : GithubLogin) (a : String) :
    lastLogin (ls ++ [l]) a = if l.account = a then some l.name else lastLogin ls a := by
  by_cases h : l.account = a <;> simp [lastLogin, h]

theorem afterLogins_append_singleton (settings : Settings) (betaInvites : List String) (ls : List GithubLogin)
    (l : GithubLogin) :
    afterLogins settings betaInvites (ls ++ [l]) = l.after settings (afterLogins settings betaInvites ls) := by
  rw [afterLogins, List.foldl_append]
  rfl

theorem oneEach_afterLogins (settings : Settings) (betaInvites : List String) (ls : List GithubLogin) :
    OneEach (afterLogins settings betaInvites ls) := by
  induction ls using List.reverseRecOn with
  | nil => exact ⟨List.nodup_nil, rfl, List.nodup_nil⟩
  | append_singleton ls l ih =>
    rw [afterLogins_append_singleton]
    exact ih.after settings l

/-! ## Names -/

/-- While names are released in time, the usernames are the login names presented last, and all different. -/
structure Named (ls : List GithubLogin) (db : AuthDb) : Prop where
  usernames : ∀ i ∈ db.identities, ∀ u ∈ db.users, u.id = i.userId → u.username = i.providerLogin
  last : ∀ a, (db.identity a).map AuthIdentity.providerLogin = lastLogin ls a
  distinct : ∀ a a' n n', lastLogin ls a = some n → lastLogin ls a' = some n' → citext n = citext n' → a = a'

section Names

variable {settings : Settings} {betaInvites : List String} {ls : List GithubLogin} {l : GithubLogin} {db : AuthDb}
  {u : User}

/-- A username is the last login name of its account. -/
theorem Named.of_user (hn : Named ls db) (h : OneEach db) (hu : u ∈ db.users) :
    ∃ i ∈ db.identities, i.userId = u.id ∧ lastLogin ls i.providerUserId = some u.username := by
  obtain ⟨i, hi, hid⟩ := h.exists_identity hu
  refine ⟨i, hi, hid, ?_⟩
  rw [← hn.last, h.identity_eq hi, hn.usernames i hi u hu hid.symm]
  rfl

/-- The user of an account that logged in. -/
theorem Named.exists_user (hn : Named ls db) (h : OneEach db) {a n : String} (hl : lastLogin ls a = some n) :
    ∃ i u, db.identity a = some i ∧ db.user i.userId = some u ∧ u.username = n := by
  have hlast := hn.last a
  rw [hl, Option.map_eq_some_iff] at hlast
  obtain ⟨i, hi, hname⟩ := hlast
  obtain ⟨hmem, -⟩ := AuthDb.identity_account hi
  obtain ⟨u, hu, hid⟩ := h.exists_user hmem
  exact ⟨i, u, hi, hid ▸ h.user_eq hu, (hn.usernames i hmem u hu hid).trans hname⟩

/-- A returning account whose login name nobody else presented last finds it free. -/
theorem Named.free (hn : Named ls db) (h : OneEach db) {i : AuthIdentity} (hi : db.identity l.account = some i)
    (hu : db.user i.userId = some u) (hrel : Released ls l) : db.usernameTaken u.id l.name = false := by
  refine eq_false_of_ne_true fun ht => ?_
  obtain ⟨u', hu', hne, hname⟩ := AuthDb.usernameTaken_iff.mp ht
  obtain ⟨i', hi', hid', hl'⟩ := hn.of_user h hu'
  refine hrel i'.providerUserId u'.username (fun hacc => hne ?_) hl' hname
  obtain ⟨hmem, hacc'⟩ := AuthDb.identity_account hi
  have hsame : i' = i := h.eq_of_account hi' hmem (hacc.trans hacc'.symm)
  rw [← hid', hsame, (AuthDb.user_id hu).2]

/-- A new account's login name that nobody presented last is free. -/
theorem Named.unused (hn : Named ls db) (h : OneEach db) (hi : db.identity l.account = none) (hrel : Released ls l) :
    db.userNamed l.name = none := by
  rw [AuthDb.userNamed_eq_none]
  intro u' hu' hname
  obtain ⟨i', hi', -, hl'⟩ := hn.of_user h hu'
  refine hrel i'.providerUserId u'.username (fun hacc => ?_) hl' hname
  rw [← hacc, h.identity_eq hi'] at hi
  cases hi

/-- The names after one more login. -/
theorem distinct_append (hn : Named ls db) (hrel : Released ls l) : ∀ a a' n n', lastLogin (ls ++ [l]) a = some n →
    lastLogin (ls ++ [l]) a' = some n' → citext n = citext n' → a = a' := by
  intro a a' n n' ha ha' he
  rw [lastLogin_append_singleton] at ha ha'
  split at ha
  · rename_i hla
    cases ha
    split at ha'
    · rename_i hla'
      exact hla.symm.trans hla'
    · rename_i hla'
      exact absurd he.symm (hrel a' n' (Ne.symm hla') ha')
  · rename_i hla
    split at ha'
    · cases ha'
      exact absurd he (hrel a n (Ne.symm hla) ha)
    · exact hn.distinct a a' n n' ha ha' he

theorem AuthDb.identity_renamed (db : AuthDb) (settings : Settings) (l : GithubLogin) (user : User) (a : String) :
    ((db.renamed settings l user).identity a).map AuthIdentity.providerLogin =
      if l.account = a then (db.identity a).map fun _ => l.name else (db.identity a).map AuthIdentity.providerLogin := by
  have hkey : ∀ i : AuthIdentity, (if i.providerUserId == l.account then
      ({ i with
        providerLogin := l.name
        accessTokenEnc := settings.encryptToken l.accessToken
        tokenScopes := l.scopes } : AuthIdentity) else i).providerUserId = i.providerUserId := by
    intro i
    split <;> rfl
  simp only [AuthDb.identity, AuthDb.renamed, List.find?_map, Function.comp_def, hkey, Option.map_map]
  split
  · rename_i ha
    cases hi : db.identities.find? (·.providerUserId == a) with
    | none => rfl
    | some i =>
      have hacc : i.providerUserId = l.account := by rw [ha]; simpa using List.find?_some hi
      simp [hacc]
  · rename_i ha
    cases hi : db.identities.find? (·.providerUserId == a) with
    | none => rfl
    | some i =>
      have hacc : i.providerUserId = a := by simpa using List.find?_some hi
      have hne : ¬ i.providerUserId = l.account := fun he => ha (he.symm.trans hacc)
      simp [hne]

/-- A returning account's username becomes its login name. -/
theorem Named.renamed (hn : Named ls db) (h : OneEach db) {i : AuthIdentity} (hi : db.identity l.account = some i)
    (hu : db.user i.userId = some u) (hrel : Released ls l) : Named (ls ++ [l]) (db.renamed settings l u) where
  usernames := by
    intro i' hi' u' hu' hid
    simp only [AuthDb.renamed, List.mem_map] at hi' hu'
    obtain ⟨i₀, hi₀, rfl⟩ := hi'
    obtain ⟨u₀, hu₀, rfl⟩ := hu'
    obtain ⟨hmem, hacc⟩ := AuthDb.identity_account hi
    obtain ⟨humem, huid⟩ := AuthDb.user_id hu
    have hids : u₀.id = i₀.userId := by
      revert hid
      split <;> split <;> exact id
    by_cases ha : i₀.providerUserId = l.account
    · -- the account that logs in, and so its user
      have hsame : i₀ = i := h.eq_of_account hi₀ hmem (ha.trans hacc.symm)
      have huser : u₀.id = u.id := hids.trans (hsame ▸ huid.symm)
      simp [ha, huser]
    · have huser : ¬ u₀.id = u.id := by
        intro he
        have hsame : i₀ = i := h.eq_of_owner hi₀ hmem (hids.symm.trans (he.trans huid))
        exact ha (hsame ▸ hacc)
      simp [ha, huser, hn.usernames i₀ hi₀ u₀ hu₀ hids]
  last a := by
    rw [AuthDb.identity_renamed, lastLogin_append_singleton, ← hn.last a]
    split
    · rename_i ha
      rw [← ha, hi]
      rfl
    · rfl
  distinct := distinct_append hn hrel

/-- A new account's user has its login name. -/
theorem Named.registered (hn : Named ls db) (h : OneEach db) (hi : db.identity l.account = none)
    (hrel : Released ls l) : Named (ls ++ [l]) (db.registered settings l) where
  usernames := by
    intro i' hi' u' hu' hid
    simp only [AuthDb.registered, AuthDb.added, List.mem_append, List.mem_singleton] at hi' hu'
    rcases hi' with hi' | rfl
    · rcases hu' with hu' | rfl
      · exact hn.usernames i' hi' u' hu' hid
      · obtain ⟨u₀, hu₀, hu₀id⟩ := h.exists_user hi'
        have hfresh : u₀.id = db.freshUserId := hu₀id.trans hid.symm
        exact absurd (hfresh ▸ List.mem_map_of_mem hu₀) db.freshUserId_not_mem
    · rcases hu' with hu' | rfl
      · have hfresh : u'.id = db.freshUserId := hid
        exact absurd (hfresh ▸ List.mem_map_of_mem hu') db.freshUserId_not_mem
      · simp [AuthDb.newUser, AuthDb.newUsername, AuthDb.newIdentity, hn.unused h hi hrel]
  last a := by
    rw [lastLogin_append_singleton, ← hn.last a]
    simp only [AuthDb.identity, AuthDb.registered, AuthDb.added, List.find?_append]
    split
    · rename_i ha
      have hnone : db.identities.find? (·.providerUserId == a) = none := ha ▸ hi
      simp [hnone, AuthDb.newIdentity, ha]
    · rename_i ha
      simp [AuthDb.newIdentity, ha]
  distinct := distinct_append hn hrel

/-- A login under a released name stores it. -/
theorem Named.after (hn : Named ls db) (h : OneEach db) (settings : Settings) (hrel : Released ls l) :
    (∃ user, (l.run settings db).res = .ok user) ∧ Named (ls ++ [l]) (l.after settings db) := by
  have heffect := l.effect settings db
  generalize (l.run settings db).res = res at heffect ⊢
  generalize l.after settings db = db' at heffect ⊢
  cases heffect with
  | orphaned hi hu =>
    obtain ⟨u, humem, huid⟩ := h.exists_user (AuthDb.identity_account hi).1
    rw [← huid, h.user_eq humem] at hu
    cases hu
  | collided hi hu ht =>
    rw [hn.free h hi hu hrel] at ht
    cases ht
  | renamed hi hu _ => exact ⟨⟨_, rfl⟩, hn.renamed h hi hu hrel⟩
  | refused hi ht =>
    obtain ⟨u', hu', -, hname⟩ := AuthDb.usernameTaken_iff.mp ht
    have hunused := hn.unused h hi hrel
    rw [AuthDb.newUsername, hunused] at hname
    exact absurd hname (AuthDb.userNamed_eq_none.mp hunused u' hu')
  | registered hi _ => exact ⟨⟨_, rfl⟩, hn.registered h hi hrel⟩

/-- In the names as they are, whoever logged in can do so again. -/
theorem Named.again (hn : Named ls db) (h : OneEach db) (settings : Settings)
    (hl : lastLogin ls l.account = some l.name) : ∃ user, (l.run settings db).res = .ok user := by
  refine (hn.after h settings fun a n ha han he => ?_).1
  exact ha (hn.distinct a l.account n l.name han hl he)

/-- A name that is still another account's: the login collides, or the next one of the same account does. -/
theorem Named.taken (hn : Named ls db) (settings : Settings) (h : OneEach db) {a n : String} (ha : a ≠ l.account)
    (hl : lastLogin ls a = some n) (he : citext n = citext l.name) :
    (l.run settings db).res = .error usernameViolation ∨
      (l.run settings (l.after settings db)).res = .error usernameViolation := by
  obtain ⟨i, u, hi, hu, hname⟩ := hn.exists_user h hl
  obtain ⟨humem, huid⟩ := AuthDb.user_id hu
  cases hacc : db.identity l.account with
  | some i' =>
    left
    obtain ⟨u', humem', huid'⟩ := h.exists_user (AuthDb.identity_account hacc).1
    have hne : u.id ≠ u'.id := by
      rw [huid, huid']
      intro hid
      have hsame : i = i' := h.eq_of_owner (AuthDb.identity_account hi).1 (AuthDb.identity_account hacc).1 hid
      exact ha ((AuthDb.identity_account hi).2.symm.trans (hsame ▸ (AuthDb.identity_account hacc).2))
    have ht : db.usernameTaken u'.id l.name = true :=
      AuthDb.usernameTaken_iff.mpr ⟨u, humem, hne, hname ▸ he⟩
    rw [GithubLogin.run_collided hacc (huid' ▸ h.user_eq humem') ht]
  | none =>
    cases ht : db.usernameTaken db.freshUserId (db.newUsername l) with
    | true =>
      left
      rw [GithubLogin.run_refused hacc ht]
    | false =>
      -- the account gets the suffixed name, and with it the same collision at its next login
      right
      have hafter : l.after settings db = db.registered settings l := by
        rw [GithubLogin.after, GithubLogin.run_registered hacc ht]
      have hone := h.registered settings hacc
      have hnew : db.newIdentity settings l ∈ (db.registered settings l).identities :=
        List.mem_append_right _ List.mem_cons_self
      have hnewUser : { db.newUser l with betaAllowed := db.invited l.name } ∈ (db.registered settings l).users :=
        List.mem_append_right _ List.mem_cons_self
      have hne : u.id ≠ db.freshUserId := fun hid => db.freshUserId_not_mem (hid ▸ List.mem_map_of_mem humem)
      have htaken : (db.registered settings l).usernameTaken db.freshUserId l.name = true :=
        AuthDb.usernameTaken_iff.mpr ⟨u, List.mem_append_left _ humem, hne, hname ▸ he⟩
      rw [hafter, GithubLogin.run_collided (hone.identity_eq hnew) (hone.user_eq hnewUser) htaken]

end Names

/-! ## The result -/

theorem named_afterLogins {settings : Settings} {betaInvites : List String} {ls : List GithubLogin}
    (h : Steps Released ls) : Named ls (afterLogins settings betaInvites ls) := by
  induction ls using List.reverseRecOn with
  | nil =>
    exact ⟨fun i hi => absurd hi List.not_mem_nil, fun a => rfl, fun a a' n n' ha => nomatch ha⟩
  | append_singleton ls l ih =>
    obtain ⟨hls, hrel⟩ := steps_append_singleton.mp h
    rw [afterLogins_append_singleton]
    exact ((ih hls).after (oneEach_afterLogins settings betaInvites ls) settings hrel).2

/-- **Usernames collide exactly when a name comes back too early**: in a run of logins from no accounts, no login
stores a username that another user has, each account keeps one user, and whoever logged in can do so again, if and
only if nobody logs in under a name that another account presented last. -/
theorem logins_fit_iff (settings : Settings) (betaInvites : List String) (ls : List GithubLogin) :
    Steps (LoginsFit settings betaInvites) ls ↔ Steps Released ls := by
  refine steps_iff fun pre l _ hrel => ?_
  have hnamed : Named pre (afterLogins settings betaInvites pre) := named_afterLogins hrel
  have hone := oneEach_afterLogins settings betaInvites pre
  constructor
  · rintro ⟨hstores, -, hagain⟩ a n ha hl he
    rcases hnamed.taken settings hone ha hl he with hrun | hrun
    · exact hstores hrun
    · obtain ⟨user, hok⟩ := hagain l (by rw [lastLogin_append_singleton, if_pos rfl])
      rw [afterLogins_append_singleton, hrun] at hok
      cases hok
  · intro hreleased
    obtain ⟨⟨user, hok⟩, hnamed'⟩ := hnamed.after hone settings hreleased
    rw [← afterLogins_append_singleton] at hnamed'
    have hone' := oneEach_afterLogins settings betaInvites (pre ++ [l])
    refine ⟨fun herr => ?_, hone', fun l' hl' => hnamed'.again hone' settings hl'⟩
    rw [hok] at herr
    cases herr

/-! ### Two accounts and one name -/

def Settings.small : Settings := ⟨true, 0, id, id⟩

def GithubLogin.small (account name : String) : GithubLogin := ⟨⟨account, name, none, none⟩, "token", none⟩

/-- One account logs in as bob and another one does. -/
def twoBobs : List GithubLogin := [.small "1" "bob", .small "2" "bob"]

/-- **The second bob cannot come back**: it registers under a suffixed username, and its next login is refused. -/
theorem logins_collide : ((GithubLogin.small "2" "bob").run .small (afterLogins .small [] [.small "1" "bob"])).res =
      .ok (2, false) ∧
    ((GithubLogin.small "2" "bob").run .small (afterLogins .small [] twoBobs)).res = .error usernameViolation ∧
    lastLogin twoBobs "2" = some "bob" ∧ ¬ Steps (LoginsFit .small []) twoBobs := by
  have hrefused : ((GithubLogin.small "2" "bob").run .small (afterLogins .small [] twoBobs)).res =
      .error usernameViolation := by decide +kernel
  have hlast : lastLogin twoBobs "2" = some "bob" := by decide +kernel
  refine ⟨by decide +kernel, hrefused, hlast, fun h => ?_⟩
  obtain ⟨user, hok⟩ := (h [.small "1" "bob"] (.small "2" "bob") List.prefix_rfl).again (.small "2" "bob") hlast
  rw [show [GithubLogin.small "1" "bob"] ++ [.small "2" "bob"] = twoBobs from rfl, hrefused] at hok
  cases hok

end CodeReader.Auth
