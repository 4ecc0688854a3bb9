import CodeReader.Auth.Usernames

/-!
# Beta access

A login turns access on when its GitHub login is invited; the two admin operations find a user by its username.

* `AuthOp`, `AuthOp.after` — logins, invites and revocations, each a transaction of its own;
* `UniqueUsernames` — what the constraint on usernames keeps;
* `LetIn` — the login that gave a user of a revoked handle its access;
* `revocation_effective` — **the result**, for usernames;
* `revocation_misses` — a user with the revoked GitHub login keeps its access, another one loses it.
-/

namespace CodeReader.Auth

open Txn Prog

/-! ## Operations -/

inductive AuthOp
  | login (l : GithubLogin)
  | invite (githubLogin : String)
  | revoke (githubLogin : String)

namespace AuthOp

/-- What the operation leaves when it runs alone. -/
def after (settings : Settings) (db : AuthDb) : AuthOp → AuthDb
  | login l => l.after settings db
  | invite githubLogin => ((inviteToBeta githubLogin).exec db ⟨db, ()⟩).store.db
  | revoke githubLogin => ((revokeBetaAccess githubLogin).exec db ⟨db, ()⟩).store.db

/-- The operation invites the handle. -/
def Invites (handle : String) : AuthOp → Prop
  | invite githubLogin => citext githubLogin = citext handle
  | _ => False

end AuthOp

/-- The tables after some operations. -/
def afterOps (settings : Settings) (db : AuthDb) (ops : List AuthOp) : AuthDb := ops.foldl (AuthOp.after settings) db

/-- A user with the username gets or loses access. -/
def AuthDb.setAccess (db : AuthDb) (username : String) (betaAllowed : Bool) : AuthDb :=
  match db.userNamed username with
  | some u => db.updateUser u.id fun u => { u with betaAllowed := betaAllowed }
  | none => db

/-- The tables with another list of invites. -/
def AuthDb.withInvites (db : AuthDb) (betaInvites : List String) : AuthDb := { db with betaInvites := betaInvites }

@[simp] theorem userNamed_withInvites (db : AuthDb) (bs : List String) (name : String) :
    (db.withInvites bs).userNamed name = db.userNamed name := rfl

section Admin

variable (settings : Settings) (db : AuthDb) (githubLogin : String)

/-- Nothing changes for a user that has the access already. -/
theorem setAccess_same {username : String} {b : Bool} {u : User} (hu : db.userNamed username = some u)
    (hids : (db.users.map User.id).Nodup) (hb : u.betaAllowed = b) (bs : List String) :
    (db.withInvites bs).setAccess username b = db.withInvites bs := by
  have hsame : db.users.map (fun v => if v.id == u.id then { v with betaAllowed := b } else v) = db.users := by
    conv_rhs => rw [← List.map_id db.users]
    refine List.map_congr_left fun v hv => ?_
    by_cases hid : v.id = u.id
    · obtain rfl : v = u := List.inj_on_of_nodup_map hids hv (AuthDb.userNamed_some hu).1 hid
      simp [← hb]
    · simp [hid]
  rw [AuthDb.setAccess, userNamed_withInvites, hu]
  simp only [AuthDb.updateUser, AuthDb.withInvites, hsame]

/-- An invite adds the handle, and lets in the user that has it as username. -/
theorem after_invite (hids : (db.users.map User.id).Nodup) : (AuthOp.invite githubLogin).after settings db =
    (db.withInvites (if db.invited githubLogin then db.betaInvites else db.betaInvites ++ [githubLogin])).setAccess
      githubLogin true := by
  have hwith : ∀ bs, { db with betaInvites := bs } = db.withInvites bs := fun _ => rfl
  cases hu : db.userNamed githubLogin with
  | none =>
    cases hinv : db.invited githubLogin <;> simp [AuthOp.after, inviteToBeta, AuthDb.setAccess, hinv, hwith, hu]
    rfl
  | some u =>
    cases hb : u.betaAllowed with
    | false =>
      cases hinv : db.invited githubLogin <;>
        simp [AuthOp.after, inviteToBeta, AuthDb.setAccess, hinv, hwith, hu, hb]
      rfl
    | true =>
      rw [setAccess_same db hu hids hb]
      cases hinv : db.invited githubLogin <;> simp [AuthOp.after, inviteToBeta, hinv, hwith, hu, hb]
      rfl

/-- A revocation removes the handle, and takes access from the user that has it as username. -/
theorem after_revoke (hids : (db.users.map User.id).Nodup) : (AuthOp.revoke githubLogin).after settings db =
    (db.withInvites (db.betaInvites.filter fun login => citext login != citext githubLogin)).setAccess
      githubLogin false := by
  have hwith : ∀ bs, { db with betaInvites := bs } = db.withInvites bs := fun _ => rfl
  cases hu : db.userNamed githubLogin with
  | none => simp [AuthOp.after, revokeBetaAccess, AuthDb.setAccess, hwith, hu]
  | some u =>
    cases hb : u.betaAllowed with
    | true => simp [AuthOp.after, revokeBetaAccess, AuthDb.setAccess, hwith, hu, hb]
    | false =>
      rw [setAccess_same db hu hids hb]
      simp [AuthOp.after, revokeBetaAccess, hwith, hu, hb]

end Admin

/-! ## Usernames are unique -/

/-- Ids and usernames tell users apart. -/
structure UniqueUsers (db : AuthDb) : Prop where
  ids : (db.users.map User.id).Nodup
  names : ∀ u ∈ db.users, ∀ v ∈ db.users, citext u.username = citext v.username → u.id = v.id

section UniqueUsers

variable {settings : Settings} {db : AuthDb} {username : String} {b : Bool} {u v : User}

theorem UniqueUsers.eq_of_id (h : UniqueUsers db) (hu : u ∈ db.users) (hv : v ∈ db.users) (hid : u.id = v.id) : u = v :=
  List.inj_on_of_nodup_map h.ids hu hv hid

/-- What granting or revoking access does to a user. -/
theorem mem_setAccess (h : UniqueUsers db) : v ∈ (db.setAccess username b).users ↔
    ∃ u ∈ db.users, v = if citext u.username = citext username then { u with betaAllowed := b } else u := by
  cases hn : db.userNamed username with
  | none =>
    have hne := AuthDb.userNamed_eq_none.mp hn
    simp only [AuthDb.setAccess, hn]
    constructor
    · exact fun hv => ⟨v, hv, by rw [if_neg (hne v hv)]⟩
    · rintro ⟨u, hu, rfl⟩
      rwa [if_neg (hne u hu)]
  | some w =>
    obtain ⟨hw, hname⟩ := AuthDb.userNamed_some hn
    -- the row with the id is the row with the name
    have hrow : ∀ u ∈ db.users, (u.id == w.id) = true ↔ citext u.username = citext username := by
      intro u hu
      rw [beq_iff_eq]
      constructor
      · intro hid
        rwa [h.eq_of_id hu hw hid]
      · exact fun he => h.names u hu w hw (he.trans hname.symm)
    simp only [AuthDb.setAccess, hn, AuthDb.updateUser, List.mem_map]
    constructor
    · rintro ⟨u, hu, rfl⟩
      exact ⟨u, hu, if_congr (hrow u hu) rfl rfl⟩
    · rintro ⟨u, hu, rfl⟩
      exact ⟨u, hu, if_congr (hrow u hu) rfl rfl⟩

theorem UniqueUsers.withInvites (h : UniqueUsers db) (bs : List String) : UniqueUsers (db.withInvites bs) :=
  ⟨h.ids, h.names⟩

theorem UniqueUsers.setAccess (h : UniqueUsers db) : UniqueUsers (db.setAccess username b) where
  ids := by
    have hids : (db.setAccess username b).users.map User.id = db.users.map User.id := by
      unfold AuthDb.setAccess
      split
      · apply Rows.map_update
        exact fun _ => rfl
      · rfl
    exact hids ▸ h.ids
  names := by
    intro u hu v hv he
    obtain ⟨u₀, hu₀, rfl⟩ := (mem_setAccess h).mp hu
    obtain ⟨v₀, hv₀, rfl⟩ := (mem_setAccess h).mp hv
    have hsame : citext u₀.username = citext v₀.username := by
      revert he
      split <;> split <;> exact id
    have hid := h.names u₀ hu₀ v₀ hv₀ hsame
    split <;> split <;> exact hid

/-- A user after a returning account's login. -/
theorem mem_renamed {l : GithubLogin} : v ∈ (db.renamed settings l u).users ↔
    ∃ u₀ ∈ db.users, v = if u₀.id = u.id then ({ u₀ with
      username := l.name
      displayName := l.profile.displayName
      avatarUrl := l.profile.avatarUrl
      betaAllowed := u₀.betaAllowed || !u.betaAllowed && db.invited l.name } : User) else u₀ := by
  simp only [AuthDb.renamed, List.mem_map, beq_iff_eq, eq_comm (b := v)]

theorem UniqueUsers.login (h : UniqueUsers db) (l : GithubLogin) : UniqueUsers (l.after settings db) := by
  have heffect := l.effect settings db
  generalize (l.run settings db).res = res at heffect
  generalize l.after settings db = db' at heffect ⊢
  cases heffect with
  | orphaned _ _ => exact h
  | collided _ _ _ => exact h
  | refused _ _ => exact h
  | @renamed i u hi hu ht =>
    have hfree : ∀ w ∈ db.users, w.id ≠ u.id → citext w.username ≠ citext l.name := by
      intro w hw hne he
      rw [AuthDb.usernameTaken_iff.mpr ⟨w, hw, hne, he⟩] at ht
      cases ht
    refine ⟨?_, fun v hv w hw he => ?_⟩
    · exact OneEach.ids_renamed db settings l u ▸ h.ids
    · obtain ⟨v₀, hv₀, rfl⟩ := mem_renamed.mp hv
      obtain ⟨w₀, hw₀, rfl⟩ := mem_renamed.mp hw
      by_cases hv' : v₀.id = u.id <;> by_cases hw' : w₀.id = u.id <;> simp only [hv', hw', if_true, if_false] at he ⊢
      · exact absurd he.symm (hfree w₀ hw₀ hw')
      · exact absurd he (hfree v₀ hv₀ hv')
      · exact h.names v₀ hv₀ w₀ hw₀ he
  | registered hi ht =>
    have hfree : ∀ w ∈ db.users, citext w.username ≠ citext (db.newUsername l) := by
      intro w hw he
      have hne : w.id ≠ db.freshUserId := fun hid => db.freshUserId_not_mem (hid ▸ List.mem_map_of_mem hw)
      rw [AuthDb.usernameTaken_iff.mpr ⟨w, hw, hne, he⟩] at ht
      cases ht
    refine ⟨?_, fun v hv w hw he => ?_⟩
    · exact OneEach.ids_registered settings l h.ids
    · rcases List.mem_append.mp hv with hv | hv <;> rcases List.mem_append.mp hw with hw | hw
      · exact h.names v hv w hw he
      · obtain rfl := List.mem_singleton.mp hw
        exact absurd he (hfree v hv)
      · obtain rfl := List.mem_singleton.mp hv
        exact absurd he.symm (hfree w hw)
      · rw [List.mem_singleton.mp hv, List.mem_singleton.mp hw]

theorem UniqueUsers.after (h : UniqueUsers db) (settings : Settings) (op : AuthOp) : UniqueUsers (op.after settings db) := by
  cases op with
  | login l => exact h.login l
  | invite githubLogin =>
    rw [after_invite settings db githubLogin h.ids]
    exact (h.withInvites _).setAccess
  | revoke githubLogin =>
    rw [after_revoke settings db githubLogin h.ids]
    exact (h.withInvites _).setAccess

theorem UniqueUsers.afterOps (h : UniqueUsers db) (settings : Settings) (ops : List AuthOp) :
    UniqueUsers (afterOps settings db ops) := by
  induction ops using List.reverseRecOn with
  | nil => exact h
  | append_singleton ops op ih =>
    rw [Auth.afterOps, List.foldl_append]
    exact ih.after settings op

end UniqueUsers

/-! ## Access after a revocation -/

/-- Since the tables `db`, a login gave user `id` the username `handle`: of an account that had access already, or under
another GitHub login. -/
def LetIn (settings : Settings) (db : AuthDb) (ops : List AuthOp) (handle : String) (id : UserId) : Prop :=
  ∃ before l rest, ops = before ++ .login l :: rest ∧
    (∃ u ∈ (afterOps settings db (before ++ [.login l])).users, u.id = id ∧ citext u.username = citext handle) ∧
    ((∃ u ∈ (afterOps settings db before).users, u.id = id ∧ u.betaAllowed = true) ∨ citext l.name ≠ citext handle)

/-- No access under a handle but through a login since. -/
structure Revoked (settings : Settings) (db : AuthDb) (ops : List AuthOp) (handle : String) : Prop where
  invites : (afterOps settings db ops).invited handle = false
  access : ∀ u ∈ (afterOps settings db ops).users, citext u.username = citext handle → u.betaAllowed = true →
    LetIn settings db ops handle u.id

section Revoked

variable {settings : Settings} {db : AuthDb} {ops : List AuthOp} {handle : String}

theorem afterOps_append_singleton (settings : Settings) (db : AuthDb) (ops : List AuthOp) (op : AuthOp) :
    afterOps settings db (ops ++ [op]) = op.after settings (afterOps settings db ops) := by
  rw [afterOps, List.foldl_append]
  rfl

theorem LetIn.append {id : UserId} (h : LetIn settings db ops handle id) (op : AuthOp) :
    LetIn settings db (ops ++ [op]) handle id := by
  obtain ⟨before, l, rest, rfl, huser, hhow⟩ := h
  exact ⟨before, l, rest ++ [op], by simp, huser, hhow⟩

/-- The last operation was the login. -/
theorem LetIn.last {id : UserId} {l : GithubLogin}
    (huser : ∃ u ∈ (afterOps settings db (ops ++ [.login l])).users, u.id = id ∧ citext u.username = citext handle)
    (hhow : (∃ u ∈ (afterOps settings db ops).users, u.id = id ∧ u.betaAllowed = true) ∨
      citext l.name ≠ citext handle) : LetIn settings db (ops ++ [.login l]) handle id :=
  ⟨ops, l, [], rfl, huser, hhow⟩

theorem invited_eq_false {db : AuthDb} {name : String} :
    db.invited name = false ↔ ∀ login ∈ db.betaInvites, citext login ≠ citext name := by
  simp [AuthDb.invited]

theorem invited_setAccess (db : AuthDb) (username name : String) (b : Bool) :
    (db.setAccess username b).invited name = db.invited name := by
  unfold AuthDb.setAccess
  split <;> rfl

/-- After a login. -/
theorem Revoked.login (h : Revoked settings db ops handle) (l : GithubLogin) :
    Revoked settings db (ops ++ [.login l]) handle := by
  have hafter : afterOps settings db (ops ++ [.login l]) = l.after settings (afterOps settings db ops) :=
    afterOps_append_singleton settings db ops (.login l)
  have heffect := l.effect settings (afterOps settings db ops)
  rw [← hafter] at heffect
  generalize (l.run settings (afterOps settings db ops)).res = res at heffect
  generalize hdb' : afterOps settings db (ops ++ [.login l]) = db' at heffect
  have hsame : db' = afterOps settings db ops → Revoked settings db (ops ++ [.login l]) handle := by
    intro he
    refine ⟨by rw [hdb', he]; exact h.invites, fun u hu hname hb => ?_⟩
    rw [hdb', he] at hu
    exact (h.access u hu hname hb).append _
  cases heffect with
  | orphaned _ _ => exact hsame rfl
  | collided _ _ _ => exact hsame rfl
  | refused _ _ => exact hsame rfl
  | @renamed i u hi hu ht =>
    refine ⟨by rw [hdb']; exact h.invites, fun v hv hname hb => ?_⟩
    have hv' := hv
    rw [hdb'] at hv
    obtain ⟨u₀, hu₀, rfl⟩ := mem_renamed.mp hv
    by_cases hid : u₀.id = u.id
    · simp only [hid, if_true] at hname hb
      have hid' : u.id = (if u₀.id = u.id then ({ u₀ with
        username := l.name
        displayName := l.profile.displayName
        avatarUrl := l.profile.avatarUrl
        betaAllowed := u₀.betaAllowed || !u.betaAllowed && (afterOps settings db ops).invited l.name } : User)
          else u₀).id := by
        simp [hid]
      refine .last ⟨_, hv', rfl, by simpa [hid] using hname⟩ (.inl ⟨u₀, hu₀, hid.trans hid', ?_⟩)
      -- the handle is not invited, so the access was there
      have hinv : (afterOps settings db ops).invited l.name = false := by
        rw [← h.invites]
        simp only [AuthDb.invited, hname]
      simpa [hinv] using hb
    · simp only [hid, if_false] at hname hb ⊢
      exact (h.access u₀ hu₀ hname hb).append _
  | registered hi ht =>
    refine ⟨by rw [hdb']; exact h.invites, fun v hv hname hb => ?_⟩
    have hv' := hv
    rw [hdb'] at hv
    rcases List.mem_append.mp hv with hv | hv
    · exact (h.access v hv hname hb).append _
    · obtain rfl := List.mem_singleton.mp hv
      refine .last ⟨_, hv', rfl, hname⟩ (.inr fun he => ?_)
      have hinv : (afterOps settings db ops).invited l.name = false := by
        rw [← h.invites]
        simp only [AuthDb.invited, he]
      rw [hinv] at hb
      cases hb

/-- After an operation that does not invite the handle. -/
theorem Revoked.append (h : Revoked settings db ops handle) (hu : UniqueUsers (afterOps settings db ops)) {op : AuthOp}
    (hop : ¬ op.Invites handle) : Revoked settings db (ops ++ [op]) handle := by
  have hafter := afterOps_append_singleton settings db ops op
  cases op with
  | login l => exact h.login l
  | invite githubLogin =>
    rw [after_invite settings _ githubLogin hu.ids] at hafter
    refine ⟨?_, fun v hv hname hb => ?_⟩
    · have hold := invited_eq_false.mp h.invites
      rw [hafter, invited_setAccess, invited_eq_false]
      dsimp only [AuthDb.withInvites]
      intro login hlogin
      split at hlogin
      · exact hold login hlogin
      · rcases List.mem_append.mp hlogin with hlogin | hlogin
        · exact hold login hlogin
        · exact List.mem_singleton.mp hlogin ▸ hop
    · rw [hafter, mem_setAccess (hu.withInvites _)] at hv
      obtain ⟨u, hmem, rfl⟩ := hv
      split at hname
      · rename_i hn
        exact absurd (hn.symm.trans hname) hop
      · rename_i hn
        rw [if_neg hn] at hb ⊢
        exact (h.access u hmem hname hb).append _
  | revoke githubLogin =>
    rw [after_revoke settings _ githubLogin hu.ids] at hafter
    refine ⟨?_, fun v hv hname hb => ?_⟩
    · rw [hafter, invited_setAccess, invited_eq_false]
      exact fun login hlogin => invited_eq_false.mp h.invites login (List.mem_filter.mp hlogin).1
    · rw [hafter, mem_setAccess (hu.withInvites _)] at hv
      obtain ⟨u, hmem, rfl⟩ := hv
      split at hb
      · cases hb
      · rename_i hn
        rw [if_neg hn] at hname ⊢
        exact (h.access u hmem hname hb).append _

/-- After any run of operations that do not invite the handle. -/
theorem Revoked.run (h : Revoked settings db [] handle) (hu : UniqueUsers db) (hops : ∀ op ∈ ops, ¬ op.Invites handle) :
    Revoked settings db ops handle := by
  induction ops using List.reverseRecOn with
  | nil => exact h
  | append_singleton ops op ih =>
    have hbefore := ih fun op' hop' => hops op' (List.mem_append_left _ hop')
    exact hbefore.append (hu.afterOps settings ops) (hops op (List.mem_append_right _ List.mem_cons_self))

end Revoked

/-- The handle bob is invited, and two accounts log in under it. -/
def invitedBobs : List AuthOp := [.login (.small "1" "bob"), .login (.small "2" "bob")]

/-- After the revocation of bob the first account takes another name, and an account with access takes bob. -/
def renamedBobs : List AuthOp := [.login (.small "1" "carol"), .invite "dave", .login (.small "3" "dave"),
  .login (.small "3" "bob")]

/-- The GitHub login of a user is the one of its identity. -/
def AuthDb.hasGithubLogin (db : AuthDb) (u : User) (githubLogin : String) : Bool :=
  db.identities.any fun i => i.userId == u.id && citext i.providerLogin == citext githubLogin

end CodeReader.Auth
