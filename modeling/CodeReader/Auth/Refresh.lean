import CodeReader.Auth.Spec
import CodeReader.Txn.Keyed

/-!
# Refresh-token families under concurrent requests

A rotation reads its token without a lock, and a logout revokes the tokens that its UPDATE sees.

* `AuthRequest`, `Refreshes.start` — refreshes and logouts, any number of them, run statement by statement;
* `FamilyOk` — hashes tell tokens apart, and a family has at most one token that can be exchanged;
* `unovertaken` — what a commit rests on has not changed since it was read;
* `FamilyCommit` — all that a commit does to the tokens, `wp_refresh` and `wp_logout`;
* `families_safe` — **the result**, in every run of such commits;
* `families_unsafe` — what happens otherwise.
-/

namespace CodeReader.Auth

open Txn Prog

/-! ## Requests -/

/-- A refresh with the token that it presents and what is about the new one, or a logout. -/
inductive AuthRequest
  | refresh (rawToken : Option String) (env : IssueEnv)
  | logout (rawToken : Option String) (now : Int)

namespace AuthRequest

def program (settings : Settings) : AuthRequest → Handler (Option RefreshToken)
  | refresh rawToken env => Auth.refresh settings rawToken env
  | logout rawToken now => Auth.logout settings rawToken now

/-- The hash of the token that is presented. -/
def tokenHash (settings : Settings) : AuthRequest → Option String
  | refresh rawToken _ => (presented rawToken).map settings.refreshTokenHash
  | logout rawToken _ => (presented rawToken).map settings.refreshTokenHash

def isLogout : AuthRequest → Bool
  | refresh _ _ => false
  | logout _ _ => true

end AuthRequest

variable {τ : Type}

/-- The requests at their start. -/
def Refreshes.start (settings : Settings) (req : τ → AuthRequest) (db : AuthDb) : Sys App τ (Option RefreshToken) :=
  .start db () fun i => (req i).program settings

/-! ## Families -/

/-- The family of the token that a request presents. -/
def familyOf (settings : Settings) (req : τ → AuthRequest) (i : τ) (db : AuthDb) : Option FamilyId :=
  ((req i).tokenHash settings).bind fun h => (db.refreshToken h).map RefreshToken.familyId

/-- The family that a refresh presents a token of. -/
def refresherOf (settings : Settings) (req : τ → AuthRequest) (i : τ) (db : AuthDb) : Option FamilyId :=
  if (req i).isLogout then none else familyOf settings req i db

/-- The tokens of a family. -/
def familyTokens (f : FamilyId) (db : AuthDb) : List RefreshToken := db.refreshTokens.filter (·.familyId == f)

def SameTokens (f : FamilyId) (db db' : AuthDb) : Prop := familyTokens f db' = familyTokens f db

/-- Nothing is new in the family but that tokens are revoked. -/
def OnlyRevoked (f : FamilyId) (db db' : AuthDb) : Prop :=
  ∀ t ∈ familyTokens f db', ∃ t₀ ∈ familyTokens f db, t₀.tokenHash = t.tokenHash ∧ (t.revokedAt = none → t = t₀)

/-- Hashes tell the tokens apart. -/
def Hashed (db : AuthDb) : Prop := (db.refreshTokens.map RefreshToken.tokenHash).Nodup

/-- Hashes tell the tokens apart, and no family has two that can still be exchanged. -/
structure FamilyOk (db : AuthDb) : Prop where
  hashed : Hashed db
  single : ∀ t ∈ db.refreshTokens, ∀ t' ∈ db.refreshTokens, t.familyId = t'.familyId → t.live = true →
    t'.live = true → t = t'

/-- The tokens of a family that a logout revokes, by their hashes. -/
def unrevoked (f : FamilyId) (db : AuthDb) : List String :=
  (db.refreshTokens.filter fun t => t.familyId == f && t.revokedAt.isNone).map (·.tokenHash)

/-- The family is there, and all its tokens are revoked. -/
def LoggedOut (f : FamilyId) (db : AuthDb) : Prop :=
  (∃ t ∈ db.refreshTokens, t.familyId = f) ∧ ∀ t ∈ db.refreshTokens, t.familyId = f → t.revokedAt ≠ none

/-- What the commit rests on has not changed: no request of the family has committed since a refresh read its token, and
no refresh of the family since a logout read the family's tokens. -/
def unovertaken (settings : Settings) (req : τ → AuthRequest) (i : τ) (l : Local App) (S : Shared App τ) : Prop :=
  ∀ f ∈ familyOf settings req i S.db,
    if (req i).isLogout then ∀ r ∈ l.reads.head?, NoneSince (refresherOf settings req) f r.since S
    else ∀ r ∈ l.reads.getLast?, NoneSince (familyOf settings req) f r.since S

instance (settings : Settings) (req : τ → AuthRequest) (i : τ) (l : Local App) (S : Shared App τ) :
    Decidable (unovertaken settings req i l S) :=
  inferInstanceAs (Decidable (∀ f ∈ familyOf settings req i S.db,
    if (req i).isLogout then ∀ r ∈ l.reads.head?, NoneSince (refresherOf settings req) f r.since S
    else ∀ r ∈ l.reads.getLast?, NoneSince (familyOf settings req) f r.since S))

section Tokens

variable {db : AuthDb} {t t' : RefreshToken} {h : String}

theorem refreshToken_some (ht : db.refreshToken h = some t) : t ∈ db.refreshTokens ∧ t.tokenHash = h :=
  ⟨List.mem_of_find?_eq_some ht, by simpa using List.find?_some ht⟩

theorem refreshToken_eq_none : db.refreshToken h = none ↔ ∀ t ∈ db.refreshTokens, t.tokenHash ≠ h := by
  simp [AuthDb.refreshToken]

theorem SameTokens.refl (f : FamilyId) (db : AuthDb) : SameTokens f db db := rfl

theorem OnlyRevoked.refl (f : FamilyId) (db : AuthDb) : OnlyRevoked f db db :=
  fun t ht => ⟨t, ht, rfl, fun _ => rfl⟩

theorem OnlyRevoked.trans {f : FamilyId} {db db' db'' : AuthDb} (h : OnlyRevoked f db db')
    (h' : OnlyRevoked f db' db'') : OnlyRevoked f db db'' := by
  intro t ht
  obtain ⟨t₁, ht₁, he₁, hrev₁⟩ := h' t ht
  obtain ⟨t₀, ht₀, he₀, hrev₀⟩ := h t₁ ht₁
  exact ⟨t₀, ht₀, he₀.trans he₁, fun hrev => (hrev₁ hrev).trans (hrev₀ (hrev₁ hrev ▸ hrev))⟩

theorem mem_familyTokens {f : FamilyId} : t ∈ familyTokens f db ↔ t ∈ db.refreshTokens ∧ t.familyId = f := by
  simp [familyTokens]

end Tokens

/-! ## What the commits do -/

/-- The tables after a rotation of the token `h` at `now`, with its successor. -/
def AuthDb.exchanged (db : AuthDb) (h : String) (now : Int) (successor : RefreshToken) : AuthDb :=
  let rotated := db.updateRefreshTokens (·.tokenHash == h) (.rotated now)
  { rotated with refreshTokens := rotated.refreshTokens ++ [successor] }

/-- The tables after the tokens in `seen` that are not revoked are revoked. -/
def AuthDb.revoked (db : AuthDb) (seen : List String) (now : Int) : AuthDb :=
  db.updateRefreshTokens (fun t => seen.contains t.tokenHash && t.revokedAt.isNone) (.revoked now)

/-- A refresh exchanges the token `row` that it has read, for a successor whose hash is new; if it was not overtaken,
the token is as it has read it. -/
structure Exchanges (settings : Settings) (req : τ → AuthRequest) (i : τ) (l : Local App) (S : Shared App τ)
    (row : RefreshToken) (env : IssueEnv) : Prop where
  refresh : (req i).isLogout = false
  presents : (req i).tokenHash settings = some row.tokenHash
  live : row.live = true
  family : familyOf settings req i S.db = some row.familyId
  held : AuthLock.refreshToken (settings.refreshTokenHash env.rawToken) ∈ l.held
  fresh : S.db.refreshToken (settings.refreshTokenHash env.rawToken) = none
  current : unovertaken settings req i l S → row ∈ S.db.refreshTokens

/-- A logout revokes the tokens of its family that it has seen; if it was not overtaken, these are all that are not
revoked. -/
structure Revokes (settings : Settings) (req : τ → AuthRequest) (i : τ) (l : Local App) (S : Shared App τ)
    (row : RefreshToken) (seen : List String) : Prop where
  logout : (req i).isLogout = true
  family : familyOf settings req i S.db = some row.familyId
  within : ∀ t ∈ S.db.refreshTokens, t.tokenHash ∈ seen → t.familyId = row.familyId
  current : unovertaken settings req i l S → ∀ t ∈ S.db.refreshTokens, t.familyId = row.familyId →
    t.revokedAt = none → t.tokenHash ∈ seen

/-- All that a commit can do. -/
inductive FamilyCommit (settings : Settings) (req : τ → AuthRequest) (i : τ) (l : Local App) (S : Shared App τ) :
    AuthDb → Prop
  | exchange (row : RefreshToken) (env : IssueEnv) : Exchanges settings req i l S row env →
      FamilyCommit settings req i l S (S.db.exchanged row.tokenHash env.now (env.row settings row.userId row.familyId))
  | revoke (row : RefreshToken) (seen : List String) (now : Int) : Revokes settings req i l S row seen →
      FamilyCommit settings req i l S (S.db.revoked seen now)
  | nothing : (req i).isLogout = true → (unovertaken settings req i l S → familyOf settings req i S.db = none) →
      FamilyCommit settings req i l S S.db

/-! ### The tables -/

section Tables

variable {settings : Settings} {req : τ → AuthRequest} {db : AuthDb} {h : String} {f : FamilyId}

theorem refreshToken_update (p : RefreshToken → Bool) (g : RefreshToken → RefreshToken)
    (hg : ∀ t, (g t).tokenHash = t.tokenHash) :
    (db.updateRefreshTokens p g).refreshToken h = (db.refreshToken h).map fun t => if p t then g t else t := by
  have hkey : ∀ t, (if p t = true then g t else t).tokenHash = t.tokenHash := by
    intro t
    split
    · exact hg t
    · rfl
  simp only [AuthDb.refreshToken, AuthDb.updateRefreshTokens, List.find?_map, Function.comp_def, hkey]

theorem hashes_update (p : RefreshToken → Bool) (g : RefreshToken → RefreshToken)
    (hg : ∀ t, (g t).tokenHash = t.tokenHash) :
    (db.updateRefreshTokens p g).refreshTokens.map RefreshToken.tokenHash =
      db.refreshTokens.map RefreshToken.tokenHash := Rows.map_update _ hg _

/-- An update outside a family leaves its tokens. -/
theorem familyTokens_update (p : RefreshToken → Bool) (g : RefreshToken → RefreshToken)
    (hg : ∀ t, (g t).familyId = t.familyId) (hp : ∀ t ∈ db.refreshTokens, p t = true → t.familyId ≠ f) :
    familyTokens f (db.updateRefreshTokens p g) = familyTokens f db := by
  have hkey : ∀ t, (if p t = true then g t else t).familyId = t.familyId := by
    intro t
    split
    · exact hg t
    · rfl
  simp only [familyTokens, AuthDb.updateRefreshTokens, List.filter_map, Function.comp_def, hkey]
  conv_rhs => rw [← List.map_id (db.refreshTokens.filter fun t => t.familyId == f)]
  refine List.map_congr_left fun t ht => ?_
  obtain ⟨hmem, hf⟩ := List.mem_filter.mp ht
  have hnot : ¬ p t = true := fun hpt => hp t hmem hpt (by simpa using hf)
  rw [if_neg hnot]
  rfl

/-- Tokens stay, each in its family. -/
def TokensStay (db db' : AuthDb) : Prop :=
  ∀ h f, (db.refreshToken h).map RefreshToken.familyId = some f → (db'.refreshToken h).map RefreshToken.familyId = some f

theorem TokensStay.familyOf {db db' : AuthDb} (hkeep : TokensStay db db') (i : τ) (f : FamilyId)
    (hf : familyOf settings req i db = some f) : familyOf settings req i db' = some f := by
  obtain ⟨h, hh, ht⟩ := Option.bind_eq_some_iff.mp hf
  rw [Auth.familyOf, hh]
  exact hkeep h f ht

theorem Hashed.eq_of_hash (hdb : Hashed db) {t t' : RefreshToken} (ht : t ∈ db.refreshTokens)
    (ht' : t' ∈ db.refreshTokens) (he : t.tokenHash = t'.tokenHash) : t = t' :=
  List.inj_on_of_nodup_map hdb ht ht' he

theorem Hashed.refreshToken_eq (hdb : Hashed db) {t : RefreshToken} (ht : t ∈ db.refreshTokens) :
    db.refreshToken t.tokenHash = some t := by
  have hsome : (db.refreshToken t.tokenHash).isSome := List.find?_isSome.mpr ⟨t, ht, by simp⟩
  obtain ⟨t', ht'⟩ := Option.isSome_iff_exists.mp hsome
  obtain ⟨hmem, he⟩ := refreshToken_some ht'
  rw [ht', hdb.eq_of_hash hmem ht he]

/-- A token that a request presents is of the request's family. -/
theorem family_of_presented {i : τ} {t : RefreshToken} (hdb : Hashed db) (ht : t ∈ db.refreshTokens)
    (hh : (req i).tokenHash settings = some t.tokenHash) : familyOf settings req i db = some t.familyId := by
  rw [familyOf, hh, Option.bind_some, hdb.refreshToken_eq ht]
  rfl

/-- The token of a family that a request presents. -/
theorem token_of_family {i : τ} (hh : (req i).tokenHash settings = some h) (hf : familyOf settings req i db = some f) :
    ∃ t ∈ db.refreshTokens, t.tokenHash = h ∧ t.familyId = f := by
  rw [familyOf, hh, Option.bind_some] at hf
  obtain ⟨t, ht, rfl⟩ := Option.map_eq_some_iff.mp hf
  obtain ⟨hmem, hth⟩ := refreshToken_some ht
  exact ⟨t, hmem, hth, rfl⟩

theorem mem_unrevoked {t : RefreshToken} (ht : t ∈ db.refreshTokens) (hf : t.familyId = f) (hr : t.revokedAt = none) :
    t.tokenHash ∈ unrevoked f db := by
  refine List.mem_map.mpr ⟨t, List.mem_filter.mpr ⟨ht, ?_⟩, rfl⟩
  rw [hf, hr, beq_self_eq_true]
  rfl

theorem family_of_unrevoked (hdb : Hashed db) : ∀ h ∈ unrevoked f db,
    (db.refreshToken h).map RefreshToken.familyId = some f := by
  intro h hh
  obtain ⟨t, ht, rfl⟩ := List.mem_map.mp hh
  obtain ⟨hmem, hf⟩ := List.mem_filter.mp ht
  rw [hdb.refreshToken_eq hmem, Option.map_some, eq_of_beq (Bool.and_eq_true_iff.mp hf).1]

theorem mem_exchanged {h : String} {now : Int} {successor t : RefreshToken} :
    t ∈ (db.exchanged h now successor).refreshTokens ↔ t = successor ∨
      ∃ t₀ ∈ db.refreshTokens, t = if t₀.tokenHash = h then t₀.rotated now else t₀ := by
  simp only [AuthDb.exchanged, AuthDb.updateRefreshTokens, List.mem_append, List.mem_map, List.mem_singleton,
    beq_iff_eq, eq_comm (b := t)]
  exact or_comm

theorem mem_revoked {seen : List String} {now : Int} {t : RefreshToken} :
    t ∈ (db.revoked seen now).refreshTokens ↔
      ∃ t₀ ∈ db.refreshTokens, t = if t₀.tokenHash ∈ seen ∧ t₀.revokedAt = none then t₀.revoked now else t₀ := by
  simp only [AuthDb.revoked, AuthDb.updateRefreshTokens, List.mem_map, Bool.and_eq_true, List.contains_iff_mem,
    Option.isNone_iff_eq_none, eq_comm (b := t)]

end Tables

/-! ## Rely and guarantee -/

/-- What the others do while a request knows `l` of its transaction. -/
structure FamilyRely (settings : Settings) (req : τ → AuthRequest) (l : Local App) (S S' : Shared App τ) : Prop where
  steps : KeyedSteps (familyOf settings req) SameTokens S S'
  refreshes : KeyedSteps (refresherOf settings req) OnlyRevoked S S'
  tokens : TokensStay S.db S'.db
  hashed : Hashed S.db → Hashed S'.db
  locked : ∀ h, AuthLock.refreshToken h ∈ l.held → S.db.refreshToken h = none → S'.db.refreshToken h = none

/-- What a statement of request `i` does. -/
abbrev Guarantees (settings : Settings) (req : τ → AuthRequest) (i : τ) :
    Act → Local App → Shared App τ → Shared App τ → Prop :=
  Commits (fun l S db' => Hashed S.db ∧ FamilyCommit settings req i l S db') i

section Rely

variable {settings : Settings} {req : τ → AuthRequest} {i : τ} {l l' : Local App} {S S' : Shared App τ} {db' : AuthDb}

/-- What a commit keeps: the tokens, the other families, the hashes that it has no lock of. -/
structure Keeps (settings : Settings) (req : τ → AuthRequest) (i : τ) (l : Local App) (S : Shared App τ)
    (db' : AuthDb) : Prop where
  tokens : TokensStay S.db db'
  parts : ∀ f, familyOf settings req i db' ≠ some f → SameTokens f S.db db'
  onlyRevoked : (req i).isLogout = true → ∀ f, OnlyRevoked f S.db db'
  hashed : Hashed db'
  locked : ∀ h, AuthLock.refreshToken h ∉ l.held → S.db.refreshToken h = none → db'.refreshToken h = none

theorem refreshToken_exchanged {db : AuthDb} {h h' : String} {now : Int} {successor : RefreshToken} :
    (db.exchanged h now successor).refreshToken h' =
      ((db.refreshToken h').map fun t => if t.tokenHash == h then t.rotated now else t).or
        (if successor.tokenHash = h' then some successor else none) := by
  rw [← refreshToken_update _ (.rotated now) fun _ => rfl]
  simp only [AuthDb.refreshToken, AuthDb.exchanged, List.find?_append, List.find?_singleton, beq_iff_eq]

theorem Exchanges.keeps {row : RefreshToken} {env : IssueEnv} (h : Exchanges settings req i l S row env)
    (hdb : Hashed S.db) : Keeps settings req i l S
      (S.db.exchanged row.tokenHash env.now (env.row settings row.userId row.familyId)) := by
  have htokens : TokensStay S.db
      (S.db.exchanged row.tokenHash env.now (env.row settings row.userId row.familyId)) := by
    intro h' f hf
    obtain ⟨t, ht, rfl⟩ := Option.map_eq_some_iff.mp hf
    rw [refreshToken_exchanged, ht]
    simp only [Option.map_some, Option.some_or]
    split <;> rfl
  refine ⟨htokens, fun f hf => ?_, fun hout => ?_, ?_, fun h' hh' hnone => ?_⟩
  · have hne : row.familyId ≠ f := fun he => hf (he ▸ htokens.familyOf i _ h.family)
    have hnew : familyTokens f (S.db.exchanged row.tokenHash env.now (env.row settings row.userId row.familyId)) =
        familyTokens f (S.db.updateRefreshTokens (·.tokenHash == row.tokenHash) (.rotated env.now)) := by
      simp [familyTokens, AuthDb.exchanged, IssueEnv.row, hne]
    rw [SameTokens, hnew, familyTokens_update]
    · exact fun _ => rfl
    · intro t ht htok hft
      have hpres : (req i).tokenHash settings = some t.tokenHash := by rw [h.presents, beq_iff_eq.mp htok]
      have hfam := family_of_presented hdb ht hpres
      rw [h.family] at hfam
      exact hne ((Option.some.inj hfam).trans hft)
  · rw [h.refresh] at hout
    cases hout
  · have hsame : (S.db.updateRefreshTokens (·.tokenHash == row.tokenHash) (.rotated env.now)).refreshTokens.map
        RefreshToken.tokenHash = S.db.refreshTokens.map RefreshToken.tokenHash := hashes_update _ _ fun _ => rfl
    apply Rows.nodup_insert (hsame ▸ hdb)
    intro t ht he
    have hold : t.tokenHash ∈ S.db.refreshTokens.map RefreshToken.tokenHash := hsame ▸ List.mem_map_of_mem ht
    obtain ⟨t₀, ht₀, hsame₀⟩ := List.mem_map.mp hold
    exact refreshToken_eq_none.mp h.fresh t₀ ht₀ (hsame₀.trans he)
  · have hne : ¬ (env.row settings row.userId row.familyId).tokenHash = h' := fun he => hh' (he ▸ h.held)
    rw [refreshToken_exchanged, hnone, if_neg hne]
    rfl

theorem Revokes.keeps {row : RefreshToken} {seen : List String} (h : Revokes settings req i l S row seen)
    (hdb : Hashed S.db) (now : Int) : Keeps settings req i l S (S.db.revoked seen now) := by
  have htokens : TokensStay S.db (S.db.revoked seen now) := by
    intro h' f hf
    obtain ⟨t, ht, rfl⟩ := Option.map_eq_some_iff.mp hf
    rw [AuthDb.revoked, refreshToken_update _ (.revoked now) fun _ => rfl, ht, Option.map_some, Option.map_some]
    split <;> rfl
  refine ⟨htokens, fun f hf => familyTokens_update _ _ (fun _ => rfl) fun t ht htok hft => ?_, fun _ f t ht => ?_,
    ?_, fun h' _ hnone => ?_⟩
  · rw [Bool.and_eq_true, List.contains_iff_mem] at htok
    exact hf (hft ▸ h.within t ht htok.1 ▸ htokens.familyOf i _ h.family)
  · obtain ⟨hmem, hf⟩ := mem_familyTokens.mp ht
    obtain ⟨t₀, ht₀, rfl⟩ := mem_revoked.mp hmem
    by_cases hrevoked : t₀.tokenHash ∈ seen ∧ t₀.revokedAt = none
    · rw [if_pos hrevoked] at hf ⊢
      exact ⟨t₀, mem_familyTokens.mpr ⟨ht₀, hf⟩, rfl, fun hrev => nomatch hrev⟩
    · rw [if_neg hrevoked] at hf ⊢
      exact ⟨t₀, mem_familyTokens.mpr ⟨ht₀, hf⟩, rfl, fun _ => rfl⟩
  · rw [Hashed, AuthDb.revoked, hashes_update _ (.revoked now) fun _ => rfl]
    exact hdb
  · rw [AuthDb.revoked, refreshToken_update _ (.revoked now) fun _ => rfl, hnone]
    rfl

theorem FamilyCommit.keeps (h : FamilyCommit settings req i l S db') (hdb : Hashed S.db) :
    Keeps settings req i l S db' := by
  cases h with
  | exchange row env h => exact h.keeps hdb
  | revoke row seen now h => exact h.keeps hdb now
  | nothing _ _ => exact ⟨fun _ _ => id, fun _ _ => rfl, fun _ f => .refl f _, hdb, fun _ _ => id⟩

theorem FamilyRely.aside {S₁ S₂ : Shared App τ} (hc : S₂.commits = S₁.commits) (hdb : S₂.db = S₁.db) :
    FamilyRely settings req l S₁ S₂ :=
  ⟨.aside (fun _ _ => rfl) hc hdb, .aside OnlyRevoked.refl hc hdb, hdb ▸ fun _ _ => id, hdb ▸ id,
    hdb ▸ fun _ _ => id⟩

theorem FamilyRely.refl (l : Local App) (S : Shared App τ) : FamilyRely settings req l S S := .aside rfl rfl

theorem FamilyRely.trans {S₁ S₂ S₃ : Shared App τ} (h : FamilyRely settings req l S₁ S₂)
    (h' : FamilyRely settings req l S₂ S₃) : FamilyRely settings req l S₁ S₃ where
  steps := h.steps.trans (fun _ _ _ _ hab hbc => hbc.trans hab) h'.steps
  refreshes := h.refreshes.trans (fun _ _ _ _ => OnlyRevoked.trans) h'.refreshes
  tokens r f := h'.tokens r f ∘ h.tokens r f
  hashed := h'.hashed ∘ h.hashed
  locked r hr := h'.locked r hr ∘ h.locked r hr

/-- Who holds fewer locks relies on less. -/
theorem FamilyRely.mono (h : FamilyRely settings req l S S') (hl : ∀ r ∈ l'.held, r ∈ l.held) :
    FamilyRely settings req l' S S' := { h with locked := fun r hr => h.locked r (hl _ hr) }

/-- What one request guarantees is what the others rely on. -/
theorem Guarantees.rely {a : Act} (h : Guarantees settings req i a l S S') (hheld : ∀ r ∈ l.held, r ∉ l'.held) :
    FamilyRely settings req l' S S' := by
  have hkeeps : ∀ db', Hashed S.db ∧ FamilyCommit settings req i l S db' → Keeps settings req i l S db' :=
    fun db' hP => hP.2.keeps hP.1
  refine ⟨h.keyedSteps SameTokens.refl fun db' hP => ⟨(hkeeps db' hP).tokens.familyOf, (hkeeps db' hP).parts⟩,
    h.keyedSteps OnlyRevoked.refl fun db' hP => ⟨fun j f => ?_, fun f hf => ?_⟩,
    h.keeps (fun _ _ _ => id) fun db' hP => (hkeeps db' hP).tokens,
    h.keeps (W := fun db db' => Hashed db → Hashed db') (fun _ => id) fun db' hP _ => (hkeeps db' hP).hashed,
    fun r hr => h.keeps (W := fun db db' : AuthDb => db.refreshToken r = none → db'.refreshToken r = none)
      (fun _ => id) fun db' hP => (hkeeps db' hP).locked r fun hl => hheld _ hl hr⟩
  · unfold refresherOf
    split
    · exact id
    · exact (hkeeps db' hP).tokens.familyOf j f
  · -- a logout adds no token, and a refresh leaves the other families
    unfold refresherOf at hf
    split at hf
    · exact (hkeeps db' hP).onlyRevoked ‹_› f
    · have hsame := (hkeeps db' hP).parts f hf
      exact fun t ht => ⟨t, hsame ▸ ht, rfl, fun _ => rfl⟩

end Rely

/-! ## The requests -/

section Programs

variable {settings : Settings} {req : τ → AuthRequest} {i : τ} {l : Local App} {S S₁ : Shared App τ}

/-- The transaction has come from `S₁` while the others moved. -/
structure Since (settings : Settings) (req : τ → AuthRequest) (S₁ : Shared App τ) (S : Shared App τ) : Prop where
  rely : FamilyRely settings req .idle S₁ S
  hashed : Hashed S.db

theorem Since.start (hS : Hashed S.db) : Since settings req S S := ⟨.refl _ _, hS⟩

theorem Since.steady : Steady (FamilyRely settings req) (fun _ => Since settings req S₁) where
  rely _ _ _ h hr := ⟨h.rely.trans (hr.mono fun _ => False.elim), hr.hashed h.hashed⟩
  lock _ _ _ h := h
  read _ _ _ h := h

/-- The writes of the transaction stay. -/
theorem steady_view (v : AuthDb → AuthDb) :
    Steady (FamilyRely settings req) (fun (l : Local App) (_ : Shared App τ) => l.view = v) :=
  ⟨fun _ _ _ h _ => h, fun _ _ _ h => h, fun _ _ _ h => h⟩

/-- The first read stays. -/
theorem steady_first (r : Read App) :
    Steady (FamilyRely settings req) (fun (l : Local App) (_ : Shared App τ) => l.reads.getLast? = some r) where
  rely _ _ _ h _ := h
  lock _ _ _ h := h
  read l _ _ h := by rw [List.getLast?_cons, h, Option.getD_some]

/-- While its lock is held, a hash that no token has stays free. -/
theorem steady_fresh (h : String) : Steady (FamilyRely settings req)
    (fun (l : Local App) (S : Shared App τ) => AuthLock.refreshToken h ∈ l.held ∧ S.db.refreshToken h = none) where
  rely _ _ _ hl hr := ⟨hl.1, hr.locked h hl.1 hl.2⟩
  lock _ _ _ hl := ⟨Set.mem_insert_of_mem _ hl.1, hl.2⟩
  read _ _ _ hl := hl

/-- From the rotated token to the commit. -/
theorem wp_successor {rawToken : Option String} {env : IssueEnv} {row : RefreshToken}
    (hreq : req i = .refresh rawToken env) (hpres : (req i).tokenHash settings = some row.tokenHash)
    (hlive : row.live = true) (hmem : row ∈ S₁.db.refreshTokens) (hhash : Hashed S₁.db) (hl : Since settings req S₁ S)
    (hread : l.reads.getLast? = some ⟨.refreshTokens, S₁.commits.length⟩)
    (hview : l.view = fun db => db.updateRefreshTokens (·.tokenHash == row.tokenHash) (.rotated env.now)) :
    wp (FamilyRely settings req) (Guarantees settings req i) i (fun _ _ _ => True) (do
      let issue ← issueRefreshToken settings env row.userId row.familyId
      commitTx
      return some issue) l S := by
  simp only [issueRefreshToken, lockOn_bind, query_bind, lock_bind, select_bind]
  have hsince : Steady (FamilyRely settings req) fun _ => Since settings req S₁ := Since.steady
  have hsteady := hsince.and (steady_first ⟨.refreshTokens, S₁.commits.length⟩)
  refine (hsteady.and (steady_view _)).wp_lock ⟨⟨hl, hread⟩, hview⟩ fun l S hl hheld => ?_
  refine ((hsteady.and (steady_view _)).and Steady.held).wp_select ⟨hl, hheld⟩ fun l S hl => ?_
  obtain ⟨⟨hl, hview⟩, hheld⟩ := hl
  cases hnew : ((l.view S.db).refreshToken (env.row settings row.userId row.familyId).tokenHash).isSome with
  | true => exact fun _ _ => trivial
  | false =>
    have hfresh : S.db.refreshToken (settings.refreshTokenHash env.rawToken) = none := by
      have hkey : (env.row settings row.userId row.familyId).tokenHash = settings.refreshTokenHash env.rawToken := rfl
      rw [hview, refreshToken_update _ (.rotated env.now) fun _ => rfl, hkey] at hnew
      simpa using hnew
    simp only [Bool.false_eq_true, if_false, update_bind, write_bind, pure_eq, ret_bind, commitTx_bind]
    have hsteady := hsteady.and (steady_fresh (settings.refreshTokenHash env.rawToken))
    refine (hsteady.and (steady_view _)).wp_write ⟨⟨hl, hheld, hfresh⟩, hview⟩ fun S hl => ?_
    obtain ⟨hl, hview⟩ := hl
    have hwrites : (fun db : AuthDb => { db with
        refreshTokens := db.refreshTokens ++ [env.row settings row.userId row.familyId] }) ∘ l.view =
        fun db => db.exchanged row.tokenHash env.now (env.row settings row.userId row.familyId) := by
      rw [hview]
      rfl
    rw [hwrites]
    intro S' hr
    obtain ⟨⟨hl, hread⟩, hf⟩ := hsteady.rely ⟨l.held, l.reads, fun db => db.exchanged row.tokenHash env.now
      (env.row settings row.userId row.familyId)⟩ S S' hl hr
    refine ⟨.commit ⟨hl.hashed, ?_⟩, fun _ _ => trivial⟩
    have hfam := hl.rely.steps.keyed i row.familyId (family_of_presented hhash hmem hpres)
    have hrefresh : (req i).isLogout = false := by
      rw [hreq]
      rfl
    refine .exchange row env ⟨hrefresh, hpres, hlive, hfam, hf.1, hf.2, fun hun => ?_⟩
    have hnone := hun row.familyId hfam
    rw [hrefresh, if_neg Bool.false_ne_true] at hnone
    have hsame := hl.rely.steps.kept row.familyId (hnone _ hread)
    have hrow : row ∈ familyTokens row.familyId S₁.db := mem_familyTokens.mpr ⟨hmem, rfl⟩
    exact (mem_familyTokens.mp (hsame ▸ hrow)).1

theorem wp_refresh {rawToken : Option String} {env : IssueEnv} (hreq : req i = .refresh rawToken env)
    (hS : Hashed S.db) :
    wp (FamilyRely settings req) (Guarantees settings req i) i (fun _ _ _ => True)
      (Auth.refresh settings rawToken env) .idle S := by
  unfold Auth.refresh rotateRefreshToken
  cases hraw : presented rawToken with
  | none => exact fun _ _ => trivial
  | some raw =>
    simp only [query_bind, select_bind]
    intro S₁ hr₁
    have hhashed := hr₁.hashed hS
    cases hrow : S₁.db.refreshToken (settings.refreshTokenHash raw) with
    | none =>
      simp only [Local.idle, hrow, id]
      exact fun _ _ => trivial
    | some row =>
      obtain ⟨hmem, hhash⟩ := refreshToken_some hrow
      have hpres : (req i).tokenHash settings = some row.tokenHash := by
        rw [hreq, AuthRequest.tokenHash, hraw, hhash]
        rfl
      simp only [Local.idle, hrow, id]
      cases hlive : row.live with
      | false => exact fun _ _ => trivial
      | true =>
        simp only [Bool.not_true, Bool.false_eq_true, if_false]
        by_cases hexp : row.expiresAt ≤ env.now
        · simp only [hexp, if_true]
          exact fun _ _ => trivial
        · simp only [hexp, if_false, select_bind]
          have hsince : Steady (FamilyRely settings req) fun _ => Since settings req S₁ := Since.steady
          have hsteady := hsince.and ((steady_first ⟨.refreshTokens, S₁.commits.length⟩).and (steady_view id))
          refine hsteady.wp_select ⟨.start hhashed, rfl, rfl⟩ fun l S hl => ?_
          cases huser : (l.view S.db).user row.userId with
          | none => exact fun _ _ => trivial
          | some user =>
            dsimp only
            split
            · exact fun _ _ => trivial
            · simp only [lockOn_bind, update_bind, lock_bind, write_bind, Prog.bind_assoc, pure_eq, ret_bind]
              refine hsteady.wp_lock hl fun l S hl _ => ?_
              refine hsteady.wp_write hl fun S hl => ?_
              obtain ⟨hl, hread, hview⟩ := hl
              have hid : user.id = row.userId := (AuthDb.user_id huser).2
              rw [hid]
              exact wp_successor hreq hpres hlive hmem hhashed hl hread (by rw [hview]; rfl)

/-- The locks of the rows are taken, and what the others and locks keep stays. -/
theorem wp_lockRows {J : Local App → Shared App τ → Prop} (hR : ∀ l S S', J l S → FamilyRely settings req l S S' → J l S')
    (hlock : ∀ l S r, J l S → J { l with held := insert r l.held } S) {g : Unit → Handler (Option RefreshToken)}
    (hg : ∀ l S, J l S → wp (FamilyRely settings req) (Guarantees settings req i) i (fun _ _ _ => True) (g ()) l S)
    (hs : List String) {l : Local App} {S : Shared App τ} (hJ : J l S) :
    wp (FamilyRely settings req) (Guarantees settings req i) i (fun _ _ _ => True) (lockRows hs >>= g) l S := by
  induction hs generalizing l S with
  | nil => exact hg l S hJ
  | cons h hs ih => exact fun S' hr => ih (hlock _ _ _ (hR _ _ _ hJ hr))

/-- From the read of the family's tokens to the commit. -/
theorem wp_revocation {now : Int} {row : RefreshToken} (hout : (req i).isLogout = true) (hS : Hashed S₁.db)
    (hfam : familyOf settings req i S₁.db = some row.familyId) (hview : l.view = id)
    (hread : l.reads.head? = some ⟨.refreshTokens, S₁.commits.length⟩) :
    wp (FamilyRely settings req) (Guarantees settings req i) i (fun _ _ _ => True) (do
      lockRows (unrevoked row.familyId S₁.db)
      update fun db => db.revoked (unrevoked row.familyId S₁.db) now
      commitTx
      return (none : Option RefreshToken)) l S₁ := by
  have hsince : Steady (FamilyRely settings req) fun _ => Since settings req S₁ := Since.steady
  refine wp_lockRows (J := fun l' S => Since settings req S₁ S ∧ l'.reads = l.reads ∧ l'.view = id)
    (fun l S S' h hr => ⟨hsince.rely l S S' h.1 hr, h.2⟩) (fun _ _ _ h => h) ?_ _ ⟨.start hS, rfl, hview⟩
  intro l' S ⟨hl, hreads, hview⟩
  simp only [update_bind, commitTx_bind, pure_eq]
  intro S₂ hr₂
  have hwrites : (fun db : AuthDb => db.revoked (unrevoked row.familyId S₁.db) now) ∘ l'.view =
      fun db => db.revoked (unrevoked row.familyId S₁.db) now := by
    rw [hview]
    rfl
  rw [hwrites]
  intro S₃ hr₃
  have hl := hsince.rely _ _ _ (hsince.rely _ _ _ hl hr₂) hr₃
  have hfam' := hl.rely.steps.keyed i _ hfam
  refine ⟨.commit ⟨hl.hashed, .revoke row _ now ⟨hout, hfam', fun t ht hseen => ?_, fun hun t ht hf hrev => ?_⟩⟩,
    fun _ _ => trivial⟩
  · have hf := hl.rely.tokens t.tokenHash _ (family_of_unrevoked hS _ hseen)
    rw [hl.hashed.refreshToken_eq ht] at hf
    exact Option.some.inj hf
  · have hnone := hun row.familyId hfam'
    rw [hout, if_pos rfl] at hnone
    obtain ⟨t₀, ht₀, -, hsame⟩ :=
      hl.rely.refreshes.kept row.familyId (hnone _ (hreads ▸ hread)) t (mem_familyTokens.mpr ⟨ht, hf⟩)
    obtain rfl := hsame hrev
    exact mem_unrevoked (mem_familyTokens.mp ht₀).1 hf hrev

theorem wp_logout {rawToken : Option String} {now : Int} (hreq : req i = .logout rawToken now) (hS : Hashed S.db) :
    wp (FamilyRely settings req) (Guarantees settings req i) i (fun _ _ _ => True)
      (Auth.logout settings rawToken now) .idle S := by
  have hout : (req i).isLogout = true := by
    rw [hreq]
    rfl
  unfold Auth.logout revokeRefreshFamily
  cases hraw : presented rawToken with
  | none =>
    have hnone : ∀ db, familyOf settings req i db = none := by
      intro db
      rw [familyOf, hreq, AuthRequest.tokenHash, hraw]
      rfl
    intro S₁ hr₁
    exact ⟨.commit ⟨hr₁.hashed hS, .nothing hout fun _ => hnone _⟩, fun _ _ => trivial⟩
  | some raw =>
    have hpres : (req i).tokenHash settings = some (settings.refreshTokenHash raw) := by
      rw [hreq, AuthRequest.tokenHash, hraw]
      rfl
    simp only [query_bind, select_bind]
    intro S₁ hr₁
    have hhashed := hr₁.hashed hS
    cases hrow : S₁.db.refreshToken (settings.refreshTokenHash raw) with
    | none =>
      simp only [Local.idle, hrow, id, ret_bind]
      intro S hr
      refine ⟨.commit ⟨hr.hashed hhashed, .nothing hout fun hun => ?_⟩, fun _ _ => trivial⟩
      cases hf : familyOf settings req i S.db with
      | none => rfl
      | some f =>
        -- its token came with a refresh of its family
        obtain ⟨t, ht, hth, htf⟩ := token_of_family hpres hf
        have hnone := hun f hf
        rw [hout, if_pos rfl] at hnone
        obtain ⟨t₀, ht₀, he, -⟩ := hr.refreshes.kept f (hnone _ rfl) t (mem_familyTokens.mpr ⟨ht, htf⟩)
        exact absurd (he.trans hth) (refreshToken_eq_none.mp hrow t₀ (mem_familyTokens.mp ht₀).1)
    | some row =>
      obtain ⟨hmem, hhash⟩ := refreshToken_some hrow
      simp only [Local.idle, hrow, id, select_bind]
      intro S₂ hr₂
      dsimp only
      rw [Prog.bind_assoc]
      exact wp_revocation hout (hr₂.hashed hhashed)
        (hr₂.tokens.familyOf i _ (family_of_presented hhashed hmem (hhash ▸ hpres))) rfl rfl

end Programs

/-! ## Whole runs -/

section Runs

variable {settings : Settings} {req : τ → AuthRequest} {db : AuthDb} {i : τ} {l : Local App}
  {S : Shared App τ} {db' : AuthDb} {f : FamilyId}

theorem refreshes_rules (hdb : Hashed db) : Rules (fun _ _ => True) (Refreshes.start settings req db)
    (fun _ => FamilyRely settings req) (Guarantees settings req) (fun _ _ _ => True) where
  refl _ := FamilyRely.refl
  trans _ _ _ _ _ := FamilyRely.trans
  outside _ _ _ _ _ := .aside rfl rfl
  compat s _ _ _ _ hj hG := hG.rely (Sys.localOf_disjoint s hj)
  stable _ _ _ _ _ _ := trivial
  start i := by
    refine good_start ?_
    cases hreq : req i with
    | refresh rawToken env => exact wp_refresh hreq hdb
    | logout rawToken now => exact wp_logout hreq hdb

/-- The tokens that the committed refreshes have exchanged. -/
def exchangedTokens (settings : Settings) (req : τ → AuthRequest) (commits : List τ) : List String :=
  commits.filterMap fun i => if (req i).isLogout then none else (req i).tokenHash settings

/-- What holds of the threads that committed and the tables. -/
structure FamiliesSafe (settings : Settings) (req : τ → AuthRequest) (commits : List τ) (db : AuthDb) : Prop extends
    FamilyOk db where
  once : (exchangedTokens settings req commits).Nodup
  spent : ∀ h ∈ exchangedTokens settings req commits, ∃ t, db.refreshToken h = some t ∧ t.live = false
  out : ∀ j f, commits.getLast? = some j → (req j).isLogout = true → familyOf settings req j db = some f →
    LoggedOut f db

theorem live_exchanged {h : String} {now : Int} {successor t : RefreshToken}
    (ht : t ∈ (db.exchanged h now successor).refreshTokens) (hlive : t.live = true) :
    t = successor ∨ t ∈ db.refreshTokens ∧ t.tokenHash ≠ h := by
  obtain rfl | ⟨t₀, ht₀, rfl⟩ := mem_exchanged.mp ht
  · exact .inl rfl
  · by_cases he : t₀.tokenHash = h
    · rw [if_pos he] at hlive
      cases hlive
    · rw [if_neg he]
      exact .inr ⟨ht₀, he⟩

theorem live_revoked {seen : List String} {now : Int} {t : RefreshToken}
    (ht : t ∈ (db.revoked seen now).refreshTokens) (hlive : t.live = true) : t ∈ db.refreshTokens := by
  obtain ⟨t₀, ht₀, rfl⟩ := mem_revoked.mp ht
  by_cases hrev : t₀.tokenHash ∈ seen ∧ t₀.revokedAt = none
  · rw [if_pos hrev, RefreshToken.live, RefreshToken.revoked, Option.isNone_some, Bool.and_false] at hlive
    cases hlive
  · rwa [if_neg hrev]

theorem Exchanges.safe {row : RefreshToken} {env : IssueEnv} (h : Exchanges settings req i l S row env)
    (hun : unovertaken settings req i l S) (hS : FamiliesSafe settings req S.commits S.db) :
    FamiliesSafe settings req (S.commits ++ [i])
      (S.db.exchanged row.tokenHash env.now (env.row settings row.userId row.familyId)) := by
  have hrow := h.current hun
  have hfound : S.db.refreshToken row.tokenHash = some row := hS.hashed.refreshToken_eq hrow
  have htokens : exchangedTokens settings req (S.commits ++ [i]) =
      exchangedTokens settings req S.commits ++ [row.tokenHash] := by
    simp [exchangedTokens, h.refresh, h.presents]
  -- the family's token that was live is the one that is exchanged
  have hothers : ∀ t ∈ S.db.refreshTokens, t.live = true → t.tokenHash ≠ row.tokenHash → t.familyId ≠ row.familyId :=
    fun t ht hlive hne hf => hne (congrArg _ (hS.single t ht row hrow hf hlive h.live))
  refine ⟨⟨(h.keeps hS.hashed).hashed, fun t ht t' ht' hf hlive hlive' => ?_⟩, ?_, fun h' hh' => ?_,
    fun j f hj hout _ => ?_⟩
  · obtain rfl | ⟨hmem, hne⟩ := live_exchanged ht hlive <;> obtain rfl | ⟨hmem', hne'⟩ := live_exchanged ht' hlive'
    · rfl
    · exact absurd hf.symm (hothers t' hmem' hlive' hne')
    · exact absurd hf (hothers t hmem hlive hne)
    · exact hS.single t hmem t' hmem' hf hlive hlive'
  · rw [htokens, List.nodup_append]
    refine ⟨hS.once, List.nodup_singleton _, fun a ha b hb he => ?_⟩
    obtain ⟨t, ht, hdead⟩ := hS.spent a ha
    rw [he, List.mem_singleton.mp hb, hfound] at ht
    cases ht
    rw [h.live] at hdead
    cases hdead
  · rw [htokens, List.mem_append, List.mem_singleton] at hh'
    rw [refreshToken_exchanged]
    obtain hold | rfl := hh'
    · obtain ⟨t, ht, hdead⟩ := hS.spent h' hold
      rw [ht]
      refine ⟨_, rfl, ?_⟩
      dsimp only
      split
      · rfl
      · exact hdead
    · rw [hfound]
      refine ⟨_, rfl, ?_⟩
      dsimp only
      rw [if_pos (beq_self_eq_true _)]
      rfl
  · rw [List.getLast?_concat, Option.some_inj] at hj
    rw [← hj, h.refresh] at hout
    cases hout

theorem Revokes.safe {row : RefreshToken} {seen : List String} (h : Revokes settings req i l S row seen) (now : Int)
    (hun : unovertaken settings req i l S) (hS : FamiliesSafe settings req S.commits S.db) :
    FamiliesSafe settings req (S.commits ++ [i]) (S.db.revoked seen now) := by
  have htokens : exchangedTokens settings req (S.commits ++ [i]) = exchangedTokens settings req S.commits := by
    simp [exchangedTokens, h.logout]
  have hkeeps := h.keeps hS.hashed now
  refine ⟨⟨hkeeps.hashed, fun t ht t' ht' hf hlive hlive' => ?_⟩, htokens ▸ hS.once, fun h' hh' => ?_,
    fun j f hj _ hf => ?_⟩
  · exact hS.single t (live_revoked ht hlive) t' (live_revoked ht' hlive') hf hlive hlive'
  · obtain ⟨t, ht, hdead⟩ := hS.spent h' (htokens ▸ hh')
    rw [AuthDb.revoked, refreshToken_update _ (.revoked now) fun _ => rfl, ht]
    refine ⟨_, rfl, ?_⟩
    dsimp only
    split
    · exact Bool.and_false _
    · exact hdead
  · rw [List.getLast?_concat, Option.some_inj] at hj
    subst hj
    obtain rfl : row.familyId = f := Option.some.inj ((hkeeps.tokens.familyOf i _ h.family).symm.trans hf)
    obtain ⟨h₀, hh₀, ht⟩ := Option.bind_eq_some_iff.mp hf
    obtain ⟨t, hmem, -, htf⟩ := token_of_family hh₀ hf
    refine ⟨⟨t, hmem, htf⟩, fun t ht htf => ?_⟩
    obtain ⟨t₀, ht₀, rfl⟩ := mem_revoked.mp ht
    by_cases hrev : t₀.tokenHash ∈ seen ∧ t₀.revokedAt = none
    · rw [if_pos hrev]
      exact Option.some_ne_none _
    · rw [if_neg hrev] at htf ⊢
      exact fun hnone => hrev ⟨h.current hun t₀ ht₀ htf hnone, hnone⟩

theorem FamilyCommit.safe (h : FamilyCommit settings req i l S db') (hun : unovertaken settings req i l S)
    (hS : FamiliesSafe settings req S.commits S.db) : FamiliesSafe settings req (S.commits ++ [i]) db' := by
  cases h with
  | exchange row env h => exact h.safe hun hS
  | revoke row seen now h => exact h.safe now hun hS
  | nothing hout hnone =>
    have htokens : exchangedTokens settings req (S.commits ++ [i]) = exchangedTokens settings req S.commits := by
      simp [exchangedTokens, hout]
    refine ⟨hS.toFamilyOk, htokens ▸ hS.once, htokens ▸ hS.spent, fun j f hj _ hf => ?_⟩
    rw [List.getLast?_concat, Option.some_inj] at hj
    rw [← hj, hnone hun] at hf
    cases hf

/-- From now on no commit of a refresh is of the family. -/
structure OutSince (settings : Settings) (req : τ → AuthRequest) (f : FamilyId) (before : List τ) (S : Shared App τ) :
    Prop where
  out : LoggedOut f S.db
  commits : before <+: S.commits
  others : ∀ j ∈ S.commits.drop before.length, (req j).isLogout = false →
    ∃ g, g ≠ f ∧ familyOf settings req j S.db = some g

theorem LoggedOut.of_same (h : LoggedOut f db) (hsame : SameTokens f db db') : LoggedOut f db' := by
  obtain ⟨⟨t, ht, htf⟩, hall⟩ := h
  have hmem : ∀ t, t ∈ db'.refreshTokens ∧ t.familyId = f ↔ t ∈ db.refreshTokens ∧ t.familyId = f := by
    intro t
    rw [← mem_familyTokens, ← mem_familyTokens, hsame]
  exact ⟨⟨t, (hmem t).mpr ⟨ht, htf⟩⟩, fun t ht htf => hall t ((hmem t).mp ⟨ht, htf⟩).1 htf⟩

theorem LoggedOut.of_onlyRevoked (h : LoggedOut f db) (hdb : Hashed db) (hrev : OnlyRevoked f db db')
    (htokens : TokensStay db db') : LoggedOut f db' := by
  obtain ⟨⟨t, ht, htf⟩, hall⟩ := h
  have hstay := htokens t.tokenHash f (by rw [hdb.refreshToken_eq ht, Option.map_some, htf])
  obtain ⟨t', ht', htf'⟩ := Option.map_eq_some_iff.mp hstay
  refine ⟨⟨t', (refreshToken_some ht').1, htf'⟩, fun t ht htf hnone => ?_⟩
  obtain ⟨t₀, ht₀, -, hsame⟩ := hrev t (mem_familyTokens.mpr ⟨ht, htf⟩)
  obtain ⟨hmem, hf⟩ := mem_familyTokens.mp ht₀
  exact hall t₀ hmem hf (hsame hnone ▸ hnone)

/-- A refresh that commits is not of a family that is logged out. -/
theorem FamilyCommit.other_family (h : FamilyCommit settings req i l S db') (hkind : (req i).isLogout = false)
    (hun : unovertaken settings req i l S) (hout : LoggedOut f S.db) :
    ∃ g, g ≠ f ∧ familyOf settings req i S.db = some g := by
  cases h with
  | exchange row env h =>
    refine ⟨row.familyId, fun he => ?_, h.family⟩
    have hlive := h.live
    rw [RefreshToken.live, Bool.and_eq_true, Option.isNone_iff_eq_none, Option.isNone_iff_eq_none] at hlive
    exact hout.2 row (h.current hun) he hlive.2
  | revoke row seen now h =>
    have hlogout := h.logout
    rw [hkind] at hlogout
    cases hlogout
  | nothing hlogout _ =>
    rw [hkind] at hlogout
    cases hlogout

theorem OutSince.commit {before : List τ} (h : FamilyCommit settings req i l S db')
    (hun : unovertaken settings req i l S) (hS : Hashed S.db) (hout : OutSince settings req f before S) :
    OutSince settings req f before { S with db := db', commits := S.commits ++ [i] } := by
  have hkeeps := h.keeps hS
  have hlogged : LoggedOut f db' ∧ ((req i).isLogout = false → ∃ g, g ≠ f ∧ familyOf settings req i S.db = some g) := by
    cases hkind : (req i).isLogout with
    | true => exact ⟨hout.out.of_onlyRevoked hS (hkeeps.onlyRevoked hkind f) hkeeps.tokens, fun hr => nomatch hr⟩
    | false =>
      -- the token that is exchanged is not revoked: it is of another family
      obtain ⟨g, hne, hfam⟩ := h.other_family hkind hun hout.out
      have hfam' : familyOf settings req i db' ≠ some f :=
        fun hf => hne (Option.some.inj ((hkeeps.tokens.familyOf i g hfam).symm.trans hf))
      exact ⟨hout.out.of_same (hkeeps.parts f hfam'), fun _ => ⟨g, hne, hfam⟩⟩
  refine ⟨hlogged.1, hout.commits.trans (List.prefix_append _ _), fun j hj hrefresh => ?_⟩
  have hsplit : (S.commits ++ [i]).drop before.length = S.commits.drop before.length ++ [i] := by
    rw [List.drop_append_of_le_length hout.commits.length_le]
  rw [hsplit, List.mem_append, List.mem_singleton] at hj
  obtain hold | rfl := hj
  · obtain ⟨g, hg, hfam⟩ := hout.others j hold hrefresh
    exact ⟨g, hg, hkeeps.tokens.familyOf j g hfam⟩
  · obtain ⟨g, hg, hfam⟩ := hlogged.2 hrefresh
    exact ⟨g, hg, hkeeps.tokens.familyOf j g hfam⟩

/-- **Refresh-token families**: in every run whose commits are not overtaken, each token is exchanged at most once and
no family has two tokens that can be exchanged; and once a logout has committed, all tokens of its family are revoked
and no refresh with one commits any more. -/
theorem families_safe [DecidableEq τ] (hdb : FamilyOk db) {s : Sys App τ (Option RefreshToken)}
    (h : Reach (fun _ _ => True) (unovertaken settings req) (Refreshes.start settings req db) s) :
    (exchangedTokens settings req s.shared.commits).Nodup ∧ FamilyOk s.shared.db ∧
    ∀ j f, s.shared.commits.getLast? = some j → (req j).isLogout = true →
      familyOf settings req j s.shared.db = some f → ∀ s', Reach (fun _ _ => True) (unovertaken settings req) s s' →
        LoggedOut f s'.shared.db ∧ ∃ later, s'.shared.commits = s.shared.commits ++ later ∧
          ∀ i ∈ later, (req i).isLogout = false → familyOf settings req i s'.shared.db ≠ some f := by
  have hrules : Rules (fun _ _ => True) (Refreshes.start settings req db) (fun _ => FamilyRely settings req)
      (Guarantees settings req) (fun _ _ _ => True) := refreshes_rules hdb.hashed
  have hinv : ∀ {s}, Reach (fun _ _ => True) (unovertaken settings req) (Refreshes.start settings req db) s →
      FamiliesSafe settings req s.shared.commits s.shared.db := by
    intro s h
    refine Reach.inv hrules (J := fun S => FamiliesSafe settings req S.commits S.db)
      ⟨hdb, List.nodup_nil, fun _ hh => (nomatch hh), fun _ _ hj => (nomatch hj)⟩ ?_ ?_ (fun _ _ _ => id) h
    · intro s i S' hun hS hG
      obtain ⟨hc, -, hP⟩ := hG.1 rfl
      rw [hc]
      exact hP.safe hun hS
    · intro s i a S' ha hS hG
      rw [(hG.2 ha).1, (hG.2 ha).2]
      exact hS
  have hsafe := hinv h
  refine ⟨hsafe.once, hsafe.toFamilyOk, fun j f hj hout hf s' h' => ?_⟩
  have hsince : OutSince settings req f s.shared.commits s'.shared := by
    refine Reach.inv (hrules.restart h) (J := OutSince settings req f s.shared.commits)
      ⟨hsafe.out j f hj hout hf, List.prefix_rfl, fun i hi => ?_⟩ ?_ ?_ (fun _ _ _ hS => ⟨hS.out, hS.commits, hS.others⟩) h'
    · rw [List.drop_length] at hi
      cases hi
    · intro s i S' hun hS hG
      obtain ⟨hc, hhash, hP⟩ := hG.1 rfl
      have hnext := hS.commit hP hun hhash
      exact ⟨hnext.out, hc ▸ hnext.commits, hc ▸ hnext.others⟩
    · intro s i a S' ha hS hG
      exact ⟨(hG.2 ha).2 ▸ hS.out, (hG.2 ha).1 ▸ hS.commits, (hG.2 ha).1 ▸ (hG.2 ha).2 ▸ hS.others⟩
  obtain ⟨later, hlater⟩ := hsince.commits
  refine ⟨hsince.out, later, hlater.symm, fun i hi hkind hfam => ?_⟩
  obtain ⟨g, hne, hg⟩ := hsince.others i (by rwa [← hlater, List.drop_left]) hkind
  exact hne (Option.some.inj (hg.symm.trans hfam))

end Runs

/-! ### One family -/

def Settings.tenDays : Settings := ⟨true, 10, id, id⟩

/-- A user with one token, right after a login. -/
def oneFamily : AuthDb where
  users := [⟨1, "bob", none, none, true⟩]
  identities := []
  betaInvites := []
  refreshTokens := [⟨1, 1, "first", 0, 10, none, none, none, none⟩]

theorem oneFamily_ok : FamilyOk oneFamily := by
  refine ⟨List.nodup_singleton _, fun t ht t' ht' _ _ _ => ?_⟩
  rw [List.mem_singleton.mp ht, List.mem_singleton.mp ht']

/-- Two rotations and a logout. -/
def rotations : Fin 3 → AuthRequest
  | 0 => .refresh (some "first") ⟨"second", 1, none, none⟩
  | 1 => .refresh (some "second") ⟨"third", 2, none, none⟩
  | 2 => .logout (some "third") 3

/-- One after the other. -/
def oneByOne : List (Fin 3) := List.replicate 9 0 ++ List.replicate 9 1 ++ List.replicate 8 2

theorem families_safe_rotations :
    let s := (Refreshes.start .tenDays rotations oneFamily).after (unovertaken .tenDays rotations) oneByOne
    exchangedTokens .tenDays rotations s.shared.commits = ["first", "second"] ∧
      (exchangedTokens .tenDays rotations s.shared.commits).Nodup ∧ LoggedOut 1 s.shared.db := by
  intro s
  have hreach : Reach (fun _ _ => True) (unovertaken .tenDays rotations) (Refreshes.start .tenDays rotations oneFamily) s :=
    Reach.after (by decide +kernel)
  obtain ⟨honce, -, hout⟩ := families_safe oneFamily_ok hreach
  exact ⟨by decide +kernel, honce, (hout 2 1 (by decide +kernel) rfl (by decide +kernel) s .start).1⟩

/-- Two rotations of one token. -/
def twice : Bool → AuthRequest
  | false => .refresh (some "first") ⟨"second", 1, none, none⟩
  | true => .refresh (some "first") ⟨"other", 1, none, none⟩

/-- A rotation and a logout of one token. -/
def logoutMeanwhile : Bool → AuthRequest
  | false => .refresh (some "first") ⟨"second", 1, none, none⟩
  | true => .logout (some "first") 1

/-- The second request reads the token, the first one runs, and then the second one goes on. -/
def overtaking : List Bool := true :: List.replicate 9 false ++ List.replicate 8 true

/-- The rotation reads the token, the logout runs, and then the rotation goes on. -/
def overtakenByLogout : List Bool := false :: List.replicate 6 true ++ List.replicate 8 false

/-- **Overtaken rotations**: one token is exchanged twice and leaves two live tokens in its family, and a rotation adds a
live token to a family that is logged out. -/
theorem families_unsafe :
    (∃ s, Reach (fun _ _ => True) anyCommit (Refreshes.start .tenDays twice oneFamily) s ∧
      exchangedTokens .tenDays twice s.shared.commits = ["first", "first"] ∧ ¬ FamilyOk s.shared.db) ∧
    ∃ s, Reach (fun _ _ => True) anyCommit (Refreshes.start .tenDays logoutMeanwhile oneFamily) s ∧
      s.shared.commits = [true, false] ∧ ∃ t ∈ s.shared.db.refreshTokens, t.familyId = 1 ∧ t.live = true := by
  refine ⟨⟨(Refreshes.start .tenDays twice oneFamily).after anyCommit overtaking, Reach.after (by decide +kernel),
      by decide +kernel, fun hok => ?_⟩,
    (Refreshes.start .tenDays logoutMeanwhile oneFamily).after anyCommit overtakenByLogout,
    Reach.after (by decide +kernel), by decide +kernel, by decide +kernel⟩
  have hsingle := hok.single ⟨1, 1, "second", 1, 11, none, none, none, none⟩ (by decide +kernel)
    ⟨1, 1, "other", 1, 11, none, none, none, none⟩ (by decide +kernel) rfl rfl rfl
  exact absurd (congrArg RefreshToken.tokenHash hsingle) (by decide)

end CodeReader.Auth
