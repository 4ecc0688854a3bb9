import CodeReader.Models.UserState

/-!
# Accounts, the beta list and refresh tokens

* `User`, `AuthIdentity`, `RefreshToken`, `AuthDb` — the rows and the tables;
* `upsertGithubUser`, `applyBetaInvite` — what a GitHub login does to them;
* `inviteToBeta`, `revokeBetaAccess` — the two admin operations;
* `issueRefreshToken`, `rotateRefreshToken`, `revokeRefreshFamily` — refresh tokens;
* `githubCallback`, `refresh`, `logout` — the routes, each a transaction of its own.

Rate limits, cookies and log lines are not modelled.
-/

namespace CodeReader.Auth

open Txn Prog

/-! ## Tables -/

/-- Case-insensitive text: two values are the same when they are in lower case. -/
def citext (s : String) : List Char := s.toList.map Char.toLower

abbrev UserId := Nat
abbrev FamilyId := Nat

/-- A row of `users`, as far as accounts go. -/
structure User where
  id : UserId
  username : String
  displayName : Option String
  avatarUrl : Option String
  betaAllowed : Bool
  deriving DecidableEq

/-- A row of `auth_identities`; the provider is GitHub. -/
structure AuthIdentity where
  userId : UserId
  providerUserId : String
  providerLogin : String
  accessTokenEnc : String
  tokenScopes : Option String
  deriving DecidableEq

/-- A row of `refresh_tokens`; rows are told apart by their unique hash. -/
structure RefreshToken where
  userId : UserId
  familyId : FamilyId
  tokenHash : String
  issuedAt : Int
  expiresAt : Int
  rotatedAt : Option Int
  revokedAt : Option Int
  userAgent : Option String
  ip : Option String
  deriving DecidableEq

structure AuthDb where
  users : List User
  identities : List AuthIdentity
  betaInvites : List String
  refreshTokens : List RefreshToken
  deriving DecidableEq

namespace AuthDb

def user (db : AuthDb) (id : UserId) : Option User := db.users.find? (·.id == id)

def userNamed (db : AuthDb) (username : String) : Option User :=
  db.users.find? fun u => citext u.username == citext username

def identity (db : AuthDb) (providerUserId : String) : Option AuthIdentity :=
  db.identities.find? (·.providerUserId == providerUserId)

def invited (db : AuthDb) (githubLogin : String) : Bool :=
  db.betaInvites.any fun login => citext login == citext githubLogin

def refreshToken (db : AuthDb) (tokenHash : String) : Option RefreshToken :=
  db.refreshTokens.find? (·.tokenHash == tokenHash)

/-- Another user has the username. -/
def usernameTaken (db : AuthDb) (id : UserId) (username : String) : Bool :=
  db.users.any fun u => u.id != id && citext u.username == citext username

/-- `gen_random_uuid()`: an id that no user has. -/
def freshUserId (db : AuthDb) : UserId := (db.users.map User.id).foldr max 0 + 1

def updateUser (db : AuthDb) (id : UserId) (f : User → User) : AuthDb :=
  { db with users := db.users.map fun u => if u.id == id then f u else u }

def updateIdentity (db : AuthDb) (providerUserId : String) (f : AuthIdentity → AuthIdentity) : AuthDb :=
  { db with identities := db.identities.map fun i => if i.providerUserId == providerUserId then f i else i }

def updateRefreshTokens (db : AuthDb) (p : RefreshToken → Bool) (f : RefreshToken → RefreshToken) : AuthDb :=
  { db with refreshTokens := db.refreshTokens.map fun t => if p t then f t else t }

end AuthDb

/-- The row locks that the transactions below wait for. -/
inductive AuthLock
  | refreshToken (tokenHash : String)
  deriving DecidableEq

inductive AuthTbl
  | users | identities | betaInvites | refreshTokens
  deriving DecidableEq

abbrev App : Iface where
  Db := AuthDb
  Kv := Unit
  Lock := AuthLock
  Tbl := AuthTbl
  Ev := Empty
  Err := Err

abbrev Handler := Prog App

structure Settings where
  betaGateEnabled : Bool
  /-- `REFRESH_TOKEN_TTL_DAYS` in microseconds. -/
  refreshTokenTtl : Int
  /-- `encrypt_token` under `TOKEN_ENC_KEY`. -/
  encryptToken : String → String
  /-- `refresh_token_hash`. -/
  refreshTokenHash : String → String

/-! ## Logins -/

/-- What GitHub says of the account that logs in. -/
structure GithubProfile where
  providerUserId : String
  login : String
  displayName : Option String
  avatarUrl : Option String

/-- The row of a user is written; the username is unique. -/
def flushUser (id : UserId) (f : User → User) (username : String) : Handler Unit := do
  if ← query .users fun db => db.usernameTaken id username then raise (.integrity "users_username_key")
  else update fun db => db.updateUser id f

/-- Flips `beta_allowed` on if the handle is on the invite list, and never off. -/
def applyBetaInvite (id : UserId) (betaAllowed : Bool) (githubLogin : String) : Handler Bool := do
  if betaAllowed then return true
  if ← query .betaInvites fun db => db.invited githubLogin then
    update fun db => db.updateUser id fun u => { u with betaAllowed := true }
    return true
  return false

/-- The user that logs in, and whether the beta is open to it. -/
def upsertGithubUser (settings : Settings) (profile : GithubProfile) (accessToken : String)
    (scopes : Option String) : Handler (UserId × Bool) := do
  let sealedToken := settings.encryptToken accessToken
  match ← query .identities fun db => db.identity profile.providerUserId with
  | some identity =>
    match ← query .users fun db => db.user identity.userId with
    | none => raise (.api 500 "internal" "Identity is missing its user.")
    | some user =>
      flushUser user.id (fun u => { u with
        username := profile.login
        displayName := profile.displayName
        avatarUrl := profile.avatarUrl }) profile.login
      update fun db => db.updateIdentity profile.providerUserId fun i => { i with
        providerLogin := profile.login
        accessTokenEnc := sealedToken
        tokenScopes := scopes }
      let betaAllowed ← applyBetaInvite user.id user.betaAllowed profile.login
      return (user.id, betaAllowed)
  | none =>
    let existingUser ← query .users fun db => db.userNamed profile.login
    let username := if existingUser.isSome then s!"{profile.login}-{profile.providerUserId}" else profile.login
    let id ← query .users AuthDb.freshUserId
    if ← query .users fun db => db.usernameTaken id username then raise (.integrity "users_username_key")
    else
      update fun db => { db with
        users := db.users ++ [⟨id, username, profile.displayName, profile.avatarUrl, false⟩] }
      update fun db => { db with
        identities := db.identities ++ [⟨id, profile.providerUserId, profile.login, sealedToken, scopes⟩] }
      let betaAllowed ← applyBetaInvite id false profile.login
      return (id, betaAllowed)

/-! ## The beta list -/

structure BetaInvited where
  githubLogin : String
  alreadyInvited : Bool
  userFlipped : Bool

def inviteToBeta (githubLogin : String) : Handler BetaInvited := do
  let existingInvite ← query .betaInvites fun db => db.invited githubLogin
  if !existingInvite then
    update fun db => { db with betaInvites := db.betaInvites ++ [githubLogin] }
  let user ← query .users fun db => db.userNamed githubLogin
  let userFlipped := user.any fun u => !u.betaAllowed
  match user with
  | some u => if userFlipped then update fun db => db.updateUser u.id fun u => { u with betaAllowed := true }
  | none => pure ()
  commitTx
  return ⟨githubLogin, existingInvite, userFlipped⟩

structure BetaRevoked where
  githubLogin : String
  userRevoked : Bool

def revokeBetaAccess (githubLogin : String) : Handler BetaRevoked := do
  update fun db => { db with
    betaInvites := db.betaInvites.filter fun login => citext login != citext githubLogin }
  let user ← query .users fun db => db.userNamed githubLogin
  let userRevoked := user.any (·.betaAllowed)
  match user with
  | some u => if userRevoked then update fun db => db.updateUser u.id fun u => { u with betaAllowed := false }
  | none => pure ()
  commitTx
  return ⟨githubLogin, userRevoked⟩

/-! ## Refresh tokens -/

/-- What a new token takes from outside: the token that is generated, the clock, and the client. -/
structure IssueEnv where
  rawToken : String
  now : Int
  userAgent : Option String
  ip : Option String

/-- The row that `issue_refresh_token` adds. -/
def IssueEnv.row (env : IssueEnv) (settings : Settings) (userId : UserId) (familyId : FamilyId) : RefreshToken where
  userId := userId
  familyId := familyId
  tokenHash := settings.refreshTokenHash env.rawToken
  issuedAt := env.now
  expiresAt := env.now + settings.refreshTokenTtl
  rotatedAt := none
  revokedAt := none
  userAgent := env.userAgent
  ip := env.ip

/-- The row is added; its hash is unique. -/
def issueRefreshToken (settings : Settings) (env : IssueEnv) (userId : UserId) (familyId : FamilyId) :
    Handler RefreshToken := do
  let row := env.row settings userId familyId
  lockOn (.refreshToken row.tokenHash)
  if ← query .refreshTokens fun db => (db.refreshToken row.tokenHash).isSome then
    raise (.integrity "refresh_tokens_token_hash_key")
  else
    update fun db => { db with refreshTokens := db.refreshTokens ++ [row] }
    return row

def refreshRequired : Err := .api 401 "invalid_token" "Refresh token is required."
def refreshInvalid : Err := .api 401 "invalid_token" "Refresh token is invalid."

/-- `if not raw_token`. -/
def presented (rawToken : Option String) : Option String := rawToken.filter fun t => t != ""

namespace RefreshToken

/-- A token that can still be exchanged. -/
def live (t : RefreshToken) : Bool := t.rotatedAt.isNone && t.revokedAt.isNone

def rotated (now : Int) (t : RefreshToken) : RefreshToken := { t with rotatedAt := some now }
def revoked (now : Int) (t : RefreshToken) : RefreshToken := { t with revokedAt := some now }

end RefreshToken

/-- Exchanges the presented token for a successor in its family; `env` is about the successor. -/
def rotateRefreshToken (settings : Settings) (rawToken : Option String) (env : IssueEnv) :
    Handler (UserId × RefreshToken) :=
  match presented rawToken with
  | none => raise refreshRequired
  | some raw => do
    match ← query .refreshTokens fun db => db.refreshToken (settings.refreshTokenHash raw) with
    | none => raise refreshInvalid
    | some row =>
      if !row.live then raise refreshInvalid
      else if row.expiresAt ≤ env.now then raise refreshInvalid
      else
        match ← query .users fun db => db.user row.userId with
        | none => raise refreshInvalid
        | some user =>
          if settings.betaGateEnabled && !user.betaAllowed then raise refreshInvalid
          else
            -- the row was read without a lock: its UPDATE waits for others and then overwrites
            lockOn (.refreshToken row.tokenHash)
            update fun db => db.updateRefreshTokens (·.tokenHash == row.tokenHash) (.rotated env.now)
            let issue ← issueRefreshToken settings env user.id row.familyId
            return (user.id, issue)

/-- Locks of several rows. -/
def lockRows : List String → Handler Unit
  | [] => ret ()
  | h :: hs => do
    lockOn (.refreshToken h)
    lockRows hs

/-- Revokes the tokens of the presented token's family that are not revoked.  The UPDATE takes the rows that its
snapshot shows. -/
def revokeRefreshFamily (settings : Settings) (rawToken : Option String) (now : Int) : Handler Unit :=
  match presented rawToken with
  | none => ret ()
  | some raw => do
    match ← query .refreshTokens fun db => db.refreshToken (settings.refreshTokenHash raw) with
    | none => ret ()
    | some row =>
      let seen ← query .refreshTokens fun db =>
        (db.refreshTokens.filter fun t => t.familyId == row.familyId && t.revokedAt.isNone).map (·.tokenHash)
      lockRows seen
      update fun db => db.updateRefreshTokens
        (fun t => seen.contains t.tokenHash && t.revokedAt.isNone) (.revoked now)

/-! ## Routes -/

/-- `GET /auth/github/callback` once GitHub has answered: `none` when the beta is not open to the user. -/
def githubCallback (settings : Settings) (profile : GithubProfile) (accessToken : String) (scopes : Option String)
    (env : IssueEnv) (familyId : FamilyId) : Handler (Option RefreshToken) := do
  let (userId, betaAllowed) ← upsertGithubUser settings profile accessToken scopes
  if settings.betaGateEnabled && !betaAllowed then
    commitTx
    return none
  let issue ← issueRefreshToken settings env userId familyId
  commitTx
  return some issue

/-- `POST /auth/refresh`. -/
def refresh (settings : Settings) (rawToken : Option String) (env : IssueEnv) : Handler (Option RefreshToken) := do
  let (_, issue) ← rotateRefreshToken settings rawToken env
  commitTx
  return some issue

/-- `POST /auth/logout`. -/
def logout (settings : Settings) (rawToken : Option String) (now : Int) : Handler (Option RefreshToken) := do
  revokeRefreshFamily settings rawToken now
  commitTx
  return none

end CodeReader.Auth
