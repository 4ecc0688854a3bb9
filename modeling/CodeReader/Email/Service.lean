import CodeReader.Email.Models
import Mathlib.Data.Rat.Floor

/-!
# Email capture and verification

* `tokenBucketScript`, `enforceSendThrottle` — the throttle of verification mails;
* `requestEmail`, `resendVerification`, `verifyEmail`, `deleteEmail` — the four routes, each a transaction of its own.

A session loads a user once and writes the attributes that differ from what it has loaded.  Log lines, rate-limit
headers and the text of the mail are not modelled.
-/

namespace CodeReader.Email

open Txn Prog
open Auth (citext)

structure Settings where
  /-- `normalize_email`: the address, or the message for the user. -/
  normalizeEmail : String → Except String String
  /-- `verification_token_hash`. -/
  verificationTokenHash : String → String
  /-- `_address_bucket_key`. -/
  addressBucketKey : String → String
  /-- `parse_unsubscribe_token`: the user and the kind, or `none` for an invalid token. -/
  parseUnsubscribeToken : String → Option (UserId × SuppressionKind)
  /-- `EMAIL_VERIFICATION_TTL_H` in microseconds. -/
  verificationTtl : Int
  verificationSendsPerHour : Nat

/-! ## The throttle -/

/-- The script of the bucket, on what Redis has under the key: whether a token was there, and what is left. -/
def tokenBucketScript (limit window : Nat) (now : Int) (data : Option Bucket) : Bool × Bucket :=
  let rate : Rat := limit / window
  let (tokens, ts) := match data with
    | some b => (b.tokens, b.ts)
    | none => ((limit : Rat), now)
  let delta : Int := max 0 (now - ts)
  let tokens := min (limit : Rat) (tokens + delta * rate)
  if 1 ≤ tokens then (true, ⟨tokens - 1, now⟩) else (false, ⟨tokens, now⟩)

namespace Outside

/-- `SET key 1 NX`. -/
def claimCooldown (key : String) (o : Outside) : Bool × Outside :=
  if o.cooldowns.contains key then (false, o) else (true, { o with cooldowns := key :: o.cooldowns })

/-- `EVAL` of the bucket's script. -/
def checkTokenBucket (key : String) (limit window : Nat) (now : Int) (o : Outside) : Bool × Outside :=
  let (allowed, bucket) := tokenBucketScript limit window now (o.buckets key)
  (allowed, { o with buckets := Function.update o.buckets key (some bucket) })

end Outside

def coolingDown : Err := .api 429 "rate_limited" "Wait a moment before requesting another verification email."
def tooManySends : Err := .api 429 "rate_limited" "Too many verification emails requested. Try again later."

/-- One bucket: Redis tells the time, and then runs the script. -/
def enforceBucket (settings : Settings) (key : String) : Handler Unit := do
  let now ← cmd fun o : Outside => (o.clock, o)
  if ← cmd (Outside.checkTokenBucket key settings.verificationSendsPerHour 3600 now) then ret ()
  else raise tooManySends

/-- A cooldown for the address, and a bucket for the user and one for the address. -/
def enforceSendThrottle (settings : Settings) (userId : UserId) (email : String) : Handler Unit := do
  let addrKey := settings.addressBucketKey email
  if ← cmd (Outside.claimCooldown s!"emailsend:cooldown:addr:{addrKey}") then
    enforceBucket settings s!"rl:emailsend:user:{userId}"
    enforceBucket settings s!"rl:emailsend:addr:{addrKey}"
  else raise coolingDown

/-! ## Tokens -/

namespace EmailVerificationToken

/-- Neither consumed nor invalidated. -/
def outstanding (t : EmailVerificationToken) : Bool := t.consumedAt.isNone && t.invalidatedAt.isNone

def consumed (now : Int) (t : EmailVerificationToken) : EmailVerificationToken := { t with consumedAt := some now }
def invalidated (now : Int) (t : EmailVerificationToken) : EmailVerificationToken :=
  { t with invalidatedAt := some now }

end EmailVerificationToken

/-- Locks of several tokens. -/
def lockTokens : List String → Handler Unit
  | [] => ret ()
  | h :: hs => do
    lockOn (.token h)
    lockTokens hs

/-- The outstanding tokens of a user, by their hashes. -/
def EmailDb.outstandingTokens (db : EmailDb) (userId : UserId) : List String :=
  (db.tokens.filter fun t => t.userId == userId && t.outstanding).map (·.tokenHash)

/-- Kills the outstanding tokens of the user.  The UPDATE takes the rows that its snapshot shows. -/
def invalidateOutstanding (userId : UserId) (now : Int) : Handler Unit := do
  let seen ← query .tokens fun db => db.outstandingTokens userId
  note (.found seen)
  lockTokens seen
  update fun db => db.updateTokens (fun t => seen.contains t.tokenHash && t.outstanding) (.invalidated now)

/-- What a verification mail takes from outside: the token that is generated, the clock, and whether the sender refuses
the mail. -/
structure IssueEnv where
  rawToken : String
  now : Int
  refused : Bool

/-- The row of a new token. -/
def IssueEnv.row (env : IssueEnv) (settings : Settings) (userId : UserId) (email : String) :
    EmailVerificationToken where
  userId := userId
  email := email
  tokenHash := settings.verificationTokenHash env.rawToken
  expiresAt := env.now + settings.verificationTtl
  consumedAt := none
  invalidatedAt := none

/-! ## Users -/

/-- What a flush writes: the fields that differ from those that were loaded. -/
def User.flush (loaded new : Addresses) (u : User) : User :=
  { u with
    email := if new.email = loaded.email then u.email else new.email
    emailVerifiedAt := if new.emailVerifiedAt = loaded.emailVerifiedAt then u.emailVerifiedAt else new.emailVerifiedAt
    pendingEmail := if new.pendingEmail = loaded.pendingEmail then u.pendingEmail else new.pendingEmail }

/-- What the unique index on verified addresses has for the row: addresses are `citext`. -/
def User.verifiedAddress (u : User) : Option (List Char) :=
  if u.emailVerifiedAt.isSome && u.deletedAt.isNone then u.email.map citext else none

/-- Another row has the address in the index. -/
def EmailDb.addressTaken (db : EmailDb) (id : UserId) (address : List Char) : Bool :=
  db.users.any fun u => u.id != id && u.verifiedAddress == some address

/-- The user's row is written, if something differs. -/
def flushUser (id : UserId) (loaded new : Addresses) : Handler Unit := do
  if new = loaded then ret ()
  else
    lockOn (.user id)
    update fun db => db.updateUser id (.flush loaded new)

/-- The unique index rejects the user's row as it is written. -/
def addressConflict (id : UserId) : Handler Bool := do
  match ← query .users fun db => (db.user id).bind User.verifiedAddress with
  | none => return false
  | some address =>
    lockOn (.address address)
    query .users fun db => db.addressTaken id address

def invalidAccessToken : Err := .api 401 "invalid_token" "Access token is invalid."

def loadUser (userId : UserId) : Handler User := do
  match ← query .users fun db => db.user userId with
  | none => raise invalidAccessToken
  | some user =>
    if user.deletedAt.isSome then raise invalidAccessToken
    else
      note (.loaded user.addresses)
      return user

structure EmailState where
  email : Option String
  emailVerified : Bool
  pendingEmail : Option String
  deriving DecidableEq

def emailState (a : Addresses) : EmailState := ⟨a.email, a.emailVerifiedAt.isSome, a.pendingEmail⟩

/-! ## Routes -/

def emailAlreadyVerified : Err :=
  .api 409 "email_already_verified" "That address is already confirmed on your account."
def noPendingEmail : Err := .api 409 "no_pending_email" "There is no address waiting to be confirmed."
def emailSendFailed : Err :=
  .api 503 "email_send_failed" "Could not send the verification email. Try again shortly."
def verificationFailed : Err :=
  .api 400 "verification_failed" "That verification link is not valid or has expired."

/-- A new token for the address, which becomes the pending one; then the mail is sent. -/
def issueAndSend (settings : Settings) (user : User) (email : String) (env : IssueEnv) : Handler Addresses := do
  invalidateOutstanding user.id env.now
  let row := env.row settings user.id email
  let new := { user.addresses with pendingEmail := some email }
  flushUser user.id user.addresses new
  lockOn (.token row.tokenHash)
  if ← query .tokens fun db => (db.token row.tokenHash).isSome then
    raise (.integrity "email_verification_tokens_token_hash_key")
  else
    update fun db => { db with tokens := db.tokens ++ [row] }
    if env.refused then raise emailSendFailed
    else return new

/-- `POST /me/email`. -/
def requestEmail (settings : Settings) (userId : UserId) (rawEmail : String) (env : IssueEnv) : Handler EmailState :=
  match settings.normalizeEmail rawEmail with
  | .error message => raise (.api 400 "validation_error" message)
  | .ok email => do
    let user ← loadUser userId
    if user.email.any fun e => e.toLower == email then raise emailAlreadyVerified
    else
      enforceSendThrottle settings user.id email
      let new ← issueAndSend settings user email env
      commitTx
      return emailState new

/-- `POST /me/email/resend`. -/
def resendVerification (settings : Settings) (userId : UserId) (env : IssueEnv) : Handler EmailState := do
  let user ← loadUser userId
  match user.pendingEmail with
  | none => raise noPendingEmail
  | some email =>
    enforceSendThrottle settings user.id email
    let new ← issueAndSend settings user email env
    commitTx
    return emailState new

/-- `POST /me/email/verify`.  The address that is promoted is the token's. -/
def verifyEmail (settings : Settings) (userId : UserId) (rawToken : String) (now : Int) : Handler EmailState :=
  if rawToken = "" then raise verificationFailed
  else do
    let digest := settings.verificationTokenHash rawToken
    match ← query .tokens fun db => db.token digest with
    | none => raise verificationFailed
    | some row =>
      if !row.outstanding then raise verificationFailed
      else if row.expiresAt ≤ now then raise verificationFailed
      else if row.userId ≠ userId then raise verificationFailed
      else
        let user ← loadUser userId
        -- the row was read without a lock: its UPDATE waits for others and then overwrites
        lockOn (.token row.tokenHash)
        update fun db => db.updateTokens (·.tokenHash == row.tokenHash) (.consumed now)
        invalidateOutstanding user.id now
        let new : Addresses := ⟨some row.email, some now, none⟩
        flushUser user.id user.addresses new
        if ← addressConflict user.id then raise verificationFailed
        else
          commitTx
          return emailState new

/-- `DELETE /me/email`. -/
def deleteEmail (userId : UserId) (now : Int) : Handler EmailState := do
  let user ← loadUser userId
  invalidateOutstanding user.id now
  let new : Addresses := ⟨none, none, none⟩
  flushUser user.id user.addresses new
  commitTx
  return emailState new

end CodeReader.Email
