import CodeReader.Auth.Service

/-!
# The tables of the mail that users get

* `User`, `EmailVerificationToken` — addresses and what proves them;
* `EmailSuppression`, `EmailDelivery` — consent, and the ledger of notifications;
* `EmailDb`, `Outside`, `App` — the tables, what is outside them, and what programs talk to.

Instants are microseconds.  A time of day is microseconds since midnight.
-/

namespace CodeReader.Email

open Txn Prog

abbrev UserId := Auth.UserId

/-- A row of `users`, as far as mail goes. -/
structure User where
  id : UserId
  /-- Verified addresses only. -/
  email : Option String
  emailVerifiedAt : Option Int
  pendingEmail : Option String
  timezone : String
  reminderLocalTime : Option Int
  deletedAt : Option Int
  deriving DecidableEq

/-- The fields of a user that the email routes write. -/
structure Addresses where
  email : Option String
  emailVerifiedAt : Option Int
  pendingEmail : Option String
  deriving DecidableEq

def User.addresses (u : User) : Addresses := ⟨u.email, u.emailVerifiedAt, u.pendingEmail⟩

/-- A row of `email_verification_tokens`; rows are told apart by their unique hash. -/
structure EmailVerificationToken where
  userId : UserId
  email : String
  tokenHash : String
  expiresAt : Int
  consumedAt : Option Int
  invalidatedAt : Option Int
  deriving DecidableEq

/-- The notifications. -/
inductive Kind
  | reminder | recap
  deriving DecidableEq

/-- `SUPPRESSION_KINDS`: a notification, or both. -/
inductive SuppressionKind
  | only (kind : Kind)
  | all
  deriving DecidableEq

def Kind.name : Kind → String
  | reminder => "reminder"
  | recap => "recap"

def SuppressionKind.name : SuppressionKind → String
  | only kind => kind.name
  | all => "all"

/-- A row of `email_suppressions`; a user has one for each kind. -/
structure EmailSuppression where
  userId : UserId
  kind : SuppressionKind
  reason : String
  source : String
  deriving DecidableEq

structure OutboundEmail where
  toAddress : String
  subject : String
  text : String
  html : String
  devLink : Option String
  idempotencyKey : Option String
  headers : List (String × String)
  deriving DecidableEq

/-- A message as it is stored: without its key. -/
structure Payload where
  toAddress : String
  subject : String
  text : String
  html : String
  headers : List (String × String)
  devLink : Option String
  deriving DecidableEq

inductive DeliveryStatus
  | claimed | sent | failed | skipped
  deriving DecidableEq

/-- What a delivery is about: a user has one for each kind and period. -/
structure DeliveryKey where
  userId : UserId
  kind : Kind
  periodKey : String
  deriving DecidableEq

/-- A row of `email_deliveries`. -/
structure EmailDelivery where
  key : DeliveryKey
  status : DeliveryStatus
  attempts : Nat
  lastError : Option String
  claimedAt : Int
  sentAt : Option Int
  payload : Option Payload
  deriving DecidableEq

structure EmailDb where
  users : List User
  tokens : List EmailVerificationToken
  suppressions : List EmailSuppression
  deliveries : List EmailDelivery
  deriving DecidableEq

namespace EmailDb

def user (db : EmailDb) (id : UserId) : Option User := db.users.find? (·.id == id)

def token (db : EmailDb) (tokenHash : String) : Option EmailVerificationToken :=
  db.tokens.find? (·.tokenHash == tokenHash)

def delivery (db : EmailDb) (key : DeliveryKey) : Option EmailDelivery := db.deliveries.find? (·.key == key)

def updateUser (db : EmailDb) (id : UserId) (f : User → User) : EmailDb :=
  { db with users := db.users.map fun u => if u.id == id then f u else u }

def updateTokens (db : EmailDb) (p : EmailVerificationToken → Bool)
    (f : EmailVerificationToken → EmailVerificationToken) : EmailDb :=
  { db with tokens := db.tokens.map fun t => if p t then f t else t }

def updateDelivery (db : EmailDb) (key : DeliveryKey) (f : EmailDelivery → EmailDelivery) : EmailDb :=
  { db with deliveries := db.deliveries.map fun d => if d.key == key then f d else d }

end EmailDb

/-- A bucket of tokens in Redis, and when it was filled. -/
structure Bucket where
  tokens : Rat
  ts : Int

/-- A refusal of the provider or of the sender's own guards, with the status of the answer if there was one. -/
structure EmailSendError where
  name : String
  status : Option Nat

/-- How a statement or a call fares: the outside decides. -/
inductive Fate
  | fine
  /-- `EmailSendError`, from a call to the sender. -/
  | refused (error : EmailSendError)
  /-- Any other exception. -/
  | broken

/-- The recap of a week as it is sent. -/
structure RecapText where
  subject : String
  text : String
  html : String

/-- What programs find outside these tables: Redis, the database's clock, what comes of the next step, and what the
rest of the program keeps about users. -/
structure Outside where
  cooldowns : List String
  buckets : String → Option Bucket
  clock : Int
  fate : Fate
  /-- `user_stats.last_active_local_date`. -/
  lastActive : UserId → Option Int
  /-- The length of the user's session of a date, if there is one. -/
  exerciseCount : UserId → String → Option Nat
  /-- The user's week before the one of a date; `none` for an empty week. -/
  recap : UserId → String → Option RecapText

/-- The row locks that the transactions wait for; `address` is the key of the unique index on verified addresses. -/
inductive EmailLock
  | user (id : UserId)
  | token (tokenHash : String)
  | address (email : List Char)
  | suppression (userId : UserId) (kind : SuppressionKind)
  | delivery (key : DeliveryKey)
  deriving DecidableEq

inductive EmailTbl
  | users | tokens | suppressions | deliveries
  deriving DecidableEq

/-- What an observer of a run sees. -/
inductive EmailEv
  /-- A route has loaded its user. -/
  | loaded (addresses : Addresses)
  /-- The tokens that the UPDATE of a route finds outstanding. -/
  | found (tokenHashes : List String)
  /-- A claim for the candidate's address, at the time of its transaction, and the address of the user at that moment. -/
  | claimed (key : DeliveryKey) (now : Int) (email : String) (address : Option String)
  /-- The sender is called. -/
  | called (key : DeliveryKey) (message : OutboundEmail)
  /-- The call is over. -/
  | answered (key : DeliveryKey)
  deriving DecidableEq

abbrev App : Iface where
  Db := EmailDb
  Kv := Outside
  Lock := EmailLock
  Tbl := EmailTbl
  Ev := EmailEv
  Err := Err

abbrev Handler := Prog App

end CodeReader.Email
