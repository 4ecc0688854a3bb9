import CodeReader.Email.Service

/-!
# Consent, and the ledger of notifications

* `optedOut` — the filter of the two jobs, and `address` — where a user may be mailed;
* `suppress`, `unsuppress`, `emailPreferences` — consent, and its routes `patchEmailPrefs` and `applyUnsubscribe`;
* `claimPeriod` — the one sender of a user, a kind and a period;
* `markSent`, `markFailed`, `markSkipped`, `storePayload` — what comes of it.
-/

namespace CodeReader.Email

open Txn Prog

/-! ## Consent -/

namespace EmailDb

def suppression (db : EmailDb) (id : UserId) (kind : SuppressionKind) : Bool :=
  db.suppressions.any fun s => s.userId == id && s.kind == kind

/-- `suppressed_kinds`, for one kind: `all` is expanded. -/
def isSuppressed (db : EmailDb) (id : UserId) (kind : Kind) : Bool :=
  let kinds := (db.suppressions.filter fun s => s.userId == id).map (·.kind)
  kinds.contains (.only kind) || kinds.contains .all

/-- The filter of the jobs: a suppression of the kind, or of all. -/
def optedOut (db : EmailDb) (id : UserId) (kind : Kind) : Bool :=
  db.suppressions.any fun s => s.userId == id && (s.kind == .only kind || s.kind == .all)

end EmailDb

/-- The owner-visible consent. -/
structure EmailPreferences where
  remindersEnabled : Bool
  recapEnabled : Bool
  deriving DecidableEq

def emailPreferences (db : EmailDb) (id : UserId) : EmailPreferences :=
  ⟨!db.isSuppressed id .reminder, !db.isSuppressed id .recap⟩

def EmailPreferences.enabled (p : EmailPreferences) : Kind → Bool
  | .reminder => p.remindersEnabled
  | .recap => p.recapEnabled

/-- Opts out.  A row that is there stays as it is. -/
def suppress (id : UserId) (kind : SuppressionKind) (reason source : String) : Handler Unit := do
  lockOn (.suppression id kind)
  if ← query .suppressions fun db => db.suppression id kind then ret ()
  else if ← query .users fun db => (db.user id).isNone then
    raise (.integrity "email_suppressions_user_id_fkey")
  else update fun db => { db with suppressions := db.suppressions ++ [⟨id, kind, reason, source⟩] }

/-- Opts back in. -/
def unsuppress (id : UserId) (kind : SuppressionKind) : Handler Unit := do
  lockOn (.suppression id kind)
  update fun db => { db with
    suppressions := db.suppressions.filter fun s => !(s.userId == id && s.kind == kind) }

/-- A field of the request: not given, null, or a value. -/
structure EmailPrefsRequest where
  remindersEnabled : Option (Option Bool)
  recapEnabled : Option (Option Bool)

/-- `none` when the field is skipped. -/
def EmailPrefsRequest.field (payload : EmailPrefsRequest) : Kind → Option Bool
  | .reminder => payload.remindersEnabled.join
  | .recap => payload.recapEnabled.join

def applyPref (id : UserId) (payload : EmailPrefsRequest) (kind : Kind) : Handler Unit :=
  match payload.field kind with
  | none => ret ()
  | some true => unsuppress id (.only kind)
  | some false => suppress id (.only kind) "unsubscribe" "profile"

/-- `PATCH /me/email-prefs`. -/
def patchEmailPrefs (id : UserId) (payload : EmailPrefsRequest) : Handler EmailPreferences := do
  applyPref id payload .reminder
  applyPref id payload .recap
  commitTx
  query .suppressions fun db => emailPreferences db id

def unsubscribeFailed : Err := .api 400 "unsubscribe_failed" "That unsubscribe link is not valid."

/-- `POST /unsubscribe`. -/
def applyUnsubscribe (settings : Settings) (token : String) : Handler SuppressionKind :=
  match settings.parseUnsubscribeToken token with
  | none => raise unsubscribeFailed
  | some (id, kind) => do
    suppress id kind "unsubscribe" "email_link"
    commitTx
    return kind

/-! ## The ledger -/

/-- The settings of the ledger. -/
structure LedgerSettings where
  /-- `EMAIL_SEND_MAX_ATTEMPTS`. -/
  maxAttempts : Nat
  /-- `EMAIL_SEND_RETRY_WINDOW_H` in microseconds. -/
  retryWindow : Nat

/-- The verified address of the user, unless it has opted out of the kind. -/
def EmailDb.address (db : EmailDb) (key : DeliveryKey) : Option String :=
  (db.user key.userId).bind fun u =>
    if u.emailVerifiedAt.isSome && !db.optedOut key.userId key.kind then u.email else none

namespace EmailDelivery

/-- The row of a first claim. -/
def opened (key : DeliveryKey) (now : Int) : EmailDelivery where
  key := key
  status := .claimed
  attempts := 1
  lastError := none
  claimedAt := now
  sentAt := none
  payload := none

/-- Failed, with an attempt left, and claimed within the window. -/
def retryable (settings : LedgerSettings) (now : Int) (d : EmailDelivery) : Bool :=
  d.status == .failed && decide (d.attempts < settings.maxAttempts) && decide (now - settings.retryWindow < d.claimedAt)

def reclaimed (now : Int) (d : EmailDelivery) : EmailDelivery :=
  { d with status := .claimed, attempts := d.attempts + 1, claimedAt := now }

def finished (status : DeliveryStatus) (lastError : Option String) (now : Int) (d : EmailDelivery) : EmailDelivery :=
  { d with status, lastError, sentAt := if status = .sent then some now else d.sentAt }

end EmailDelivery

/-- Try to become the one sender; the time is that of the transaction.  An observer sees the claim. -/
def claimPeriod (settings : LedgerSettings) (key : DeliveryKey) (email : String) : Handler Bool := do
  let now ← cmd fun o : Outside => (o.clock, o)
  lockOn (.delivery key)
  let (row, address) ← query .deliveries fun db => (db.delivery key, db.address key)
  match row with
  | none =>
    if ← query .users fun db => (db.user key.userId).isNone then raise (.integrity "email_deliveries_user_id_fkey")
    else
      update fun db => { db with deliveries := db.deliveries ++ [.opened key now] }
      note (.claimed key now email address)
      return true
  | some row =>
    if row.retryable settings now then
      update fun db => db.updateDelivery key (.reclaimed now)
      note (.claimed key now email address)
      return true
    else return false

/-- `_finish`. -/
def finish (key : DeliveryKey) (status : DeliveryStatus) (lastError : Option String) (now : Int) : Handler Unit := do
  lockOn (.delivery key)
  update fun db => db.updateDelivery key (.finished status lastError now)

/-- Terminal: the provider accepted. -/
def markSent (key : DeliveryKey) (now : Int) : Handler Unit := finish key .sent none now

/-- A definite failure: the period becomes retryable. -/
def markFailed (key : DeliveryKey) (error : String) (now : Int) : Handler Unit := finish key .failed (some error) now

/-- Terminal, and not a send. -/
def markSkipped (key : DeliveryKey) (skipNote : String) (now : Int) : Handler Unit := finish key .skipped (some skipNote) now

/-- The payload of the first attempt, if it has been rendered. -/
def readPayload (key : DeliveryKey) : Handler (Option Payload) :=
  query .deliveries fun db => (db.delivery key).bind (·.payload)

def storePayload (key : DeliveryKey) (payload : Payload) : Handler Unit := do
  lockOn (.delivery key)
  update fun db => db.updateDelivery key fun d => { d with payload := some payload }

end CodeReader.Email
