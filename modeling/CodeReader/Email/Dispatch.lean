import CodeReader.Email.Candidates
import CodeReader.Email.Spec
import CodeReader.Text.Hex
import CodeReader.Txn.Script

/-!
# The sweep of the two jobs

Claim, commit, send, record: each candidate of a tick in sessions of its own, so that an exception ends nothing but the
candidate it comes from.

* `reminderEmail`, `recapEmail` — the messages; `payloadFromMessage`, `messageFromPayload` — what is kept of one;
* `claimSession`, `work` — the two sessions of a candidate; `deliver` — the call to the sender, and its record;
* `runSweep`, `Task.script` — a tick, and the requests of users beside it;
* `Mail.start` — any number of them.
-/

namespace CodeReader.Email

open Txn Prog

structure SweepSettings extends JobSettings, LedgerSettings where
  email : Settings
  /-- `EMAIL_MAX_SENDS_PER_TICK`. -/
  maxSendsPerTick : Nat
  /-- `PRIMARY_APP_ORIGIN`. -/
  appOrigin : String
  /-- The address of `EMAIL_FROM`. -/
  fromAddress : String
  mintUnsubscribeToken : UserId → Kind → String

def Candidate.key (c : Candidate) (kind : Kind) : DeliveryKey := ⟨c.userId, kind, c.periodKey⟩

/-! ## Messages -/

/-- Deterministic from the ledger identity. -/
def deliveryIdempotencyKey (key : DeliveryKey) : String :=
  s!"{key.kind.name}:{Text.uuidText key.userId}:{key.periodKey}"

/-- The bytes that are sent again; the key is left out. -/
def payloadFromMessage (message : OutboundEmail) : Payload where
  toAddress := message.toAddress
  subject := message.subject
  text := message.text
  html := message.html
  headers := message.headers
  devLink := message.devLink

def messageFromPayload (payload : Payload) : OutboundEmail where
  toAddress := payload.toAddress
  subject := payload.subject
  text := payload.text
  html := payload.html
  devLink := payload.devLink
  idempotencyKey := none
  headers := payload.headers

/-- The message as the sender gets it. -/
def OutboundEmail.keyed (message : OutboundEmail) (key : DeliveryKey) : OutboundEmail :=
  { message with idempotencyKey := some (deliveryIdempotencyKey key) }

section Messages

variable (settings : SweepSettings)

def unsubscribePageUrl (id : UserId) (kind : Kind) : String :=
  s!"{settings.appOrigin}/unsubscribe?token={settings.mintUnsubscribeToken id kind}"

def unsubscribeApiUrl (id : UserId) (kind : Kind) : String :=
  s!"{settings.appOrigin}/v1/unsubscribe?token={settings.mintUnsubscribeToken id kind}"

def unsubscribeHeaders (id : UserId) (kind : Kind) : List (String × String) :=
  [("List-Unsubscribe",
      s!"<{unsubscribeApiUrl settings id kind}>, <mailto:{settings.fromAddress}?subject=unsubscribe-{kind.name}>"),
    ("List-Unsubscribe-Post", "List-Unsubscribe=One-Click")]

def reminderHeadline : Option Nat → String
  | none => "Today's session is ready."
  | some 1 => "Today's session is ready: one exercise to read."
  | some n => s!"Today's session is ready: {n} exercises to read."

def reminderEmail (toAddress : String) (id : UserId) (exerciseCount : Option Nat) : OutboundEmail where
  toAddress := toAddress
  subject := "Your Reedkode session is ready"
  text := s!"{reminderHeadline exerciseCount}\n\n{settings.appOrigin}/session\n\nFive to ten minutes, whenever it suits you." ++
    "\n\nYou get this because you added your address to Reedkode.\n" ++
    s!"Turn off reminders: {unsubscribePageUrl settings id .reminder}\n"
  html := s!"<p>{reminderHeadline exerciseCount}</p><p><a href=\"{settings.appOrigin}/session\">Open today's session</a></p>" ++
    "<p>Five to ten minutes, whenever it suits you.</p><hr><p>You get this because you added your address to Reedkode. " ++
    s!"<a href=\"{unsubscribePageUrl settings id .reminder}\">Turn off reminders</a>.</p>"
  devLink := some (unsubscribePageUrl settings id .reminder)
  idempotencyKey := none
  headers := unsubscribeHeaders settings id .reminder

def recapEmail (toAddress : String) (id : UserId) (recap : RecapText) : OutboundEmail where
  toAddress := toAddress
  subject := recap.subject
  text := recap.text
  html := recap.html
  devLink := some (unsubscribePageUrl settings id .recap)
  idempotencyKey := none
  headers := unsubscribeHeaders settings id .recap

end Messages

/-! ## The sessions of a candidate -/

def interrupted : Err := .integrity "interrupted"

/-- An exception may come at any statement. -/
def attempt : Handler Unit := do
  match ← cmd fun o : Outside => (o.fate, o) with
  | .broken => raise interrupted
  | _ => ret ()

/-- The time at which a transaction begins. -/
def transactionTime : Handler Int := cmd fun o : Outside => (o.clock, o)

inductive Answer
  | candidates (cs : List Candidate)
  | notClaimed | claimed | skipped | failed | sent
  | reply (r : EmailReply)

/-- The claim is committed before the provider is called. -/
def claimSession (settings : SweepSettings) (kind : Kind) (c : Candidate) : Handler Answer := do
  attempt
  if ← claimPeriod settings.toLedgerSettings (c.key kind) c.email then
    attempt
    commitTx
    attempt
    return .claimed
  else return .notClaimed

/-- `build_message` of the two jobs; `none` for an empty week. -/
def build (settings : SweepSettings) (kind : Kind) (c : Candidate) : Handler (Option OutboundEmail) := do
  attempt
  match kind with
  | .reminder =>
    let count ← cmd fun o : Outside => (o.exerciseCount c.userId c.periodKey, o)
    return some (reminderEmail settings c.email c.userId (count.filter (· ≠ 0)))
  | .recap =>
    let recap ← cmd fun o : Outside => (o.recap c.userId c.periodKey, o)
    return recap.map (recapEmail settings c.email c.userId)

/-- The sender is called, and answers, refuses, or is broken off. -/
def send (key : DeliveryKey) (message : OutboundEmail) : Handler (Option EmailSendError) := do
  note (.called key message)
  let fate ← cmd fun o : Outside => (o.fate, o)
  note (.answered key)
  match fate with
  | .fine => return none
  | .refused error => return some error
  | .broken => raise interrupted

/-- The type of the exception, and the status. -/
def EmailSendError.detail (e : EmailSendError) : String :=
  match e.status with
  | none => e.name
  | some status => s!"{e.name} {status}"

/-- The call, and its record; `began` is when the transaction began, if one is open. -/
def deliver (key : DeliveryKey) (message : OutboundEmail) (began : Option Int) : Handler Answer := do
  let error ← send key (message.keyed key)
  attempt
  let now ← match began with
    | some t => ret t
    | none => transactionTime
  match error with
  | some e =>
    markFailed key e.detail now
    attempt
    commitTx
    attempt
    return .failed
  | none =>
    markSent key now
    attempt
    commitTx
    attempt
    return .sent

/-- Rendered once for each period, and then sent again as it was. -/
def work (settings : SweepSettings) (kind : Kind) (c : Candidate) : Handler Answer := do
  let key := c.key kind
  attempt
  let began ← transactionTime
  match ← readPayload key with
  | some payload => deliver key (messageFromPayload payload) (some began)
  | none =>
    match ← build settings kind c with
    | none =>
      attempt
      markSkipped key "nothing to report" began
      attempt
      commitTx
      attempt
      return .skipped
    | some message =>
      attempt
      storePayload key (payloadFromMessage message)
      attempt
      commitTx
      attempt
      deliver key message none

/-! ## Ticks -/

/-- Each candidate in its turn, up to the cap. -/
def runSweep (settings : SweepSettings) (kind : Kind) : List Candidate → Nat → Script App Answer
  | [], _ => .stop
  | c :: cs, attempted =>
    if settings.maxSendsPerTick ≤ attempted then .stop
    else .session (claimSession settings kind c) fun claim =>
      match claim with
      | .ok .claimed => .session (work settings kind c) fun _ => runSweep settings kind cs (attempted + 1)
      | _ => runSweep settings kind cs attempted

/-- Who is due at the time of the tick. -/
def findSession (settings : SweepSettings) (kind : Kind) : Handler Answer := do
  attempt
  let now ← transactionTime
  let lastActive ← cmd fun o : Outside => (o.lastActive, o)
  let cs ← query .users fun db => (Tick.mk db lastActive now).candidates settings.toJobSettings kind
  return .candidates cs

/-- A tick of a job, or a request of a user. -/
inductive Task
  | tick (kind : Kind)
  | request (op : EmailOp)

def Task.script (settings : SweepSettings) : Task → Script App Answer
  | tick kind => .session (findSession settings kind) fun found =>
    match found with
    | .ok (.candidates cs) => runSweep settings kind cs 0
    | _ => .stop
  | request op => .session (op.program settings.email >>= fun r => ret (.reply r)) fun _ => .stop

/-- Any number of ticks and requests at their start. -/
def Mail.start {τ : Type} (settings : SweepSettings) (task : τ → Task) (db : EmailDb) (kv : Outside) : Scripts App τ Answer :=
  .start db kv fun i => (task i).script settings

end CodeReader.Email
