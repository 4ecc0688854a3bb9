import CodeReader.Core.Idempotency
import CodeReader.Streak.Service

/-!
# Submitting an attempt

The transaction of `POST /attempts` in the order of its statements: today's slots and the exercise, the lock of the
user's day, the check for an earlier attempt, the attempt row, the correctness stats, the streak with the attempt
count, the session's completion, the commit; then the stored response.

What a request takes from code outside this model (the sampled slots, the exercise row and the verdict of the
grader, the clock) stands in its `SubmitEnv`.  Concept states are not modelled.
-/

namespace CodeReader

open Txn Prog

/-! ## Requests -/

/-- `AttemptRequest`; the answer is its JSON text with sorted keys. -/
structure AttemptRequest where
  exerciseId : ExerciseId
  exerciseVersion : Int
  answer : String
  timeTakenMs : Option Int
  deriving DecidableEq

/-- What grading the answer comes to. -/
inductive Grade
  | skip
  | deterministic (isCorrect : Bool)
  | rubric (isCorrect : Bool)
  | rubricTimeout
  | rubricInvalid
  deriving DecidableEq

namespace Grade

def gradingMode : Grade → String
  | skip | deterministic _ => "deterministic"
  | rubric _ | rubricTimeout | rubricInvalid => "rubric"

def status : Grade → AttemptStatus
  | skip => .skipped
  | deterministic _ | rubric _ => .graded
  | rubricTimeout => .gradingPending
  | rubricInvalid => .gradingFailed

def isCorrect : Grade → Option Bool
  | deterministic b | rubric b => some b
  | skip | rubricTimeout | rubricInvalid => none

def gradedAt (now : Int) : Grade → Option Int
  | skip | deterministic _ | rubric _ => some now
  | rubricTimeout | rubricInvalid => none

end Grade

/-- A row of `exercises`, as far as a submission reads it, with what grading the answer against it gives: the
message of a malformed answer, or the grade. -/
structure ExerciseRow where
  type : String
  grading : Except String Grade

/-- A slot of today's session. -/
structure SessionSlot where
  exerciseId : ExerciseId
  version : Int
  deriving DecidableEq

/-- What a submission takes from outside: the token bucket's answer, the day and slots of `get_today_slots`, the
exercise row (`none`: no such row), the clock, the looks that `wait_for_cached` gets, and the rest of the body. -/
structure SubmitEnv where
  rateLimited : Bool
  today : Int
  slots : List SessionSlot
  exercise : Option ExerciseRow
  now : Int
  polls : Nat
  detail : String

/-! ## Stats -/

/-- `bump`: one more attempt of a type, and one more correct one. -/
def bumpAccuracy (accuracyByType : List (String × TypeCounts)) (exerciseType : String) (isCorrect : Bool) :
    List (String × TypeCounts) :=
  let counts := (accuracyByType.lookup exerciseType).getD ⟨0, 0⟩
  let counts := ⟨counts.attempts + 1, if isCorrect then counts.correct + 1 else counts.correct⟩
  if accuracyByType.any (·.1 == exerciseType) then
    accuracyByType.map fun entry => if entry.1 == exerciseType then (exerciseType, counts) else entry
  else accuracyByType ++ [(exerciseType, counts)]

/-- Bumps total_correct/accuracy_by_type. -/
def updateCorrectnessStats (cfg : Settings) (exerciseType : String) (isCorrect : Bool) : Handler StatsObject := do
  let o ← getOrCreateUserStats cfg none
  let stats := { o.current with
    totalCorrect := if isCorrect then o.current.totalCorrect + 1 else o.current.totalCorrect
    accuracyByType := bumpAccuracy o.current.accuracyByType exerciseType isCorrect }
  flushUserStats { o with current := stats }

/-- `stats.total_attempts += 1`. -/
def UserStats.attempted (stats : UserStats) : UserStats := { stats with totalAttempts := stats.totalAttempts + 1 }

/-- The stats after a transition to `toValue` on `today`. -/
def transitionStats (stats : UserStats) (toValue today : Int) : UserStats :=
  { stats with
    currentStreak := toValue
    longestStreak := max stats.longestStreak toValue
    lastActiveLocalDate := some today }

/-- The end of a first submission of the day: the transition row, behind the rows of the freezes spent for it, and
the freeze an extension may earn. -/
def recordTransition (cfg : Settings) (tx : Tx) (o : StatsObject) (spent : List NewEvent)
    (event : StreakEventKind) (fromValue toValue today : Int) : Handler (Option StreakInfo) := do
  let stats := transitionStats o.current toValue today
  let row : NewEvent := ⟨event, fromValue, toValue, today, none⟩
  let (stats, earned) := if event = .extended then accrueFreezeIfEarned cfg stats today else (stats, [])
  let _ ← flushUserStats { o with current := stats }
  insertStreakEvents tx (spent ++ [row] ++ earned)
  ret (some ⟨toValue, event⟩)

/-- Streak transition + total_attempts, independent of correctness. -/
def updateStreakAndAttemptCount (cfg : Settings) (tx : Tx) (held : Option StatsObject) (today : Int) :
    Handler (Option StreakInfo) := do
  let o ← getOrCreateUserStats cfg held
  let o := { o with current := o.current.attempted }
  if o.current.lastActiveLocalDate = some today then do
    -- already counted today: no streak transition, no ledger row
    let _ ← flushUserStats o
    ret none
  else
    let fromValue := o.current.currentStreak
    match o.current.lastActiveLocalDate with
    | none => recordTransition cfg tx o [] .extended fromValue (fromValue + 1) today
    | some lastActive =>
      if lastActive = today - 1 then
        recordTransition cfg tx o [] .extended fromValue (fromValue + 1) today
      else do
        match ← tryCoverGap cfg o lastActive today with
        | (o, some spent) => recordTransition cfg tx o spent .extended fromValue (fromValue + 1) today
        | (o, none) => recordTransition cfg tx o [] .reset fromValue 1 today

/-! ## The session -/

/-- How many of today's slots have no attempt. -/
def remainingCount (today : Int) (slots : List SessionSlot) : Handler Int :=
  if slots = [] then ret 0 else
    query .attempts fun rows =>
      let done := slots.countP fun s =>
        rows.attempts.any fun a => a.sessionDate == today && a.exerciseId == s.exerciseId
      max 0 ((slots.length : Int) - done)

/-- Completes today's session when nothing remains; whether it is the first session ever completed. -/
def completeSession (today now remaining : Int) : Handler Bool :=
  if remaining = 0 then do
    let row ← query .dailySessions fun rows => rows.sessions.find? (·.sessionDate == today)
    match row with
    | some ⟨_, none⟩ => do
      lockOn (.dailySessionRow today)
      update fun rows => { rows with
        sessions := rows.sessions.map fun s =>
          if s.sessionDate = today then { s with completedAt := some now } else s }
      let completed ← query .dailySessions fun rows => rows.sessions.countP (·.completedAt.isSome)
      ret (completed == 1)
    | _ => ret false
  else ret false

/-! ## The transaction -/

def attemptsNamespace : String := "attempts"

/-- The attempt row of a request. -/
def SubmitEnv.attempt (env : SubmitEnv) (tx : Tx) (payload : AttemptRequest) (grade : Grade) : Attempt where
  id := tx.attemptId
  exerciseId := payload.exerciseId
  exerciseVersion := payload.exerciseVersion
  sessionDate := env.today
  answer := payload.answer
  gradingMode := grade.gradingMode
  status := grade.status
  isCorrect := grade.isCorrect
  timeTakenMs := payload.timeTakenMs
  createdAt := env.now
  gradedAt := grade.gradedAt env.now

/-- Before the transaction's lock: the slot of the request, its exercise, and the shape of the answer. -/
def checkRequest (env : SubmitEnv) (payload : AttemptRequest) : Handler (String × Grade) :=
  if ¬ env.slots.any (fun s => s.exerciseId == payload.exerciseId && s.version == payload.exerciseVersion) then
    raise (.api 403 "exercise_not_in_session" "This exercise is not part of your current session.")
  else
    match env.exercise with
    | none => raise (.api 404 "not_found" "Exercise not found.")
    | some ⟨_, .error message⟩ => raise (.api 422 "answer_shape_mismatch" message)
    | some ⟨type, .ok grade⟩ => ret (type, grade)

/-- The correctness stats of a real verdict; the session then holds the stats row. -/
def recordVerdict (cfg : Settings) (type : String) (grade : Grade) : Handler (Option StatsObject) :=
  match grade.isCorrect with
  | some isCorrect => do
    let o ← updateCorrectnessStats cfg type isCorrect
    ret (some o)
  | none => ret none

/-- From the lock of the user's day to the commit: the rows of the submission, and its response. -/
def storeAttempt (cfg : Settings) (env : SubmitEnv) (tx : Tx) (payload : AttemptRequest) (type : String)
    (grade : Grade) : Handler AttemptResponse := do
  lockOn (.advisory (isoformat env.today))
  let already ← query .attempts fun rows =>
    rows.attempts.any fun a => a.exerciseId == payload.exerciseId && a.sessionDate == env.today
  if already then
    raise (.api 409 "already_attempted" "You already submitted this exercise today.")
  else do
    update fun rows => { rows with attempts := rows.attempts ++ [env.attempt tx payload grade] }
    let held ← recordVerdict cfg type grade
    let streak ← updateStreakAndAttemptCount cfg tx held env.today
    let remaining ← remainingCount env.today env.slots
    let first ← completeSession env.today env.now remaining
    commitTx
    ret ⟨tx.attemptId, grade.status, grade.isCorrect, streak, remaining == 0, remaining, first, env.detail⟩

def buildAndStoreAttempt (cfg : Settings) (env : SubmitEnv) (tx : Tx) (idempotencyKey : String)
    (payload : AttemptRequest) (reqHash : String) : Handler Body := do
  let (type, grade) ← checkRequest env payload
  let response ← storeAttempt cfg env tx payload type grade
  note (.computed payload.exerciseId env.today (.attempt response))
  store attemptsNamespace idempotencyKey reqHash 200 (.attempt response)
  ret (.attempt response)

/-! ## The request -/

structure AttemptOutcome where
  statusCode : Nat
  body : Body
  isReplay : Bool
  deriving DecidableEq

/-- The answer from a record: a replay, or a conflict when the record is of another body. -/
def replay (reqHash : String) (record : IdempotencyRecord) : Handler AttemptOutcome :=
  if record.requestHash ≠ reqHash then raise idempotencyConflict
  else ret ⟨record.statusCode, record.body, true⟩

def fresh (cfg : Settings) (env : SubmitEnv) (tx : Tx) (idempotencyKey : String) (payload : AttemptRequest)
    (reqHash : String) : Handler AttemptOutcome := do
  let body ← buildAndStoreAttempt cfg env tx idempotencyKey payload reqHash
  ret ⟨200, body, false⟩

/-- `submit_attempt`; `requestHash` is the hash of the request's body. -/
def submitAttempt (cfg : Settings) (requestHash : AttemptRequest → String) (env : SubmitEnv) (tx : Tx)
    (idempotencyKey : String) (payload : AttemptRequest) : Handler AttemptOutcome := do
  let reqHash := requestHash payload
  if env.rateLimited then
    raise (.api 429 "rate_limited" "Too many requests.")
  else do
    match ← getCached attemptsNamespace idempotencyKey with
    | some record => replay reqHash record
    | none => do
      if ← acquireReservation attemptsNamespace idempotencyKey then
        (fresh cfg env tx idempotencyKey payload reqHash).andFinally
          (releaseReservation attemptsNamespace idempotencyKey)
      else do
        match ← waitForCached attemptsNamespace idempotencyKey env.polls with
        | some record => replay reqHash record
        | none => fresh cfg env tx idempotencyKey payload reqHash

end CodeReader
