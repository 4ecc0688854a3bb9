import CodeReader.Attempts.Service
import CodeReader.Txn.Lift

/-!
# Concept states and deferred grading

The rows of one user again, with the concept states and the grader's output of each attempt:

* `GradingRows`, `GradingApp`, `userPart` — the larger tables, and the user's rows as a part of them;
* `updateConceptState` — the concept states after an outcome;
* `storeAttempt`, `submitAttempt` — a submission that also updates them;
* `resolvePendingSummarizeGrades` — the job that grades the attempts again that are pending.

A statement on the user's rows is the one of the smaller model, lifted.  The exercises stand in a `Catalog`, and what
the grader answers in the environment of a request.
-/

namespace CodeReader.Grading

open Txn Prog

/-! ## Tables -/

/-- A row of `user_concept_state`; the mastery in thousandths. -/
structure ConceptState where
  concept : String
  mastery : Int
  attempts : Int
  correct : Int
  declined : Int
  lastSeenAt : Option Int
  nextReviewAt : Option Int
  deriving DecidableEq

/-- The values of `attempts.grader_output`: a count of retries while pending, or the result of the rubric. -/
inductive GraderOutput
  | retryCount (n : Int)
  | rubric (text : String)
  deriving DecidableEq

/-- The rows of one user; `graderOutput` is the column of `attempts`, by id. -/
structure GradingRows where
  user : UserRows
  conceptStates : List ConceptState
  graderOutput : Nat → Option GraderOutput

def GradingRows.created (timezone : String) : GradingRows := ⟨.created timezone, [], fun _ => none⟩

inductive GradingLock
  | user (r : Lock)
  | attemptRow (id : Nat)
  | conceptStateRow (concept : String)
  deriving DecidableEq

inductive GradingTbl
  | user (t : Tbl)
  | userConceptState
  deriving DecidableEq

abbrev GradingApp : Iface := App.over GradingRows GradingLock GradingTbl

abbrev GradingHandler := Prog GradingApp

/-- The user's rows in the larger tables. -/
def userPart : Part App GradingRows GradingLock GradingTbl where
  get := (·.user)
  set user rows := { rows with user := user }
  lock := .user
  tbl := .user
  get_set _ _ := rfl
  set_set _ _ _ := rfl
  set_get _ := rfl

/-- The type and the concepts of an exercise. -/
structure CatalogExercise where
  type : String
  concepts : List String

/-- The exercises by id and version. -/
abbrev Catalog := ExerciseId → Int → Option CatalogExercise

/-! ## Concept states -/

inductive ConceptOutcome
  | correct | incorrect | skipped
  deriving DecidableEq

/-- `n / d` rounded to an integer, halves to the even one. -/
def quantize (n d : Int) : Int :=
  let q := n / d
  let r := n % d
  if 2 * r < d ∨ 2 * r = d ∧ q % 2 = 0 then q else q + 1

def conceptIntervalWrongDays : Int := 2
def conceptIntervalRightDays : Int := 7
def conceptIntervalRightAgainDays : Int := 21
def conceptIntervalSkippedDays : Int := 1

def newConceptState (concept : String) : ConceptState := ⟨concept, 0, 0, 0, 0, none, none⟩

/-- The concept state after an outcome. -/
def ConceptState.practised (row : ConceptState) (outcome : ConceptOutcome) (now : Int) : ConceptState :=
  if outcome = .skipped then
    -- a skip never counts as an attempt, and decays the mastery less than a wrong answer
    { row with
      declined := row.declined + 1
      mastery := quantize (row.mastery * 85) 100
      nextReviewAt := some (now + conceptIntervalSkippedDays * microsPerDay)
      lastSeenAt := some now }
  else
    let isCorrect : Bool := outcome = .correct
    let target := if isCorrect then 1000 else 0
    let intervalDays :=
      if ¬ isCorrect then conceptIntervalWrongDays
      else if 0 < row.correct then conceptIntervalRightAgainDays
      else conceptIntervalRightDays
    { row with
      attempts := row.attempts + 1
      correct := if isCorrect then row.correct + 1 else row.correct
      mastery := quantize (row.mastery * 7 + target * 3) 10
      nextReviewAt := some (now + intervalDays * microsPerDay)
      lastSeenAt := some now }

/-- The assignments of an `UPDATE` that sets the columns in which `new` differs from `old`. -/
def ConceptState.setChanged (old new row : ConceptState) : ConceptState where
  concept := row.concept
  mastery := if new.mastery = old.mastery then row.mastery else new.mastery
  attempts := if new.attempts = old.attempts then row.attempts else new.attempts
  correct := if new.correct = old.correct then row.correct else new.correct
  declined := if new.declined = old.declined then row.declined else new.declined
  lastSeenAt := if new.lastSeenAt = old.lastSeenAt then row.lastSeenAt else new.lastSeenAt
  nextReviewAt := if new.nextReviewAt = old.nextReviewAt then row.nextReviewAt else new.nextReviewAt

/-- The update of the row that a flush finds changed; it locks the row. -/
def flushConceptState (old new : ConceptState) : GradingHandler Unit :=
  if new = old then ret () else do
    lockOn (.conceptStateRow old.concept)
    update fun rows => { rows with
      conceptStates := rows.conceptStates.map fun row =>
        if row.concept = old.concept then ConceptState.setChanged old new row else row }

/-- `db.add(row)` and its flush: the insert waits for a transaction that inserted the row before it. -/
def insertConceptState (row : ConceptState) : GradingHandler ConceptState := do
  lockOn (.conceptStateRow row.concept)
  let taken ← query .userConceptState fun rows => rows.conceptStates.any (·.concept == row.concept)
  if taken then
    raise (.integrity "user_concept_state_pkey")
  else do
    update fun rows => { rows with conceptStates := rows.conceptStates ++ [row] }
    ret row

/-- `db.get(UserConceptState, (user.id, concept))`, from the session when it holds the row, and a new row when there
is none. -/
def getOrCreateConceptState (held : List ConceptState) (concept : String) : GradingHandler ConceptState :=
  match held.find? (·.concept == concept) with
  | some row => ret row
  | none => do
    match ← query .userConceptState fun rows => rows.conceptStates.find? (·.concept == concept) with
    | some row => ret row
    | none => insertConceptState (newConceptState concept)

/-- The rows of the concepts updated one after another; the session then holds them. -/
def updateConceptState (held : List ConceptState) (outcome : ConceptOutcome) (now : Int) :
    List String → GradingHandler (List ConceptState)
  | [] => ret held
  | concept :: concepts => do
    let row ← getOrCreateConceptState held concept
    flushConceptState row (row.practised outcome now)
    updateConceptState (row.practised outcome now :: held) outcome now concepts

/-! ## Submissions -/

/-- What a grade says about the concepts; nothing while it is pending, or failed. -/
def conceptOutcome : Grade → Option ConceptOutcome
  | .skip => some .skipped
  | .deterministic b | .rubric b => some (if b then .correct else .incorrect)
  | .rubricTimeout | .rubricInvalid => none

/-- The concept states of a skip or a verdict. -/
def recordConcepts (concepts : List String) (grade : Grade) (now : Int) : GradingHandler Unit :=
  match conceptOutcome grade with
  | none => ret ()
  | some outcome => do
    let _ ← updateConceptState [] outcome now concepts
    ret ()

/-- `grader_output` of a new attempt. -/
def graderOutputOf (output : String) : Grade → Option GraderOutput
  | .rubric _ => some (.rubric output)
  | .skip | .deterministic _ | .rubricTimeout | .rubricInvalid => none

/-- A submission of an exercise: its environment, with the grade of the answer and the grader's output. -/
structure Submitting where
  env : SubmitEnv
  grading : Except String Grade
  output : String

/-- The environment of a submission, with the exercise of the catalogue. -/
def Submitting.envOf (cat : Catalog) (payload : AttemptRequest) (e : Submitting) : SubmitEnv :=
  { e.env with exercise := (cat payload.exerciseId payload.exerciseVersion).map fun x => ⟨x.type, e.grading⟩ }

/-- The concepts of an exercise. -/
def Catalog.concepts (cat : Catalog) (id : ExerciseId) (version : Int) : List String :=
  ((cat id version).map (·.concepts)).getD []

/-- From the lock of the user's day to the commit: the rows of the submission with its concept states. -/
def storeAttempt (cfg : Settings) (env : SubmitEnv) (tx : Tx) (payload : AttemptRequest) (type : String)
    (concepts : List String) (grade : Grade) (output : String) : GradingHandler AttemptResponse := do
  lockOn (.user (.advisory (isoformat env.today)))
  let already ← query (.user .attempts) fun rows =>
    rows.user.attempts.any fun a => a.exerciseId == payload.exerciseId && a.sessionDate == env.today
  if already then
    raise (.api 409 "already_attempted" "You already submitted this exercise today.")
  else do
    update fun rows => { rows with
      user := { rows.user with attempts := rows.user.attempts ++ [env.attempt tx payload grade] }
      graderOutput := Function.update rows.graderOutput tx.attemptId (graderOutputOf output grade) }
    recordConcepts concepts grade env.now
    let held ← (recordVerdict cfg type grade).lift userPart
    let streak ← (updateStreakAndAttemptCount cfg tx held env.today).lift userPart
    let remaining ← (remainingCount env.today env.slots).lift userPart
    let first ← (completeSession env.today env.now remaining).lift userPart
    commitTx
    ret ⟨tx.attemptId, grade.status, grade.isCorrect, streak, remaining == 0, remaining, first, env.detail⟩

/-- The transaction of a submission: its checks, and its rows. -/
def attemptTransaction (cfg : Settings) (cat : Catalog) (e : Submitting) (tx : Tx) (payload : AttemptRequest) :
    GradingHandler AttemptResponse := do
  let (type, grade) ← (checkRequest (e.envOf cat payload) payload).lift userPart
  storeAttempt cfg (e.envOf cat payload) tx payload type (cat.concepts payload.exerciseId payload.exerciseVersion)
    grade e.output

def buildAndStoreAttempt (cfg : Settings) (cat : Catalog) (e : Submitting) (tx : Tx) (idempotencyKey : String)
    (payload : AttemptRequest) (reqHash : String) : GradingHandler AttemptOutcome := do
  let response ← attemptTransaction cfg cat e tx payload
  note (.computed payload.exerciseId e.env.today (.attempt response))
  (store attemptsNamespace idempotencyKey reqHash 200 (.attempt response)).lift userPart
  ret ⟨200, .attempt response, false⟩

/-- `submit_attempt`. -/
def submitAttempt (cfg : Settings) (requestHash : AttemptRequest → String) (cat : Catalog) (e : Submitting) (tx : Tx)
    (idempotencyKey : String) (payload : AttemptRequest) : GradingHandler AttemptOutcome := do
  let reqHash := requestHash payload
  if e.env.rateLimited then
    raise (.api 429 "rate_limited" "Too many requests.")
  else do
    match ← (getCached attemptsNamespace idempotencyKey).lift userPart with
    | some record => (replay reqHash record).lift userPart
    | none => do
      if ← (acquireReservation attemptsNamespace idempotencyKey).lift userPart then
        (buildAndStoreAttempt cfg cat e tx idempotencyKey payload reqHash).andFinally
          ((releaseReservation attemptsNamespace idempotencyKey).lift userPart)
      else do
        match ← (waitForCached attemptsNamespace idempotencyKey e.env.polls).lift userPart with
        | some record => (replay reqHash record).lift userPart
        | none => buildAndStoreAttempt cfg cat e tx idempotencyKey payload reqHash

/-! ## Deferred grading -/

def maxRetryAttempts : Int := 3

/-- Which rows `LIMIT n` gives, in what order. -/
structure Selection (n : Nat) where
  pick : List Attempt → List Attempt
  mem : ∀ rows, ∀ a ∈ pick rows, a ∈ rows
  distinct : ∀ rows, ((pick rows).map Attempt.id).Nodup
  bounded : ∀ rows, (pick rows).length ≤ n

/-- What `grade_rubric` answers. -/
inductive RubricResult
  | invalid
  | timeout
  | graded (isCorrect : Bool) (output : String)
  deriving DecidableEq

/-- What a run of the job takes from outside: the rows that the query gives, and for each attempt the grader's answer
and the clock. -/
structure RetryEnv where
  limit : Nat
  selection : Selection limit
  grade : Nat → RubricResult
  clock : Nat → Int

structure RetrySummary where
  resolved : Int
  failed : Int
  stillPending : Int
  deriving DecidableEq

/-- The rows that the job's session holds. -/
structure RetrySession where
  stats : Option StatsObject
  concepts : List ConceptState

/-- The `grading_pending` rows, as many as the limit, with their output. -/
def picked (env : RetryEnv) (rows : GradingRows) : List (Attempt × Option GraderOutput) :=
  (env.selection.pick (rows.user.attempts.filter (·.status == .gradingPending))).map fun a => (a, rows.graderOutput a.id)

def pendingAttempts (env : RetryEnv) : GradingHandler (List (Attempt × Option GraderOutput)) :=
  query (.user .attempts) (picked env)

/-- The update of one attempt; it locks the row. -/
def updateAttempt (id : Nat) (values : Attempt → Attempt) (output : Option GraderOutput) : GradingHandler Unit := do
  lockOn (.attemptRow id)
  update fun rows => { rows with
    user := { rows.user with attempts := rows.user.attempts.map fun a => if a.id = id then values a else a }
    graderOutput := Function.update rows.graderOutput id output }

/-- `(grader_output or {}).get("_retry_count", 0)`. -/
def retryCountOf : Option GraderOutput → Int
  | some (.retryCount n) => n
  | _ => 0

/-- `update_correctness_stats`, in a session that may hold the stats. -/
def updateHeldStats (cfg : Settings) (held : Option StatsObject) (exerciseType : String) (isCorrect : Bool) :
    Handler StatsObject := do
  let o ← getOrCreateUserStats cfg held
  let stats := { o.current with
    totalCorrect := if isCorrect then o.current.totalCorrect + 1 else o.current.totalCorrect
    accuracyByType := bumpAccuracy o.current.accuracyByType exerciseType isCorrect }
  flushUserStats { o with current := stats }

theorem updateCorrectnessStats_eq (cfg : Settings) (exerciseType : String) (isCorrect : Bool) :
    updateCorrectnessStats cfg exerciseType isCorrect = updateHeldStats cfg none exerciseType isCorrect := rfl

/-- One turn of the job's loop. -/
def resolveAttempt (cfg : Settings) (cat : Catalog) (env : RetryEnv) (attempt : Attempt)
    (graderOutput : Option GraderOutput) (held : RetrySession) (summary : RetrySummary) :
    GradingHandler (RetrySession × RetrySummary) :=
  match cat attempt.exerciseId attempt.exerciseVersion with
  | none => ret (held, summary)
  | some exercise =>
    match env.grade attempt.id with
    | .invalid => do
      updateAttempt attempt.id (fun a => { a with status := .gradingFailed }) none
      ret (held, { summary with failed := summary.failed + 1 })
    | .timeout => do
      let retryCount := retryCountOf graderOutput + 1
      if maxRetryAttempts ≤ retryCount then do
        updateAttempt attempt.id (fun a => { a with status := .gradingFailed }) none
        ret (held, { summary with failed := summary.failed + 1 })
      else do
        updateAttempt attempt.id id (some (.retryCount retryCount))
        ret (held, { summary with stillPending := summary.stillPending + 1 })
    | .graded isCorrect output => do
      let now := env.clock attempt.id
      updateAttempt attempt.id
        (fun a => { a with status := .graded, isCorrect := some isCorrect, gradedAt := some now }) (some (.rubric output))
      let outcome := if isCorrect then ConceptOutcome.correct else .incorrect
      let concepts ← updateConceptState held.concepts outcome now exercise.concepts
      let stats ← (updateHeldStats cfg held.stats exercise.type isCorrect).lift userPart
      ret (⟨some stats, concepts⟩, { summary with resolved := summary.resolved + 1 })

/-- The job's loop. -/
def resolveAttempts (cfg : Settings) (cat : Catalog) (env : RetryEnv) (held : RetrySession) (summary : RetrySummary) :
    List (Attempt × Option GraderOutput) → GradingHandler RetrySummary
  | [] => ret summary
  | (attempt, graderOutput) :: rest => do
    let (held, summary) ← resolveAttempt cfg cat env attempt graderOutput held summary
    resolveAttempts cfg cat env held summary rest

/-- Resolves attempts stuck in `grading_pending` by grading them again. -/
def resolvePendingSummarizeGrades (cfg : Settings) (cat : Catalog) (env : RetryEnv) : GradingHandler RetrySummary := do
  let pending ← pendingAttempts env
  let summary ← resolveAttempts cfg cat env ⟨none, []⟩ ⟨0, 0, 0⟩ pending
  commitTx
  ret summary

end CodeReader.Grading
