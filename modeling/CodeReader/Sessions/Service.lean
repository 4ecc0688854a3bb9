import CodeReader.Grading.Service
import CodeReader.Sessions.Sampler
import CodeReader.Text.Json
import CodeReader.Txn.Embed

/-!
# Sessions

`GET /session/today`, the submissions that read it, and the purge of a pulled exercise, in the order of their
statements.

* `SessionTables`, `SessionRedis`, `SessionApp` — the user's rows with the slots of the sessions, the exercises, and
  the cached sessions;
* `slotDicts`, `slotsFromDicts` — the slots as JSON, and back;
* `getTodaySlots`, `getTodaySession` — the cache, the row, or a new session; and what the user sees of it;
* `buildAndStoreAttempt` — a submission, with the session it is for;
* `pullExercise` — the pull of an exercise, with its purge.

What a request takes from code outside this model stands in its `SessionEnv`.  Payloads and metrics are left out.
-/

namespace CodeReader.Sessions

open Txn Prog Grading Text

/-! ## Tables -/

/-- The rows of the user, and the exercises.  `exerciseList` is the column of `daily_sessions`, by date. -/
structure SessionTables where
  grading : GradingRows
  exerciseList : Int → Json
  exercises : Exercises
  difficultyEmpirical : ExerciseId → Int → Option Int
  attemptsCount : ExerciseId → Int → Int

/-- Redis, with the cached sessions of the user, by date. -/
structure SessionRedis where
  app : Redis
  sessions : Int → Option String

inductive SessionErr
  | app (e : Err)
  | exercise (e : ExerciseError)
  /-- A `KeyError` or a `ValueError` of the decoding. -/
  | malformed
  deriving DecidableEq

/-- What a run shows besides the tables: the sessions that requests sample and get, and how far a purge is. -/
inductive SessionEv
  | app (e : Ev)
  | sampled (d : Int) (slots : List SessionSlot)
  | served (d : Int) (slots : List SessionSlot)
  | purging
  | found (dates : List Int)
  | deleting (d : Int)
  deriving DecidableEq

inductive SessionLock
  | grading (r : GradingLock)
  | build (d : Int)
  | exerciseRow (id : ExerciseId) (version : Int)
  deriving DecidableEq

inductive SessionTbl
  | grading (t : GradingTbl)
  | exercises
  deriving DecidableEq

abbrev SessionApp : Iface where
  Db := SessionTables
  Kv := SessionRedis
  Lock := SessionLock
  Tbl := SessionTbl
  Ev := SessionEv
  Err := SessionErr

abbrev SessionHandler := Prog SessionApp

/-- The user's rows in these tables. -/
def gradingPart : Embed GradingApp SessionApp where
  get := (·.grading)
  set grading rows := { rows with grading := grading }
  getKv := (·.app)
  setKv app redis := { redis with app := app }
  lock := .grading
  tbl := .grading
  ev := .app
  err := .app
  get_set _ _ := rfl
  set_set _ _ _ := rfl
  set_get _ := rfl
  getKv_setKv _ _ := rfl
  setKv_setKv _ _ _ := rfl
  setKv_getKv _ := rfl

abbrev sessionsTbl : SessionTbl := .grading (.user .dailySessions)
abbrev attemptsTbl : SessionTbl := .grading (.user .attempts)
abbrev conceptsTbl : SessionTbl := .grading .userConceptState

/-- The row lock of `daily_sessions`. -/
abbrev sessionRow (d : Int) : SessionLock := .grading (.user (.dailySessionRow d))

namespace SessionTables

/-- The rows of `daily_sessions`. -/
def sessions (rows : SessionTables) : List DailySession := rows.grading.user.sessions

/-- `exercise_list` of the row of the date, if there is one. -/
def stored (d : Int) (rows : SessionTables) : Option Json :=
  if rows.sessions.any (·.sessionDate == d) then some (rows.exerciseList d) else none

def setSessions (sessions : List DailySession) (rows : SessionTables) : SessionTables :=
  { rows with grading := { rows.grading with user := { rows.grading.user with sessions := sessions } } }

/-- `SELECT exercise_id FROM attempts WHERE session_date = d`. -/
def attemptedIds (d : Int) (rows : SessionTables) : List ExerciseId :=
  (rows.grading.user.attempts.filter (·.sessionDate == d)).map (·.exerciseId)

end SessionTables

/-! ## Slots as JSON -/

def slotDict (s : SessionSlot) : Json :=
  .obj [("slot", .int s.slot), ("exercise_id", .str (uuidText s.exerciseId)), ("version", .int s.version),
    ("is_boss", .bool s.isBoss)]

/-- `_slot_dicts`. -/
def slotDicts (slots : List SessionSlot) : Json := .arr (slots.map slotDict)

def slotFromDict (item : Json) : Option SessionSlot :=
  match item.get? "slot", item.get? "exercise_id", item.get? "version", (item.get? "is_boss").getD (.bool false) with
  | some (.int slot), some (.str exerciseId), some (.int version), .bool isBoss =>
    (uuidOfText exerciseId).map fun id => ⟨⟨id, version⟩, slot, isBoss⟩
  | _, _, _, _ => none

/-- `slots_from_dicts`. -/
def slotsFromDicts : Json → Option (List SessionSlot)
  | .arr items => items.mapM slotFromDict
  | _ => none

def decoded : Option (List SessionSlot) → SessionHandler (List SessionSlot)
  | some slots => ret slots
  | none => raise .malformed

/-- `bool(value)`, of a list. -/
def nonempty : Json → Bool
  | .arr [] => false
  | _ => true

/-- `exercise_list @> '[{"exercise_id": ...}]'`. -/
def mentions (id : ExerciseId) : Json → Bool
  | .arr items => items.any fun item =>
    match item.get? "exercise_id" with
    | some (.str text) => text == uuidText id
    | _ => false
  | _ => false

/-! ## The cache -/

def cachedSession (d : Int) : SessionHandler (Option String) := cmd fun redis => (redis.sessions d, redis)

namespace SessionRedis

def cache (d : Int) (slots : List SessionSlot) (redis : SessionRedis) : SessionRedis :=
  { redis with sessions := Function.update redis.sessions d (some (Json.dumps (slotDicts slots))) }

def delete (d : Int) (redis : SessionRedis) : SessionRedis :=
  { redis with sessions := Function.update redis.sessions d none }

end SessionRedis

/-- `redis.set(_cache_key(...), json.dumps(_slot_dicts(slots)))`. -/
def cacheSession (d : Int) (slots : List SessionSlot) : SessionHandler Unit := cmd fun redis => ((), redis.cache d slots)

def deleteCached (d : Int) : SessionHandler Unit := cmd fun redis => ((), redis.delete d)

/-! ## Deleting a row -/

/-- The rows without the one of the date, if it is still the one that was seen. -/
def deleteSeen (d : Int) (seen : Json) (rows : SessionTables) : SessionTables :=
  if Json.dumps (rows.exerciseList d) = Json.dumps seen then
    rows.setSessions (rows.sessions.filter (·.sessionDate != d))
  else rows

/-- `DELETE` of the row of a date: of the one that the statement finds when it starts, and then waits for. -/
def deleteSession (d : Int) : SessionHandler Unit := do
  match ← query sessionsTbl (·.stored d) with
  | none => ret ()
  | some seen => do
    lockOn (sessionRow d)
    update (deleteSeen d seen)

/-! ## Building a session -/

/-- What a request takes from outside: the user's level, the date of the request in the user's zone, the end of each
date there, the clock, the settings and signals that say whether summaries are served, and the database's orders. -/
structure SessionEnv where
  level : String
  today : Int
  localDayEndUtc : Int → Int
  now : Int
  summarizeEnabled : Bool
  degraded : Bool
  exerciseOrder : RowOrder Exercise
  conceptOrder : RowOrder ConceptState
  setOrder : RowOrder String

def recentlySeenWindowDays : Int := 14

/-- `fetch_candidates`. -/
def fetchedCandidates (env : SessionEnv) (types : List String) (rows : SessionTables) : List Candidate :=
  (env.exerciseOrder.order (fetchCandidates rows.exercises "python" types)).map fun e =>
    { id := e.id
      version := e.version
      concepts := e.concepts
      difficulty := match rows.difficultyEmpirical e.id e.version with
        | some difficulty =>
          if minEmpiricalN ≤ rows.attemptsCount e.id e.version then difficulty else 100 * e.difficultyAuthored.1
        | none => 100 * e.difficultyAuthored.1 }

/-- The concepts due before the end of the day, the most overdue first. -/
def dueConcepts (env : SessionEnv) (rows : SessionTables) : List String :=
  let due := rows.grading.conceptStates.filter fun row =>
    match row.nextReviewAt with
    | some reviewAt => decide (reviewAt < env.localDayEndUtc env.today)
    | none => false
  ((env.conceptOrder.order due).insertionSort fun a b => a.nextReviewAt.getD 0 ≤ b.nextReviewAt.getD 0).map (·.concept)

def conceptMastery (rows : SessionTables) (concept : String) : Int :=
  ((rows.grading.conceptStates.find? (·.concept == concept)).map (·.mastery)).getD 0

def recentlySeen (env : SessionEnv) (rows : SessionTables) (id : ExerciseId) : Bool :=
  rows.grading.user.attempts.any fun a =>
    decide (env.now - recentlySeenWindowDays * microsPerDay ≤ a.createdAt) && a.exerciseId == id

/-- The row inserted. -/
def insertSession (d : Int) (slots : List SessionSlot) (rows : SessionTables) : SessionTables :=
  { rows.setSessions (rows.sessions ++ [⟨d, none⟩]) with
    exerciseList := Function.update rows.exerciseList d (slotDicts slots) }

/-- Insert and commit.  The insert waits for a transaction that inserted the row before it. -/
def persistSession (env : SessionEnv) (slots : List SessionSlot) : SessionHandler (List SessionSlot) := do
  note (.sampled env.today slots)
  if slots = [] then ret []
  else do
    lockOn (sessionRow env.today)
    let taken ← query sessionsTbl fun rows => (rows.stored env.today).isSome
    if taken then
      -- the recovery behind this has always failed on its own read
      raise (.app (.integrity "daily_sessions_pkey"))
    else do
      update (insertSession env.today slots)
      commitTx
      ret slots

/-- Sample, insert, commit. -/
def sampleSession (env : SessionEnv) : SessionHandler (List SessionSlot) := do
  let types := if env.summarizeEnabled && !env.degraded then allCandidateTypes else deterministicTypes
  let candidates ← query .exercises (fetchedCandidates env types)
  let due ← query conceptsTbl (dueConcepts env)
  let mastery ← query conceptsTbl conceptMastery
  let recent ← query attemptsTbl (recentlySeen env)
  persistSession env (buildSessionSlots
    ⟨due, mastery, recent, levelDifficulty env.level, levelBand env.level, env.setOrder⟩ candidates)

/-- `_build_and_persist_session`. -/
def buildAndPersistSession (env : SessionEnv) : SessionHandler (List SessionSlot) := do
  lockOn (.build env.today)
  match ← query sessionsTbl (·.stored env.today) with
  | some list => if nonempty list then decoded (slotsFromDicts list) else sampleSession env
  | none => sampleSession env

/-- A new session, and its cache entry. -/
def buildAndCache (env : SessionEnv) : SessionHandler (List SessionSlot) := do
  let slots ← buildAndPersistSession env
  if slots = [] then ret [] else do
    cacheSession env.today slots
    ret slots

/-- `get_today_slots`. -/
def getTodaySlots (env : SessionEnv) : SessionHandler (List SessionSlot) := do
  match ← cachedSession env.today with
  | some text => decoded ((Json.loads text).bind slotsFromDicts)
  | none => do
    match ← query sessionsTbl (·.stored env.today) with
    | some list =>
      if nonempty list then do
        let slots ← decoded (slotsFromDicts list)
        cacheSession env.today slots
        ret slots
      else do
        deleteSession env.today
        buildAndCache env
    | none => buildAndCache env

/-! ## Reading the session -/

/-- `SessionExercise`, without its payload. -/
structure SessionExercise where
  slot : Int
  exerciseId : ExerciseId
  version : Int
  type : String
  concepts : List String
  language : String
  difficultyBand : String
  estTimeS : Int
  isBoss : Bool
  attempted : Bool
  deriving DecidableEq

structure TomorrowTeaser where
  concept : String
  isFallback : Bool
  deriving DecidableEq

structure SessionResponse where
  sessionDate : Int
  completed : Bool
  firstCompletedSession : Bool
  exercises : List SessionExercise
  tomorrow : Option TomorrowTeaser
  deriving DecidableEq

/-- `difficulty_band`. -/
def difficultyBand (difficultyAuthored : Int) (isBoss : Bool) : String :=
  if isBoss then "boss" else if difficultyAuthored ≤ 3 then "easy" else if difficultyAuthored ≤ 6 then "medium" else "hard"

/-- The slots whose exercise exists. -/
def sessionExercises (exercises : Exercises) (attemptedIds : List ExerciseId) (slots : List SessionSlot) :
    List SessionExercise :=
  slots.filterMap fun s => (exercises.find s.exerciseId s.version).map fun e =>
    { slot := s.slot
      exerciseId := e.id
      version := e.version
      type := e.type
      concepts := e.concepts.1
      language := e.language
      difficultyBand := difficultyBand e.difficultyAuthored.1 s.isBoss
      estTimeS := e.estTimeS
      isBoss := s.isBoss
      attempted := attemptedIds.contains e.id }

/-- `attempted_ids.issuperset(...)`. -/
def allAttempted (attemptedIds : List ExerciseId) (slots : List SessionSlot) : Bool :=
  slots.all fun s => attemptedIds.contains s.exerciseId

/-- `ORDER BY mastery, next_review_at, concept`, no review at the end. -/
def weakerThan (a b : ConceptState) : Bool :=
  decide (a.mastery < b.mastery) || a.mastery == b.mastery &&
    match a.nextReviewAt, b.nextReviewAt with
    | some x, some y => decide (x < y) || x == y && decide (a.concept ≤ b.concept)
    | some _, none => true
    | none, some _ => false
    | none, none => decide (a.concept ≤ b.concept)

def weakestConcept (states : List ConceptState) : Option String :=
  ((states.insertionSort fun a b => weakerThan a b).head?).map (·.concept)

/-- `_tomorrow_teaser`. -/
def tomorrowTeaser (env : SessionEnv) (firstCompleted : Bool) : SessionHandler (Option TomorrowTeaser) := do
  let scheduled ← query conceptsTbl fun rows => weakestConcept (rows.grading.conceptStates.filter fun row =>
    match row.nextReviewAt with
    | some reviewAt => decide (env.localDayEndUtc env.today ≤ reviewAt ∧ reviewAt < env.localDayEndUtc (env.today + 1))
    | none => false)
  match scheduled with
  | some concept => ret (some ⟨concept, false⟩)
  | none =>
    if firstCompleted then do
      let fallback ← query conceptsTbl fun rows => weakestConcept rows.grading.conceptStates
      ret (fallback.map fun concept => ⟨concept, true⟩)
    else ret none

/-- `_is_first_completed_session`. -/
def isFirstCompletedSession : SessionHandler Bool :=
  query sessionsTbl fun rows => rows.sessions.countP (·.completedAt.isSome) == 1

/-- `get_today_session`. -/
def getTodaySession (env : SessionEnv) : SessionHandler SessionResponse := do
  let slots ← getTodaySlots env
  note (.served env.today slots)
  if slots = [] then ret ⟨env.today, false, false, [], none⟩
  else do
    let exercises ← query .exercises (·.exercises)
    let attemptedIds ← query attemptsTbl (·.attemptedIds env.today)
    if allAttempted attemptedIds slots then do
      let firstCompleted ← isFirstCompletedSession
      let tomorrow ← tomorrowTeaser env firstCompleted
      ret ⟨env.today, true, firstCompleted, sessionExercises exercises attemptedIds slots, tomorrow⟩
    else ret ⟨env.today, false, false, sessionExercises exercises attemptedIds slots, none⟩

/-! ## Submissions -/

/-- The exercises as submissions read them. -/
def catalogOf (exercises : Exercises) : Catalog := fun id version =>
  (exercises.find id version).map fun e => ⟨e.type, e.concepts.1⟩

/-- The submission on the date of the request, with the slots of its session. -/
def inSession (env : SessionEnv) (slots : List SessionSlot) (e : Submitting) : Submitting :=
  { e with env := { e.env with today := env.today, slots := slots.map (·.toSessionSlot) } }

/-- `_build_and_store_attempt`, up to the response. -/
def buildAndStoreAttempt (cfg : Settings) (env : SessionEnv) (e : Submitting) (tx : Tx) (payload : AttemptRequest) :
    SessionHandler AttemptResponse := do
  let slots ← getTodaySlots env
  note (.served env.today slots)
  let exercises ← query .exercises (·.exercises)
  (attemptTransaction cfg (catalogOf exercises) (inSession env slots e) tx payload).embed gradingPart

/-! ## Pulling an exercise -/

/-- The rows of `daily_sessions` that a purge is about. -/
def purgedDates (id : ExerciseId) (servableCutoff : Int) (rows : SessionTables) : List Int :=
  (rows.sessions.filter fun row => decide (servableCutoff ≤ row.sessionDate) && row.completedAt.isNone &&
    mentions id (rows.exerciseList row.sessionDate)).map (·.sessionDate)

def deleteSessions : List Int → SessionHandler Unit
  | [] => ret ()
  | d :: dates => do
    deleteSession d
    deleteSessions dates

def deleteCachedSessions : List Int → SessionHandler Unit
  | [] => ret ()
  | d :: dates => do
    note (.deleting d)
    deleteCached d
    deleteCachedSessions dates

/-- The yesterday of an instant, in UTC. -/
def servableCutoff (now : Int) : Int := now / microsPerDay - 1

/-- `purge_sessions_referencing`. -/
def purgeSessionsReferencing (id : ExerciseId) (now : Int) : SessionHandler Nat := do
  note .purging
  let dates ← query sessionsTbl (purgedDates id (servableCutoff now))
  note (.found dates)
  deleteSessions dates
  commitTx
  deleteCachedSessions dates
  ret dates.length

/-- `pull_exercise`. -/
def pullExercise (id : ExerciseId) (version now : Int) : SessionHandler Nat := do
  match ← query .exercises fun rows => CodeReader.pullExercise rows.exercises id version with
  | .error e => raise (.exercise e)
  | .ok _ => do
    lockOn (.exerciseRow id version)
    update fun rows => { rows with exercises := rows.exercises.setRow id version { status := some .pulled } }
    purgeSessionsReferencing id now

end CodeReader.Sessions
