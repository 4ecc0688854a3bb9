import CodeReader.Core.Rows
import CodeReader.Models.UserState

/-!
# Exercises and their versions

* `Exercise`, `Exercises` — a row, and the table: no two rows have one id and version;
* `updateExerciseFields`, `approve`, `kill`, `pullExercise`, `fixAndBump`, `insertCandidate` — the operations on it;
* `exercisesCurrent`, `fetchCandidates` — the view of the offered versions, and what the sampler sees of it;
* `ExerciseOp`, `ExerciseOp.run` — an operation as a transaction of its own: a failed one is rolled back.

What a pull does to the sessions is not here.
-/

namespace CodeReader

/-! ## The table -/

/-- The values of `exercises.status`. -/
inductive ExerciseStatus
  | draft | inReview | live | pulled | retired
  deriving DecidableEq

def ExerciseStatus.text : ExerciseStatus → String
  | draft => "draft"
  | inReview => "in_review"
  | live => "live"
  | pulled => "pulled"
  | retired => "retired"

/-- `CHECK (difficulty_authored BETWEEN 1 AND 10)`. -/
abbrev Difficulty := { d : Int // 1 ≤ d ∧ d ≤ 10 }

/-- `CHECK (cardinality(concepts) >= 1)`. -/
abbrev Concepts := { l : List String // l ≠ [] }

/-- A row of `exercises`; JSON columns hold their text. -/
structure Exercise where
  id : ExerciseId
  version : Int
  language : String
  type : String
  gradingMode : String
  difficultyAuthored : Difficulty
  concepts : Concepts
  tags : List String
  estTimeS : Int
  status : ExerciseStatus
  source : String
  payload : String
  grading : String
  explanation : String
  validationReportUrl : Option String
  humanReviewed : Bool
  validatedAt : Option Int
  publishedAt : Option Int
  deriving DecidableEq

/-- `PRIMARY KEY (id, version)`. -/
def Exercise.key (e : Exercise) : ExerciseId × Int := (e.id, e.version)

/-- The table `exercises`. -/
structure Exercises where
  rows : List Exercise
  keyed : (rows.map Exercise.key).Nodup
  deriving DecidableEq

namespace Exercises

def empty : Exercises := ⟨[], List.nodup_nil⟩

def find (c : Exercises) (id : ExerciseId) (version : Int) : Option Exercise :=
  c.rows.find? fun e => e.key == (id, version)

/-- The row inserted, unless its key is taken. -/
def insert (c : Exercises) (e : Exercise) : Option Exercises :=
  if h : e.key ∈ c.rows.map Exercise.key then none
  else some ⟨c.rows ++ [e], Rows.nodup_insert c.keyed fun _ hr he => h (he ▸ List.mem_map_of_mem hr)⟩

end Exercises

/-- Values for some of the columns. -/
structure ExerciseValues where
  language : Option String := none
  type : Option String := none
  gradingMode : Option String := none
  difficultyAuthored : Option Difficulty := none
  concepts : Option Concepts := none
  tags : Option (List String) := none
  estTimeS : Option Int := none
  status : Option ExerciseStatus := none
  source : Option String := none
  payload : Option String := none
  grading : Option String := none
  explanation : Option String := none
  validationReportUrl : Option (Option String) := none
  humanReviewed : Option Bool := none
  validatedAt : Option (Option Int) := none
  publishedAt : Option (Option Int) := none

namespace ExerciseValues

/-- The row with the values set. -/
def set (values : ExerciseValues) (e : Exercise) : Exercise where
  id := e.id
  version := e.version
  language := values.language.getD e.language
  type := values.type.getD e.type
  gradingMode := values.gradingMode.getD e.gradingMode
  difficultyAuthored := values.difficultyAuthored.getD e.difficultyAuthored
  concepts := values.concepts.getD e.concepts
  tags := values.tags.getD e.tags
  estTimeS := values.estTimeS.getD e.estTimeS
  status := values.status.getD e.status
  source := values.source.getD e.source
  payload := values.payload.getD e.payload
  grading := values.grading.getD e.grading
  explanation := values.explanation.getD e.explanation
  validationReportUrl := values.validationReportUrl.getD e.validationReportUrl
  humanReviewed := values.humanReviewed.getD e.humanReviewed
  validatedAt := values.validatedAt.getD e.validatedAt
  publishedAt := values.publishedAt.getD e.publishedAt

/-- `sorted(set(values) - LIVE_MUTABLE_FIELDS)`: the columns set, in alphabetical order, without the status. -/
def contentFields (values : ExerciseValues) : List String :=
  [("concepts", values.concepts.isSome), ("difficulty_authored", values.difficultyAuthored.isSome),
    ("est_time_s", values.estTimeS.isSome), ("explanation", values.explanation.isSome),
    ("grading", values.grading.isSome), ("grading_mode", values.gradingMode.isSome),
    ("human_reviewed", values.humanReviewed.isSome), ("language", values.language.isSome),
    ("payload", values.payload.isSome), ("published_at", values.publishedAt.isSome),
    ("source", values.source.isSome), ("tags", values.tags.isSome), ("type", values.type.isSome),
    ("validated_at", values.validatedAt.isSome),
    ("validation_report_url", values.validationReportUrl.isSome)].filterMap fun field =>
      if field.2 then some field.1 else none

end ExerciseValues

/-! ## The operations -/

inductive ExerciseError
  | notFound (message : String)
  | immutable (message : String)
  | integrity (constraint : String)
  deriving DecidableEq

/-- A list of names as Python writes it. -/
def pyNames (names : List String) : String := "[" ++ ", ".intercalate (names.map fun n => "'" ++ n ++ "'") ++ "]"

/-- `LIVE_STATUS_TRANSITIONS`, sorted. -/
def liveStatusTransitions : List ExerciseStatus := [.pulled, .retired]

def exerciseNotFound (id : ExerciseId) (version : Int) : ExerciseError :=
  .notFound s!"exercise {id} v{version} not found"

/-- The rows with the values set in the row of the key. -/
def Exercises.setRow (c : Exercises) (id : ExerciseId) (version : Int) (values : ExerciseValues) : Exercises where
  rows := c.rows.map fun e => if e.key = (id, version) then values.set e else e
  keyed := by
    have hkeys : (c.rows.map fun e => if e.key = (id, version) then values.set e else e).map Exercise.key =
        c.rows.map Exercise.key := by
      apply Rows.map_update
      exact fun _ => rfl
    rw [hkeys]
    exact c.keyed

def updateExerciseFields (c : Exercises) (id : ExerciseId) (version : Int) (values : ExerciseValues) :
    Except ExerciseError Exercises :=
  match c.find id version with
  | none => .error (exerciseNotFound id version)
  | some exercise =>
    if exercise.status = .live ∧ values.contentFields ≠ [] then
      .error (.immutable s!"live exercise content is immutable; refused fields: {pyNames values.contentFields}")
    else
      match values.status with
      | none => .ok (c.setRow id version values)
      | some newStatus =>
        if exercise.status = .live ∧ newStatus ∉ liveStatusTransitions then
          .error (.immutable (s!"a live exercise can only move to {pyNames (liveStatusTransitions.map (·.text))}," ++
            s!" not '{newStatus.text}'"))
        else .ok (c.setRow id version values)

def approve (c : Exercises) (id : ExerciseId) (version now : Int) : Except ExerciseError Exercises :=
  updateExerciseFields c id version
    { status := some .live, humanReviewed := some true, validatedAt := some (some now), publishedAt := some (some now) }

/-- Retire a candidate, or a live row. -/
def kill (c : Exercises) (id : ExerciseId) (version : Int) : Except ExerciseError Exercises :=
  updateExerciseFields c id version { status := some .retired }

/-- Take a bad live exercise out of circulation: the status; the purge of sessions follows in the transaction. -/
def pullExercise (c : Exercises) (id : ExerciseId) (version : Int) : Except ExerciseError Exercises :=
  updateExerciseFields c id version { status := some .pulled }

/-- The row of `version + 1`, from the old row and the overrides of its content. -/
def bumpedRow (old : Exercise) (overrides : ExerciseValues) : Exercise where
  id := old.id
  version := old.version + 1
  language := old.language
  type := old.type
  gradingMode := old.gradingMode
  difficultyAuthored := overrides.difficultyAuthored.getD old.difficultyAuthored
  concepts := overrides.concepts.getD old.concepts
  tags := overrides.tags.getD old.tags
  estTimeS := 90
  status := .inReview
  source := overrides.source.getD old.source
  payload := overrides.payload.getD old.payload
  grading := overrides.grading.getD old.grading
  explanation := overrides.explanation.getD old.explanation
  validationReportUrl := old.validationReportUrl
  humanReviewed := false
  validatedAt := none
  publishedAt := none

def exercisesPkey : ExerciseError := .integrity "exercises_pkey"

/-- Create `version + 1`; never mutates an already-live old row. -/
def fixAndBump (c : Exercises) (id : ExerciseId) (oldVersion : Int) (overrides : ExerciseValues) :
    Except ExerciseError Exercises :=
  match c.find id oldVersion with
  | none => .error (exerciseNotFound id oldVersion)
  | some old =>
    match c.insert (bumpedRow old overrides) with
    | none => .error exercisesPkey
    | some c => if old.status ≠ .live then updateExerciseFields c id oldVersion { status := some .retired } else .ok c

/-- A candidate that survived every gate, as a row in review: of the id drawn for it, and version 1. -/
def insertCandidate (c : Exercises) (candidate : Exercise) : Except ExerciseError Exercises :=
  match c.insert { candidate with
    version := 1, status := .inReview, humanReviewed := false, validatedAt := none, publishedAt := none } with
  | none => .error exercisesPkey
  | some c => .ok c

/-! ## What is offered -/

/-- The view `exercises_current`: of each id the live row of the highest version. -/
def exercisesCurrent (c : Exercises) : List Exercise :=
  c.rows.filter fun e => e.status == .live &&
    !c.rows.any fun e' => e'.status == .live && e'.id == e.id && decide (e.version < e'.version)

/-- The rows that the sampler draws from. -/
def fetchCandidates (c : Exercises) (language : String) (types : List String) : List Exercise :=
  (exercisesCurrent c).filter fun e => e.language == language && types.contains e.type

/-! ## Operations as transactions -/

inductive ExerciseOp
  | publish (candidate : Exercise)
  | update (id : ExerciseId) (version : Int) (values : ExerciseValues)
  | approve (id : ExerciseId) (version now : Int)
  | kill (id : ExerciseId) (version : Int)
  | pull (id : ExerciseId) (version : Int)
  | fixAndBump (id : ExerciseId) (oldVersion : Int) (overrides : ExerciseValues)

def ExerciseOp.attempt (c : Exercises) : ExerciseOp → Except ExerciseError Exercises
  | publish candidate => insertCandidate c candidate
  | update id version values => updateExerciseFields c id version values
  | approve id version now => CodeReader.approve c id version now
  | kill id version => CodeReader.kill c id version
  | pull id version => pullExercise c id version
  | fixAndBump id oldVersion overrides => CodeReader.fixAndBump c id oldVersion overrides

/-- The table after the operation. -/
def ExerciseOp.run (c : Exercises) (op : ExerciseOp) : Exercises :=
  match op.attempt c with
  | .ok c' => c'
  | .error _ => c

end CodeReader
