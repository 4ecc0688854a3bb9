import CodeReader.Pipeline.SemanticGates
import CodeReader.Attempts.Grading
import Mathlib.Data.String.Basic
import Mathlib.Data.List.Sort

/-!
# Publishing a candidate

The row that a candidate becomes once it has passed every gate.

* `stbRow` — for `spot_the_bug`: the key is the verified lines and the reason's id;
* `reassignShuffledChoiceIds`, `traceRow` — for `trace`: the choices in another order, under their own ids anew;
* `deriveArtifacts`, `ptfRow` — for `predict_the_fix`, from a verified `spot_the_bug`.
-/

namespace CodeReader.Pipeline

open Text Attempts

/-- `rng.shuffle`: some order of the list. -/
structure Shuffle (α : Type) where
  order : List α → List α
  perm : ∀ l, (order l).Perm l

/-- The id that goes with the correct entry; of several, with the last. -/
def correctChoiceId {α : Type} (isCorrect : α → Bool) (assigned : List (String × α)) : String :=
  assigned.foldl (fun correct (id, e) => if isCorrect e then id else correct) ""

/-! ## Rows -/

/-- What `insert_candidate` takes beside the candidate: the id drawn, the explanation, the hash, the receipts and where
they are kept, the model and the origin. -/
structure Receipts where
  exerciseId : ExerciseId
  finalExplanation : List (String × Json)
  contentHash : String
  validationReport : Json
  generatorModel : String
  origin : String
  reportUrl : String

def Receipts.sandboxReport (r : Receipts) : Json := (r.validationReport.get? "sandbox_gate").getD (.obj [])

def taxonomyVersion : String := "v1"

def Receipts.templateId (r : Receipts) : Json := (r.validationReport.get? "template_id").getD .null

def Receipts.source (r : Receipts) (templates more : List (String × Json)) : Json :=
  .obj ([("origin", .str r.origin), ("model", .str r.generatorModel)] ++ templates ++
    [("content_hash", .str r.contentHash), ("taxonomy_version", .str taxonomyVersion)] ++ more)

def exerciseRow (spec : ExerciseSpec) (type : String) (concepts : Concepts) (r : Receipts) (source payload grading : Json)
    (explanation : List (String × Json)) : Exercise where
  id := r.exerciseId
  version := 1
  language := "python"
  type := type
  gradingMode := "deterministic"
  difficultyAuthored := spec.difficulty
  concepts := concepts
  tags := []
  estTimeS := 90
  status := .inReview
  source := source.dumps
  payload := payload.dumps
  grading := grading.dumps
  explanation := (Json.obj explanation).dumps
  validationReportUrl := some r.reportUrl
  humanReviewed := false
  validatedAt := none
  publishedAt := none

/-! ## Spot the bug -/

def stbPayload (candidate : STBCandidate) : Json :=
  .obj [("code", .str candidate.buggyCode), ("context_note", .str candidate.contextNote),
    ("answer_mode", .str "line_select_plus_reason"),
    ("reason_options", .arr (candidate.reasonOptions.map fun o => .obj [("id", .str o.id), ("text", .str o.text)]))]

def stbGrading (sha256 : String → String) (candidate : STBCandidate) (verifiedBugLines : List Nat) (sandboxReport : Json) :
    Json :=
  .obj [("mode", .str "deterministic"), ("correct_lines", .arr (verifiedBugLines.map fun (k : Nat) => .int k)),
    ("correct_reason_id", .str candidate.correctReasonId),
    ("artifacts", .obj [("failing_test", .str candidate.testCode), ("fixed_code", .str candidate.fixedCode),
      ("fixed_code_hash", .str (sha256 candidate.fixedCode)), ("sandbox_checks", sandboxReport)])]

/-- The text of the keyed reason, of a code with a bug. -/
def bugMechanism (spec : ExerciseSpec) (candidate : STBCandidate) : List (String × Json) :=
  if spec.hasBug = some true then
    match candidate.reasonOptions.find? (·.id == candidate.correctReasonId) with
    | some option => [("bug_mechanism", .str option.text)]
    | none => []
  else []

def stbRow (sha256 : String → String) (spec : ExerciseSpec) (candidate : STBCandidate) (verifiedBugLines : Option (List Nat))
    (r : Receipts) : Exercise :=
  exerciseRow spec "spot_the_bug" candidate.concepts r (r.source [("prompt_template_id", r.templateId)] (bugMechanism spec candidate)) (stbPayload candidate)
    (stbGrading sha256 candidate (verifiedBugLines.getD []) r.sandboxReport) r.finalExplanation

/-! ## Trace -/

structure TraceEntry where
  oldId : String
  text : String
  misconception : Option String
  isCorrect : Bool
  deriving DecidableEq

/-- The ids in order. -/
def sortIds (ids : List String) : List String := ids.mergeSort fun a b => decide (a ≤ b)

/-- The entries in their new order, each with the id it gets. -/
def assignIds (order : List TraceEntry) : List (String × TraceEntry) := (sortIds (order.map (·.oldId))).zip order

/-- The choices, the id of the correct one (of several, the last), and the new id of every old one. -/
def reassignShuffledChoiceIds (order : List TraceEntry) : List Choice × String × List (String × String) :=
  let assigned := assignIds order
  (assigned.map fun (id, e) => ⟨id, e.text, e.misconception⟩,
    correctChoiceId (·.isCorrect) assigned,
    assigned.map fun (id, e) => (e.oldId, id))

/-- The text of the correct choice is what the code printed. -/
def traceEntries (candidate : TraceCandidate) (capturedStdout : String) : List TraceEntry :=
  candidate.choices.map fun c =>
    { oldId := c.id
      text := if c.id = candidate.correctChoiceId then capturedStdout else c.text
      misconception := c.misconception
      isCorrect := c.id = candidate.correctChoiceId }

def shuffleTraceChoices (candidate : TraceCandidate) (capturedStdout : String) (rng : Shuffle TraceEntry) :
    List Choice × String × List (String × String) :=
  reassignShuffledChoiceIds (rng.order (traceEntries candidate capturedStdout))

/-- The new id of an old one; of several, the last. -/
def remapped (idRemap : List (String × String)) (id : String) : Option String :=
  (idRemap.reverse.find? (·.1 == id)).map (·.2)

def remapEntry (idRemap : List (String × String)) : Json → Json
  | .obj fields => .obj (fields.map fun f =>
      match f with
      | ("choice_id", .str old) => ("choice_id", .str ((remapped idRemap old).getD old))
      | _ => f)
  | entry => entry

/-- The notes on the wrong choices, under the new ids. -/
def remapTraceWhyWrong (explanation : List (String × Json)) (idRemap : List (String × String)) : List (String × Json) :=
  explanation.map fun f =>
    match f with
    | ("why_wrong", .arr entries) => ("why_wrong", .arr (entries.map (remapEntry idRemap)))
    | _ => f

def tracePayload (candidate : TraceCandidate) (choices : List Choice) : Json :=
  .obj [("code", .str candidate.code), ("context_note", .str candidate.contextNote), ("question", .str candidate.question),
    ("choices", .arr (choices.map fun c => .obj [("id", .str c.id), ("text", .str c.text),
      ("misconception", match c.misconception with
        | some m => .str m
        | none => .null)]))]

def traceGrading (correctChoiceId capturedStdout : String) (sandboxReport : Json) : Json :=
  .obj [("mode", .str "deterministic"), ("correct_choice_id", .str correctChoiceId),
    ("captured_stdout", .str capturedStdout), ("artifacts", .obj [("sandbox_checks", sandboxReport)])]

def traceRow (spec : ExerciseSpec) (candidate : TraceCandidate) (capturedStdout : Option String) (rng : Shuffle TraceEntry)
    (r : Receipts) : Exercise :=
  let captured := capturedStdout.getD ""
  let (choices, correctId, idRemap) := shuffleTraceChoices candidate captured rng
  exerciseRow spec "trace" candidate.concepts r (r.source [("prompt_template_id", r.templateId)] [])
    (tracePayload candidate choices) (traceGrading correctId captured r.sandboxReport) (remapTraceWhyWrong r.finalExplanation idRemap)

/-! ## Predict the fix -/

structure FixEntry where
  code : String
  note : Option String
  isCorrect : Bool
  deriving DecidableEq

def choiceIds : List String := ["a", "b", "c", "d"]

def ptfQuestion : String := "The test below fails on this code. Which change makes the test pass?"

/-- The verified fix, then the wrong ones. -/
def fixEntries (stb : STBCandidate) (wrongFixes : PredictFixCandidate) : List FixEntry :=
  ⟨stb.fixedCode, none, true⟩ :: wrongFixes.wrongFixes.map fun v => ⟨v.code, some v.note, false⟩

/-- What the row of a `predict_the_fix` is made of. -/
structure PTFArtifacts where
  choices : List (String × FixEntry)
  correctChoiceId : String
  testOutput : String

/-- The last characters of a text. -/
def tailOf (n : Nat) (text : List Char) : List Char := text.drop (text.length - n)

/-- Every wrong fix clears the static gate, and none passes the test; then the fixes are shuffled. -/
def deriveArtifacts (staticViolations : String → List String) (run : Runs) (stb : STBCandidate)
    (wrongFixes : PredictFixCandidate) (rng : Shuffle FixEntry) : Option PTFArtifacts :=
  let variantCodes := wrongFixes.wrongFixes.map (·.code)
  if variantCodes.flatMap staticViolations ≠ [] then none
  else
    let sandbox := validatePredictTheFix run stb.buggyCode stb.fixedCode stb.testCode variantCodes
    if sandbox.accepted then
      let choices := choiceIds.zip (rng.order (fixEntries stb wrongFixes))
      some
        { choices
          correctChoiceId := correctChoiceId (·.isCorrect) choices
          testOutput := String.ofList (tailOf 600 (strip (sandbox.capturedTestOutput.getD "").toList)) }
    else none

def ptfPayload (stb : STBCandidate) (a : PTFArtifacts) : Json :=
  .obj [("code", .str stb.buggyCode), ("context_note", .str stb.contextNote), ("question", .str ptfQuestion),
    ("failing_test", .str stb.testCode), ("test_output", .str a.testOutput), ("answer_mode", .str "choose_fix"),
    ("choices", .arr (a.choices.map fun (id, e) => .obj [("id", .str id), ("text", .str e.code)]))]

def ptfGrading (sha256 : String → String) (stb : STBCandidate) (a : PTFArtifacts) (sandboxReport : Json) : Json :=
  .obj [("mode", .str "deterministic"), ("correct_choice_id", .str a.correctChoiceId),
    ("artifacts", .obj [("fixed_code_hash", .str (sha256 stb.fixedCode)), ("sandbox_checks", sandboxReport)])]

def ptfExplanation (stb : STBCandidate) (a : PTFArtifacts) : List (String × Json) :=
  [("summary", .str stb.draftExplanation.summary), ("principle", .str stb.draftExplanation.principle),
    ("why_wrong", .arr ((a.choices.filter (!·.2.isCorrect)).map fun (id, e) =>
      .obj [("choice_id", .str id), ("note", .str (e.note.getD ""))])),
    ("verified", .obj [("correct_choice_id", .str a.correctChoiceId)])]

/-- The row, with the exercise that it is derived from and that one's template in its source. -/
def ptfRow (sha256 : String → String) (spec : ExerciseSpec) (stb : STBCandidate) (a : PTFArtifacts) (derivedFrom : Exercise)
    (stbTemplateId : Json) (r : Receipts) : Exercise :=
  exerciseRow spec "predict_the_fix" stb.concepts r
    (r.source [("prompt_template_id", .str "ptf_py_v1"), ("stb_prompt_template_id", stbTemplateId)]
      [("derived_from", .obj [("id", .str (uuidText derivedFrom.id)), ("version", .int derivedFrom.version)])])
    (ptfPayload stb a) (ptfGrading sha256 stb a r.sandboxReport) (ptfExplanation stb a)

end CodeReader.Pipeline
