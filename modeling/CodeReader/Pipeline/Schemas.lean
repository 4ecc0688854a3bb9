import CodeReader.Exercises.Service
import CodeReader.Text.Lines

/-!
# The candidates

The shapes of the generator's output, as they leave schema validation: what a validator demands is a field of the
structure.  The checklists that a generator fills in about itself are not here, nobody reads them.
-/

namespace CodeReader.Pipeline

open Text

/-! ## Spot the bug -/

structure ReasonOption where
  id : String
  text : String
  deriving DecidableEq

structure LineNote where
  line : Int
  note : String
  deriving DecidableEq

structure STBDraftExplanation where
  summary : String
  principle : String
  lineNotes : List LineNote
  deriving DecidableEq

/-- The divergence fields: all of them or none, and the two results differ. -/
structure Divergence where
  bugTriggerCondition : String
  divergenceInput : String
  buggyResult : String
  fixedResult : String
  justification : String
  discriminating : strip buggyResult.toList ≠ strip fixedResult.toList

structure STBCandidate where
  buggyCode : String
  fixedCode : String
  bugLines : List Int
  testCode : String
  contextNote : String
  reasonOptions : List ReasonOption
  correctReasonId : String
  draftExplanation : STBDraftExplanation
  concepts : Concepts
  divergence : Option Divergence
  four_reasons : reasonOptions.length = 4

/-! ## Predict the fix -/

structure PredictFixVariant where
  code : String
  note : String
  deriving DecidableEq

structure PredictFixCandidate where
  wrongFixes : List PredictFixVariant
  three_fixes : wrongFixes.length = 3

/-! ## Trace -/

structure Choice where
  id : String
  text : String
  misconception : Option String
  deriving DecidableEq

structure TraceTableEntry where
  line : Int
  state : String
  deriving DecidableEq

structure WhyWrong where
  choiceId : String
  note : String
  deriving DecidableEq

structure TraceDraftExplanation where
  summary : String
  principle : String
  traceTable : List TraceTableEntry
  whyWrong : List WhyWrong
  deriving DecidableEq

/-- The notes on wrong choices cover exactly the ids of the others. -/
structure TraceCandidate where
  code : String
  contextNote : String
  question : String
  expectedStdout : String
  choices : List Choice
  correctChoiceId : String
  draftExplanation : TraceDraftExplanation
  concepts : Concepts
  four_choices : choices.length = 4
  whyWrong_covers : ∀ id, id ∈ draftExplanation.whyWrong.map (·.choiceId) ↔
    id ∈ (choices.filter (·.id ≠ correctChoiceId)).map (·.id)

/-! ## The specification of a candidate -/

/-- Lines for a difficulty, from the bands of two. -/
def lineBudgetForDifficulty (difficulty : Int) : Int × Int :=
  if 1 ≤ difficulty ∧ difficulty < 3 then (10, 20)
  else if 3 ≤ difficulty ∧ difficulty < 5 then (15, 30)
  else if 5 ≤ difficulty ∧ difficulty < 7 then (20, 45)
  else if 7 ≤ difficulty ∧ difficulty < 9 then (30, 55)
  else if 9 ≤ difficulty ∧ difficulty < 11 then (40, 60)
  else (20, 60)

structure ExerciseSpec where
  type : String
  concept : String
  difficulty : Difficulty
  domain : String
  lineBudgetMin : Int
  lineBudgetMax : Int
  hasBug : Option Bool
  avoidPatterns : List String

end CodeReader.Pipeline
