import CodeReader.Pipeline.SandboxGate
import Mathlib.Data.Rat.Defs
import Mathlib.Algebra.Order.Ring.Rat

/-!
# The semantic gates

What a judge says of a candidate.  A judge's response may be anything, so a gate takes it as an argument, as far as it
could be read; the texts of the outcomes are left out.

* `numberLines` — the code as the judges read it;
* `defectAudit`, `solver`, `reasons` — the gates;
* `runSTBSemanticGates`, `runTraceSemanticGates` — the chain of a type.
-/

namespace CodeReader.Pipeline

open Text

inductive GateVerdict
  | pass | reject | flag
  deriving DecidableEq

/-- A judge's response: no JSON, not of the schema, or read. -/
inductive Reply (α : Type)
  | unparseable
  | schemaViolation
  | response (r : α)

/-! ## Numbered lines -/

/-- `f"{i:>{width}}"`. -/
def padded (width i : Nat) : List Char :=
  let digits := Nat.toDigits 10 i
  List.replicate (width - digits.length) ' ' ++ digits

/-- The line with its number in front. -/
def numberedLine (width i : Nat) (line : List Char) : List Char := padded width i ++ '|' :: ' ' :: line

/-- The code with its lines numbered from one, as every gate shows it to the judge. -/
def numberLines (code : String) : String :=
  let lines := splitlines code.toList
  let width := (Nat.toDigits 10 lines.length).length
  String.ofList (List.intercalate ['\n'] (lines.mapIdx fun i line => numberedLine width (i + 1) line))

/-! ## Defect audit -/

structure Defect where
  lines : List Int
  description : String
  exposedBy : String

def defectLineMatchWindow : Int := 2

/-- One of the reported lines is a bug line, or at most two lines outside of the region of them. -/
def defectLinesMatchBugRegion (reportedLines : List Int) (bugLines : List Nat) : Bool :=
  !bugLines.isEmpty && reportedLines.any fun line =>
    bugLines.any (fun (k : Nat) => line == k) ||
      (bugLines.any (fun (k : Nat) => decide (k - defectLineMatchWindow ≤ line)) &&
        bugLines.any fun (k : Nat) => decide (line ≤ k + defectLineMatchWindow))

def defectAudit (reply : Reply (List Defect)) (hasBug : Bool) (bugLines : List Nat) : GateVerdict :=
  match reply with
  | .unparseable | .schemaViolation => .reject
  | .response defects =>
    if hasBug then
      match defects with
      | [] => .flag
      | [d] => if defectLinesMatchBugRegion d.lines bugLines then .pass else .reject
      | _ => .reject
    else if defects.isEmpty then .pass
    else .flag

/-! ## Solver -/

/-- An answer by its fields; a field that is not given is not there. -/
structure SolverAnswer where
  line : Option Int := none
  reasonId : Option String := none
  choiceId : Option String := none
  deriving DecidableEq

structure SolverResponse where
  answer : SolverAnswer
  confidence : Rat
  problemsWithTheExercise : List String
  confidence_range : 0 ≤ confidence ∧ confidence ≤ 1

/-- The fields of the answer among the keys. -/
def SolverAnswer.restrict (keys : List String) (a : SolverAnswer) : SolverAnswer where
  line := if keys.contains "line" then a.line else none
  reasonId := if keys.contains "reason_id" then a.reasonId else none
  choiceId := if keys.contains "choice_id" then a.choiceId else none

/-- Every acceptable line matches, where there are any; the other fields are compared exactly. -/
def answerMatches (answer correctAnswer : SolverAnswer) (compareKeys : Option (List String))
    (acceptableLines : Option (List Nat)) : Bool :=
  let restricted (a : SolverAnswer) := match compareKeys with
    | none => a
    | some keys => a.restrict keys
  match acceptableLines with
  | none => restricted answer == restricted correctAnswer
  | some lines =>
    (match (restricted answer).line with
      | none => false
      | some line => lines.any fun (k : Nat) => line == k) &&
      { restricted answer with line := none } == { restricted correctAnswer with line := none }

def solver (reply : Reply SolverResponse) (correctAnswer : SolverAnswer) (compareKeys : Option (List String) := none)
    (acceptableLines : Option (List Nat) := none) : GateVerdict :=
  match reply with
  | .unparseable | .schemaViolation => .reject
  | .response r =>
    if r.problemsWithTheExercise ≠ [] then .flag
    else if answerMatches r.answer correctAnswer compareKeys acceptableLines then .pass
    else if 4 / 5 ≤ r.confidence then .reject
    else .flag

/-! ## Reasons -/

structure ReasonVerdict where
  id : String
  classification : String
  justification : String

/-- `{v.id: v.classification for v in verdicts}`: of two verdicts on one option the last counts. -/
def classifications (verdicts : List ReasonVerdict) : List (String × String) :=
  (verdicts.map (·.id)).eraseDups.filterMap fun id =>
    (verdicts.reverse.find? (·.id == id)).map fun v => (id, v.classification)

def reasons (reply : Reply (List ReasonVerdict)) (correctReasonId : String) : GateVerdict :=
  match reply with
  | .unparseable | .schemaViolation => .reject
  | .response verdicts =>
    if (classifications verdicts).any (·.2 == "partially_defensible") then .reject
    else if ((classifications verdicts).filter (·.2 == "correct")).map (·.1) = [correctReasonId] then .pass
    else .reject

/-! ## The chains -/

structure SemanticOutcome where
  survived : Bool
  rejectGate : String := ""
  solverConfidence : Rat := 0
  solverMatched : Bool := false
  flagged : Bool := false

def Reply.confidence : Reply SolverResponse → Rat
  | .response r => r.confidence
  | _ => 0

/-- The key that the solver is held against, for a `spot_the_bug`: any of the verified lines, or the reason alone. -/
def stbSolver (candidate : STBCandidate) (hasBug : Bool) (verifiedBugLines : List Nat) (reply : Reply SolverResponse) :
    GateVerdict :=
  match hasBug, verifiedBugLines with
  | true, line :: rest =>
    solver reply { line := some line, reasonId := some candidate.correctReasonId } none (some (line :: rest))
  | _, _ => solver reply { reasonId := some candidate.correctReasonId } (some ["reason_id"])

def traceSolver (candidate : TraceCandidate) (reply : Reply SolverResponse) : GateVerdict :=
  solver reply { choiceId := some candidate.correctChoiceId }

/-- The judge's three responses on one candidate. -/
structure Judgement where
  audit : Reply (List Defect)
  solved : Reply SolverResponse
  reasoned : Reply (List ReasonVerdict)

def runSTBSemanticGates (candidate : STBCandidate) (hasBug : Bool) (verifiedBugLines : List Nat) (j : Judgement) :
    SemanticOutcome :=
  let audit := defectAudit j.audit hasBug verifiedBugLines
  if audit = .reject then { survived := false, rejectGate := "defect_audit" }
  else
    let solved := stbSolver candidate hasBug verifiedBugLines j.solved
    let outcome : SemanticOutcome :=
      { survived := true, solverConfidence := j.solved.confidence, solverMatched := solved == .pass
        flagged := audit == .flag || solved == .flag }
    if solved = .reject then { outcome with survived := false, rejectGate := "solver" }
    else if reasons j.reasoned candidate.correctReasonId = .reject then
      { outcome with survived := false, rejectGate := "reasons" }
    else outcome

def runTraceSemanticGates (candidate : TraceCandidate) (reply : Reply SolverResponse) : SemanticOutcome :=
  let solved := traceSolver candidate reply
  { survived := solved != .reject
    rejectGate := if solved = .reject then "solver" else ""
    solverConfidence := reply.confidence
    solverMatched := solved == .pass
    flagged := solved == .flag }

end CodeReader.Pipeline
