import CodeReader.Pipeline.Schemas
import CodeReader.Text.Difflib

/-!
# The sandbox gate

What is proven of a candidate by running it.  A container gives any result at any run, so a gate takes the results of
its runs as a function of their number and the script; the details that go with a check are left out.

* `validateSpotTheBug`, `validatePredictTheFix`, `validateTrace` — the gates;
* `diffChangedLines` — the lines that the fix replaces or deletes, the answer key of `spot_the_bug`.
-/

namespace CodeReader.Pipeline

open Text Difflib

structure SandboxResult where
  exitCode : Option Int
  stdout : String
  stderr : String
  timedOut : Bool
  deriving DecidableEq

/-- The results of the runs: of the first script, the second, and so on. -/
abbrev Runs := Nat → String → SandboxResult

structure GateCheck where
  name : String
  passed : Bool
  deriving DecidableEq

structure SandboxGateResult where
  accepted : Bool
  checks : List GateCheck
  capturedStdout : Option String := none
  verifiedBugLines : Option (List Nat) := none
  bugLinesClaimMismatch : Bool := false
  capturedTestOutput : Option String := none
  deriving DecidableEq

/-! ## Scripts and their results -/

/-- Without the newline at the end. -/
def normalizeStdout (stdout : String) : String :=
  if stdout.toList.getLast? = some '\n' then String.ofList stdout.toList.dropLast else stdout

/-- The code and its test as one script. -/
def concatSnippets (code testCode : String) : String :=
  if code.toList.getLast? = some '\n' then code ++ testCode else code ++ "\n" ++ testCode

def SandboxResult.clean (r : SandboxResult) : Bool := r.exitCode == some 0

/-- The test fails, by its assertion. -/
def SandboxResult.failsTest (r : SandboxResult) : Bool :=
  r.exitCode != some 0 && decide ("AssertionError".toList <:+: r.stderr.toList)

/-- Two runs of one script alike. -/
def SandboxResult.agrees (r r' : SandboxResult) : Bool :=
  (r.exitCode, r.stdout, r.stderr) == (r'.exitCode, r'.stdout, r'.stderr)

/-! ## Lines -/

/-- The lines, counted from one, of the buggy code that the fix replaces or deletes. -/
def diffChangedLines (buggyCode fixedCode : String) : List Nat :=
  (getOpcodes (splitlines buggyCode.toList) (splitlines fixedCode.toList)).flatMap fun op =>
    if op.tag = .replace ∨ op.tag = .delete then List.range' (op.i1 + 1) (op.i2 - op.i1) else []

/-- The larger of five lines and a fifth of the code; of a whole number of fifths the product with `0.2` is exact. -/
def rewriteCap (lineCount : Nat) : Nat := max 5 ((lineCount + 4) / 5)

/-! ## The gates -/

def accepts (checks : List GateCheck) : Bool := checks.all (·.passed)

/-- Either the lines that changed, unless there are none or too many, or the empty key of a code without a bug. -/
def verifyBugLines (candidate : STBCandidate) (hasBug : Bool) : Option (List Nat) :=
  let changed := diffChangedLines candidate.buggyCode candidate.fixedCode
  if hasBug then
    if changed.isEmpty ∨ rewriteCap (splitlines candidate.buggyCode.toList).length < changed.length then none
    else some changed
  else if candidate.fixedCode = candidate.buggyCode ∧ candidate.bugLines = [] then some []
  else none

/-- What the generator says both codes give is what they print. -/
def claimMatches (d : Divergence) (buggy fixed : SandboxResult) : Bool :=
  (normalizeStdout buggy.stdout).toList == strip d.buggyResult.toList &&
    (normalizeStdout fixed.stdout).toList == strip d.fixedResult.toList

def validateSpotTheBug (run : Runs) (candidate : STBCandidate) (hasBug : Bool) : SandboxGateResult :=
  let buggyPlusTest := concatSnippets candidate.buggyCode candidate.testCode
  let fixedPlusTest := concatSnippets candidate.fixedCode candidate.testCode
  let run1a := run 0 buggyPlusTest
  let run1b := run 1 buggyPlusTest
  let run2a := run 2 fixedPlusTest
  let run2b := run 3 fixedPlusTest
  let run3a := run 4 candidate.buggyCode
  let run3b := run 5 candidate.buggyCode
  let verified := verifyBugLines candidate hasBug
  let claimCheck := match hasBug, candidate.divergence with
    | true, some d => [⟨"stb_claim_matches_execution", claimMatches d run1a run2a⟩]
    | _, _ => []
  let checks : List GateCheck :=
    [if hasBug then ⟨"buggy_fails_test", run1a.failsTest⟩ else ⟨"buggy_passes_test_when_no_bug", run1a.clean⟩,
      ⟨"fixed_passes_test", run2a.clean⟩, ⟨"buggy_runs_clean", run3a.clean⟩,
      ⟨"deterministic_double_run", run1a.agrees run1b && run2a.agrees run2b && run3a.agrees run3b⟩,
      ⟨"fix_diff_real_and_minimal", verified.isSome⟩] ++ claimCheck
  { accepted := accepts checks
    checks
    verifiedBugLines := if accepts checks then verified else none
    bugLinesClaimMismatch :=
      hasBug && (diffChangedLines candidate.buggyCode candidate.fixedCode).map Int.ofNat != candidate.bugLines }

/-- The check of each wrong fix, by its number, and whether its two runs agree. -/
def distractorChecks (run : Runs) (testCode : String) (wrongFixes : List String) : List (GateCheck × Bool) :=
  wrongFixes.mapIdx fun i wrong =>
    let script := concatSnippets wrong testCode
    (⟨s!"distractor_{i}_still_fails_test", (run (4 + 2 * i) script).failsTest⟩,
      (run (4 + 2 * i) script).agrees (run (5 + 2 * i) script))

def validatePredictTheFix (run : Runs) (buggyCode fixedCode testCode : String) (wrongFixes : List String) :
    SandboxGateResult :=
  let fixedRunA := run 0 (concatSnippets fixedCode testCode)
  let fixedRunB := run 1 (concatSnippets fixedCode testCode)
  let buggyRunA := run 2 (concatSnippets buggyCode testCode)
  let buggyRunB := run 3 (concatSnippets buggyCode testCode)
  let distractors := distractorChecks run testCode wrongFixes
  let normalized := wrongFixes.map fun w => strip w.toList
  let reference := [strip buggyCode.toList, strip fixedCode.toList]
  let checks : List GateCheck :=
    [⟨"correct_fix_passes_test", fixedRunA.clean⟩, ⟨"buggy_fails_test", buggyRunA.failsTest⟩] ++
      distractors.map (·.1) ++
      [⟨"deterministic_double_run",
          fixedRunA.agrees fixedRunB && buggyRunA.agrees buggyRunB && distractors.all (·.2)⟩,
        ⟨"distractors_distinct", decide (normalized.Nodup) && normalized.all fun w => !reference.contains w⟩]
  { accepted := accepts checks
    checks
    capturedTestOutput := if accepts checks ∧ buggyRunA.failsTest then some buggyRunA.stderr else none }

def validateTrace (run : Runs) (candidate : TraceCandidate) : SandboxGateResult :=
  let runA := run 0 candidate.code
  let runB := run 1 candidate.code
  let captured := normalizeStdout runA.stdout
  let distractorTexts := (candidate.choices.filter (·.id ≠ candidate.correctChoiceId)).map (·.text)
  let checks : List GateCheck :=
    [⟨"code_runs_clean", runA.clean⟩, ⟨"deterministic_double_run", runA.agrees runB⟩,
      ⟨"captured_output_matches_claim", captured == normalizeStdout candidate.expectedStdout⟩,
      ⟨"captured_output_distinct_from_distractors", !distractorTexts.contains captured⟩]
  { accepted := accepts checks
    checks
    capturedStdout := if accepts checks then some captured else none }

end CodeReader.Pipeline
