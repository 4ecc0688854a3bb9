import CodeReader.Pipeline.Publish
import Mathlib.Order.Basic

/-!
# Resolving a specification

Fresh candidates, each with its lineage of repairs, until enough of them pass every gate; then the best is published.
What the generator, the repairs, the gates and the judge come to is an argument (`Callbacks`), one result for each
call; scores are values of an order.  Token usage is left out.

* `evaluateCandidate` — one candidate through static gate, sandbox, judges and duplicates;
* `runLineage` — a candidate and its repairs;
* `resolveSpec` — the specification;
* `Event` — what a run does, in order; the counters of the report are among it.
-/

namespace CodeReader.Pipeline

/-! ## Rejections -/

inductive RepairClass
  | repairable | fundamental
  deriving DecidableEq

structure Rejection where
  stage : String
  check : String
  repairClass : RepairClass
  deriving DecidableEq

def Rejection.repairable (r : Rejection) : Bool := r.repairClass == .repairable

def repairableChecks : List String :=
  ["static_gate", "buggy_fails_test", "fixed_passes_test", "stb_claim_matches_execution", "captured_output_matches_claim"]

def classify (stage check : String) : Rejection :=
  ⟨stage, check, if repairableChecks.contains check then .repairable else .fundamental⟩

def classifyStatic : Rejection := classify "static_gate" "static_gate"

/-- Repairable if every failed check is; named after the first. -/
def classifySandbox (result : SandboxGateResult) : Rejection :=
  match result.checks.filter (!·.passed) with
  | [] => classify "sandbox_gate" "unknown"
  | first :: rest =>
    if (first :: rest).all fun c => repairableChecks.contains c.name then classify "sandbox_gate" first.name
    else ⟨"sandbox_gate", first.name, .fundamental⟩

def classifyFundamental (stage check : String) : Rejection := ⟨stage, check, .fundamental⟩

/-! ## Candidates and what becomes of them -/

inductive Candidate
  | stb (c : STBCandidate)
  | trace (c : TraceCandidate)

/-- The code that the duplicates are looked up by. -/
def Candidate.code : Candidate → String
  | stb c => c.buggyCode
  | trace c => c.code

structure GenerationOutcome where
  candidate : Option Candidate
  templateId : String
  discardReason : String

structure Survivor (S : Type) where
  candidate : Candidate
  templateId : String
  contentHash : String
  verifiedBugLines : Option (List Nat)
  capturedStdout : Option String
  score : S
  difficultyMiscalibrated : Bool
  publishedViaRepair : Bool

/-- What the gates, the judge and the scoring say at one evaluation. -/
structure GateResults (S : Type) where
  staticAccepted : Bool
  sandbox : SandboxGateResult
  semantic : SemanticOutcome
  score : S
  difficultyMiscalibrated : Bool

inductive PTFOutcome
  | discarded (reason : String)
  | rejected (stage : String)
  | published (artifacts : PTFArtifacts) (receipts : Receipts)

/-- What every call comes to: the generator and the repairs by the attempts spent, the gates by the evaluations made. -/
structure Callbacks (S : Type) where
  generate : Nat → GenerationOutcome
  repair : Nat → Candidate → Rejection → GenerationOutcome
  gates : Nat → Candidate → GateResults S
  derivePtf : Survivor S → PTFOutcome

/-- `LoopPolicy`, with the switch for `predict_the_fix`; a bound below zero is zero. -/
structure LoopPolicy (S : Type) where
  repairEnabled : Bool
  bestOfNEnabled : Bool
  maxAttemptsPerSpec : Nat
  maxRepairRounds : Nat
  bestOfNMaxSurvivors : Nat
  bestOfNScoreThreshold : S
  bestOfNCoverageThreshold : Nat
  derivePredictTheFix : Bool

/-! ## What a run does -/

inductive GateCounter
  | staticGatePassed | sandboxGatePassed | stbBugLinesClaimMismatch | semanticGatePassed | dedupPassed
  deriving DecidableEq

/-- The keys of `report.counts`. -/
inductive Counter
  | gate (c : GateCounter)
  | generatedTotal | generatePassed
  | generateDiscarded (reason : String)
  | rejected (stage : String)
  | conceptRejected (concept : String)
  | conceptPublished (concept : String)
  | repairAttempted | repairSucceeded | repairFailed
  | repairAttemptedOf (check : String)
  | repairSucceededOf (check : String)
  | repairFailedOf (check : String)
  | repairDiscarded (reason : String)
  | repairStoppedMaxRounds | repairStoppedSameCheck | repairStoppedBudget
  | repairStoppedSameCheckOf (check : String)
  | bestOfNPursued | bestOfNExtraSurvivors | bestOfNSelectedBetter
  | publishedInReview | publishedViaRepair | publishedFirstTry
  | difficultyMiscalibrated
  | difficultyMiscalibratedOf (type concept : String)
  | ptfDerivationAttempted | ptfPublishedInReview
  | ptfGenerateDiscarded (reason : String)
  | ptfRejected (stage : String)
  | conceptPtfRejected (concept : String)
  | conceptPtfPublished (concept : String)
  deriving DecidableEq

inductive Event (S : Type)
  | counted (key : Counter)
  | generated (outcome : GenerationOutcome)
  | repaired (rejection : Rejection) (outcome : GenerationOutcome)
  | evaluated (candidate : Candidate) (result : Except Rejection (Survivor S))
  | reported (stage : String) (candidate : Candidate)
  | published (survivor : Survivor S)
  | ptfReported (stage : String)
  | ptfPublished (artifacts : PTFArtifacts)

section Run

variable {S : Type}

/-- The verified lines of a `spot_the_bug`; a `trace` has none. -/
def verifiedOf (candidate : Candidate) (sandbox : SandboxGateResult) : Option (List Nat) :=
  match candidate with
  | .stb _ => some (sandbox.verifiedBugLines.getD [])
  | .trace _ => none

def capturedOf (candidate : Candidate) (sandbox : SandboxGateResult) : Option String :=
  match candidate with
  | .stb _ => none
  | .trace _ => sandbox.capturedStdout

def mismatchCount (candidate : Candidate) (sandbox : SandboxGateResult) : List GateCounter :=
  match candidate with
  | .stb _ => if sandbox.bugLinesClaimMismatch then [.stbBugLinesClaimMismatch] else []
  | .trace _ => []

/-- Static gate, sandbox, judges, duplicates: the gates passed, and the survivor or the rejection. -/
def evaluateCandidate (contentHash : String → String) (pool : List String) (candidate : Candidate) (templateId : String)
    (g : GateResults S) : List GateCounter × Except Rejection (Survivor S) :=
  if ¬ g.staticAccepted then ([], .error classifyStatic)
  else if ¬ g.sandbox.accepted then ([.staticGatePassed], .error (classifySandbox g.sandbox))
  else
    let passed := [.staticGatePassed, .sandboxGatePassed] ++ mismatchCount candidate g.sandbox
    if ¬ g.semantic.survived then (passed, .error (classifyFundamental "semantic_gate" g.semantic.rejectGate))
    else
      let hash := contentHash candidate.code
      if pool.contains hash then (passed ++ [.semanticGatePassed], .error (classifyFundamental "dedup" "dedup"))
      else
        (passed ++ [.semanticGatePassed, .dedupPassed], .ok
          { candidate, templateId, contentHash := hash, verifiedBugLines := verifiedOf candidate g.sandbox
            capturedStdout := capturedOf candidate g.sandbox, score := g.score
            difficultyMiscalibrated := g.difficultyMiscalibrated, publishedViaRepair := false })

/-! ## A lineage -/

/-- A candidate of a lineage, with what its repairs have come to, the attempts spent and the evaluations made. -/
structure LineageState where
  current : Candidate
  templateId : String
  usedRepair : Bool
  checksTriggered : List String
  lastRepairCheck : Option String
  used : Nat
  evaluations : Nat

structure Lineage (S : Type) where
  survivor : Option (Survivor S)
  used : Nat
  evaluations : Nat
  log : List (Event S)

/-- The repair whose candidate has just been evaluated, if it was one. -/
def settleRepair (lastRepairCheck : Option String) (total : Counter) (of : String → Counter) : List (Event S) :=
  match lastRepairCheck with
  | some check => [.counted total, .counted (of check)]
  | none => []

/-- `_record_reject`. -/
def recordReject (spec : ExerciseSpec) (stage : String) (candidate : Candidate) : List (Event S) :=
  [.counted (.rejected stage), .counted (.conceptRejected spec.concept), .reported stage candidate]

/-- The candidate is evaluated; a repairable one that was rejected is repaired, as long as rounds are left, the check is
a new one and there are attempts left. -/
def runLineage (cb : Callbacks S) (contentHash : String → String) (pool : List String) (spec : ExerciseSpec)
    (policy : LoopPolicy S) (roundsLeft : Nat) (st : LineageState) : Lineage S :=
  let evaluation := evaluateCandidate contentHash pool st.current st.templateId (cb.gates st.evaluations st.current)
  let counts := evaluation.1.map fun c => Event.counted (.gate c)
  match evaluation.2 with
  | .ok survivor =>
    let survivor := { survivor with publishedViaRepair := st.usedRepair }
    { survivor := some survivor, used := st.used, evaluations := st.evaluations + 1
      log := counts ++ [.evaluated st.current (.ok survivor)] ++
        settleRepair st.lastRepairCheck .repairSucceeded .repairSucceededOf }
  | .error rejection =>
    let log := counts ++ [.evaluated st.current (.error rejection)] ++ recordReject spec rejection.stage st.current ++
      settleRepair st.lastRepairCheck .repairFailed .repairFailedOf
    let stopped (why : List Counter) : Lineage S :=
      { survivor := none, used := st.used, evaluations := st.evaluations + 1, log := log ++ why.map .counted }
    if ¬ (policy.repairEnabled ∧ rejection.repairable) then stopped []
    else
      match roundsLeft with
      | 0 => stopped [.repairStoppedMaxRounds]
      | roundsLeft + 1 =>
        if st.checksTriggered.contains rejection.check then
          stopped [.repairStoppedSameCheck, .repairStoppedSameCheckOf rejection.check]
        else if policy.maxAttemptsPerSpec ≤ st.used then stopped [.repairStoppedBudget]
        else
          let outcome := cb.repair st.used st.current rejection
          let log := log ++ [.counted .repairAttempted, .counted (.repairAttemptedOf rejection.check),
            .repaired rejection outcome]
          match outcome.candidate with
          | none =>
            { survivor := none, used := st.used + 1, evaluations := st.evaluations + 1
              log := log ++ [.counted (.repairDiscarded outcome.discardReason), .counted .repairFailed,
                .counted (.repairFailedOf rejection.check)] }
          | some candidate =>
            let rest := runLineage cb contentHash pool spec policy roundsLeft
              { current := candidate, templateId := outcome.templateId, usedRepair := true
                checksTriggered := rejection.check :: st.checksTriggered, lastRepairCheck := some rejection.check
                used := st.used + 1, evaluations := st.evaluations + 1 }
            { rest with log := log ++ rest.log }

/-! ## The specification -/

variable [LinearOrder S]

/-- `max(survivors, key=score)`: the first of the best. -/
def bestOf (first : Survivor S) (rest : List (Survivor S)) : Survivor S :=
  rest.foldl (fun best s => if best.score < s.score then s else best) first

def wantMoreSurvivors (policy : LoopPolicy S) (coverage : Nat) (first : Survivor S) (rest : List (Survivor S)) (used : Nat) :
    Bool :=
  !(decide (policy.bestOfNMaxSurvivors ≤ rest.length + 1) || decide (policy.maxAttemptsPerSpec ≤ used)) &&
    (decide ((bestOf first rest).score < policy.bestOfNScoreThreshold) || decide (coverage < policy.bestOfNCoverageThreshold))

/-- Another survivor is pursued. -/
def pursues (policy : LoopPolicy S) (coverage : Nat) (survivors : List (Survivor S)) (used : Nat) : Bool :=
  policy.bestOfNEnabled && match survivors with
    | [] => false
    | first :: rest => wantMoreSurvivors policy coverage first rest used

/-- Fresh candidates while attempts are left: the survivors in order, and what was done.  The fuel counts the fresh
candidates; without any left there is no result. -/
def generateSurvivors (cb : Callbacks S) (contentHash : String → String) (pool : List String) (spec : ExerciseSpec)
    (policy : LoopPolicy S) (coverage : Nat) : (fuel used evaluations : Nat) → List (Survivor S) →
    Option (List (Survivor S) × List (Event S))
  | 0, used, _, survivors => if used < policy.maxAttemptsPerSpec then none else some (survivors, [])
  | fuel + 1, used, evaluations, survivors =>
    if used < policy.maxAttemptsPerSpec then
      let outcome := cb.generate used
      match outcome.candidate with
      | none =>
        (generateSurvivors cb contentHash pool spec policy coverage fuel (used + 1) evaluations survivors).map fun r =>
          (r.1, [.generated outcome, .counted .generatedTotal, .counted (.generateDiscarded outcome.discardReason),
            .counted (.conceptRejected spec.concept)] ++ r.2)
      | some candidate =>
        let lineage := runLineage cb contentHash pool spec policy policy.maxRepairRounds
          { current := candidate, templateId := outcome.templateId, usedRepair := false, checksTriggered := []
            lastRepairCheck := none, used := used + 1, evaluations }
        let log := [.generated outcome, .counted .generatedTotal, .counted .generatePassed] ++ lineage.log
        let survivors := survivors ++ lineage.survivor.toList
        if lineage.survivor.isSome ∧ ¬ pursues policy coverage survivors lineage.used then some (survivors, log)
        else
          (generateSurvivors cb contentHash pool spec policy coverage fuel lineage.used lineage.evaluations survivors).map
            fun r => (r.1, log ++ r.2)
    else some (survivors, [])

/-- What deriving a `predict_the_fix` from the published `spot_the_bug` comes to, where one is derived. -/
def derived (cb : Callbacks S) (spec : ExerciseSpec) (policy : LoopPolicy S) (survivor : Survivor S) :
    Option (STBCandidate × PTFOutcome) :=
  match survivor.candidate with
  | .stb stb =>
    if spec.hasBug = some true ∧ policy.derivePredictTheFix ∧ survivor.verifiedBugLines.getD [] ≠ [] then
      some (stb, cb.derivePtf survivor)
    else none
  | .trace _ => none

/-- `_derive_and_publish_ptf`. -/
def derivedLog (spec : ExerciseSpec) (outcome : PTFOutcome) : List (Event S) :=
  .counted .ptfDerivationAttempted :: match outcome with
    | .discarded reason => [.counted (.ptfGenerateDiscarded reason)]
    | .rejected stage => [.counted (.ptfRejected stage), .counted (.conceptPtfRejected spec.concept), .ptfReported stage]
    | .published artifacts _ =>
      [.ptfPublished artifacts, .counted .ptfPublishedInReview, .counted (.conceptPtfPublished spec.concept)]

def publishSurvivor (cb : Callbacks S) (spec : ExerciseSpec) (policy : LoopPolicy S) (survivor : Survivor S) : List (Event S) :=
  [.published survivor, .counted .publishedInReview, .counted (.conceptPublished spec.concept),
    .counted (if survivor.publishedViaRepair then .publishedViaRepair else .publishedFirstTry)] ++
    (if survivor.difficultyMiscalibrated then
      [.counted .difficultyMiscalibrated, .counted (.difficultyMiscalibratedOf spec.type spec.concept)]
    else []) ++
    (match derived cb spec policy survivor with
      | some (_, outcome) => derivedLog spec outcome
      | none => [])

/-- What resolving a specification comes to: the survivor that was published, and what was done. -/
structure Resolution (S : Type) where
  winner : Option (Survivor S)
  log : List (Event S)

/-- What is counted when there are more survivors than one. -/
def pursuedLog (first : Survivor S) (rest : List (Survivor S)) : List (Event S) :=
  if rest.isEmpty then []
  else [.counted .bestOfNPursued] ++ List.replicate rest.length (.counted .bestOfNExtraSurvivors) ++
    (if first.score < (bestOf first rest).score then [.counted .bestOfNSelectedBetter] else [])

def resolveSpec (cb : Callbacks S) (contentHash : String → String) (pool : List String) (spec : ExerciseSpec)
    (policy : LoopPolicy S) (coverage : Nat) : Option (Resolution S) :=
  (generateSurvivors cb contentHash pool spec policy coverage policy.maxAttemptsPerSpec 0 0 []).map fun r =>
    match r.1 with
    | [] => ⟨none, r.2⟩
    | first :: rest =>
      ⟨some (bestOf first rest), r.2 ++ pursuedLog first rest ++ publishSurvivor cb spec policy (bestOf first rest)⟩

end Run

end CodeReader.Pipeline
