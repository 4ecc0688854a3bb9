import CodeReader.Pipeline.Batch
import Mathlib.Algebra.BigOperators.Group.List.Basic
import Mathlib.Tactic.Ring

/-!
# What the report of a batch adds up to

`run_batch` counts as it goes: candidates drawn, gates passed, rejections, repairs, publications.  The counters are kept
by different functions, in loops inside loops, with an early return for every way a candidate can fail.

* `runBatch` — the loop over the specifications, with the coverage it keeps and the report it makes;
* `Potential`, `Conserved` — what a candidate, a repair and a survivor that are still to be accounted for are worth, such
  that no step of the run changes what is counted and what is still to be counted together;
* `tally_runLineage`, `tally_generateSurvivors`, `tally_resolveSpec` — so nothing is lost over a whole specification;
* `Law`, `conserved`, `discharged` — the laws of the report;
* `report_funnel`, `report_repairs` — **the report of every batch balances**, and names the rows that the batch inserted.
-/

namespace CodeReader.Exercise

def identity (e : Exercise) : ExerciseId × Int := (e.id, e.version)

/-- A row that `insert_predict_the_fix` made. -/
def isPtf (e : Exercise) : Bool := e.type == "predict_the_fix"

end CodeReader.Exercise

namespace CodeReader.Pipeline

open Event

/-! ## The batch -/

/-- How many exercises there are of a type and a concept. -/
abbrev Coverage := String × String → Nat

def ExerciseSpec.coverageKey (spec : ExerciseSpec) : String × String := (spec.type, spec.concept)

/-- `coverage[key] = coverage.get(key, 0) + 1`. -/
def Coverage.add (coverage : Coverage) (spec : ExerciseSpec) : Coverage :=
  Function.update coverage spec.coverageKey (coverage spec.coverageKey + 1)

/-- `BatchReport`: the counters are in the log, but for `specs_sampled` and the exhausted of each concept, which the lists
of the specifications come to. -/
structure BatchReport (S : Type) where
  sampled : List ExerciseSpec
  exhausted : List ExerciseSpec
  published : List (ExerciseId × Int)
  ptfPublished : List (ExerciseId × Int)
  coverageBefore : Coverage
  coverageAfter : Coverage
  log : List (Event S)

/-- The loop of `run_batch`: the table, the batch that is running, and the report so far. -/
structure BatchLoop (S : Type) where
  table : Exercises
  batch : Batch S
  report : BatchReport S

section Run

variable {S : Type}

/-- `report.counts["specs_sampled"]`, the lists of the report and the coverage, once a specification is resolved. -/
def BatchReport.resolved (report : BatchReport S) (spec : ExerciseSpec) (r : Resolution S) (rows : List Exercise) :
    BatchReport S where
  sampled := report.sampled ++ [spec]
  exhausted := if r.winner.isSome then report.exhausted else report.exhausted ++ [spec]
  published := report.published ++ (rows.filter (!·.isPtf)).map (·.identity)
  ptfPublished := report.ptfPublished ++ (rows.filter (·.isPtf)).map (·.identity)
  coverageBefore := report.coverageBefore
  coverageAfter := if r.winner.isSome then report.coverageAfter.add spec else report.coverageAfter
  log := report.log ++ r.log

variable [LinearOrder S]

/-- One turn: the specification that is drawn is resolved, under the coverage so far.  Nothing where it raises. -/
def BatchLoop.next (h : Hashing) (b : BatchLoop S) (drawn : SpecRun S) : Option (BatchLoop S) :=
  let run := { drawn with coverage := b.report.coverageAfter drawn.spec.coverageKey }
  (resolveSpec run.cb h.contentHash b.batch.pool run.spec b.batch.policy run.coverage).bind fun r =>
    (insertion h b.table b.batch run).bind fun inserted =>
      let after := runSpec h b.table b.batch run
      after.batch.map fun batch => ⟨after.table, batch, b.report.resolved run.spec r inserted.2⟩

/-- `run_batch`: what is drawn, and what the models and the gates come to, may depend on all that was. -/
def runBatch (h : Hashing) (draw : BatchLoop S → SpecRun S) : Nat → BatchLoop S → Option (BatchLoop S)
  | 0, b => some b
  | n + 1, b => (b.next h (draw b)).bind (runBatch h draw n)

/-- Where the loop starts, with the coverage of the table or with none. -/
def BatchLoop.start (table : Exercises) (policy : LoopPolicy S) (commitAfterEachSpec : Bool) (coverage : Coverage) :
    BatchLoop S where
  table := table
  batch := ⟨policy, commitAfterEachSpec, fetchDedupPoolHashes table, []⟩
  report := ⟨[], [], [], [], coverage, coverage, []⟩

end Run

/-! ## Weights -/

section Weights

variable {S : Type}

/-- What a log weighs. -/
def tally (w : Event S → Int) (log : List (Event S)) : Int := (log.map w).sum

variable (w : Event S → Int)

@[simp] theorem tally_nil : tally w [] = 0 := rfl

@[simp] theorem tally_cons (e : Event S) (log : List (Event S)) : tally w (e :: log) = w e + tally w log := List.sum_cons

@[simp] theorem tally_append (log log' : List (Event S)) : tally w (log ++ log') = tally w log + tally w log' := by
  rw [tally, List.map_append, List.sum_append]
  rfl

@[simp] theorem tally_replicate (n : Nat) (e : Event S) : tally w (List.replicate n e) = n * w e := by
  rw [tally, List.map_replicate, List.sum_replicate, nsmul_eq_mul]

/-- A weight made of kinds of events, each with what one of it weighs. -/
@[simp] def weight (terms : List (Int × (Event S → Bool))) (e : Event S) : Int :=
  (terms.map fun t => if t.2 e then t.1 else 0).sum

theorem tally_weight (terms : List (Int × (Event S → Bool))) (log : List (Event S)) :
    tally (weight terms) log = (terms.map fun t => t.1 * (log.countP t.2 : Int)).sum := by
  induction log with
  | nil => simp
  | cons e log ih =>
    rw [tally_cons, ih, weight, ← List.sum_map_add]
    congr 1
    refine List.map_congr_left fun t _ => ?_
    rw [List.countP_cons]
    split <;> push_cast <;> ring

/-- What is still to be accounted for: a candidate that is to be evaluated, one that was rejected, a repair that is under
way for a check, a candidate rescued by one, a survivor. -/
structure Potential where
  candidate : Int
  rejected : Rejection → Int
  repair : String → Int
  rescued : Int
  survivor : Int

end Weights

/-! ## One evaluation -/

/-- What the four gates come to: each lets the candidate through to the next one, or rejects it under its own name. -/
inductive ChainVerdict {S : Type} : List GateCounter → Except Rejection (Survivor S) → Prop
  | static {r : Rejection} (h : r.stage = "static_gate") : ChainVerdict [] (.error r)
  | sandbox {r : Rejection} (h : r.stage = "sandbox_gate") : ChainVerdict [.staticGatePassed] (.error r)
  | semantic {r : Rejection} (h : r.stage = "semantic_gate") (candidate : Candidate) (g : SandboxGateResult) :
    ChainVerdict ([.staticGatePassed, .sandboxGatePassed] ++ mismatchCount candidate g) (.error r)
  | dedup {r : Rejection} (h : r.stage = "dedup") (candidate : Candidate) (g : SandboxGateResult) :
    ChainVerdict ([.staticGatePassed, .sandboxGatePassed] ++ mismatchCount candidate g ++ [.semanticGatePassed]) (.error r)
  | passed (s : Survivor S) (candidate : Candidate) (g : SandboxGateResult) :
    ChainVerdict ([.staticGatePassed, .sandboxGatePassed] ++ mismatchCount candidate g ++ [.semanticGatePassed, .dedupPassed])
      (.ok s)

/-- Any survivor will do. -/
theorem ChainVerdict.of_ok {S : Type} {passed : List GateCounter} {s : Survivor S} (h : ChainVerdict passed (.ok s))
    (s' : Survivor S) : ChainVerdict passed (.ok s') := by
  cases h with
  | passed _ candidate g => exact .passed s' candidate g

theorem classifySandbox_stage (result : SandboxGateResult) : (classifySandbox result).stage = "sandbox_gate" := by
  unfold classifySandbox
  split
  · rfl
  · split <;> rfl

theorem evaluateCandidate_verdict {S : Type} (contentHash : String → String) (pool : List String) (candidate : Candidate)
    (templateId : String) (g : GateResults S) :
    ChainVerdict (evaluateCandidate contentHash pool candidate templateId g).1
      (evaluateCandidate contentHash pool candidate templateId g).2 := by
  unfold evaluateCandidate
  split
  · exact .static rfl
  · split
    · exact .sandbox (classifySandbox_stage g.sandbox)
    · dsimp only
      split
      · exact .semantic rfl candidate g.sandbox
      · split
        · exact .dedup rfl candidate g.sandbox
        · exact .passed _ candidate g.sandbox

/-! ## What no step changes -/

section Conserved

variable {S : Type}

/-- **Nothing is lost while candidates are made and judged**: what is counted at a step, and what is still to be accounted
for after it, come to what was still to be accounted for before it. -/
structure Conserved (spec : ExerciseSpec) (policy : LoopPolicy S) (w : Event S → Int) (φ : Potential) : Prop where
  fresh : ∀ outcome, w (.generated outcome) + w (.counted .generatedTotal) + w (.counted .generatePassed) = φ.candidate
  discarded : ∀ outcome reason, w (.generated outcome) + w (.counted .generatedTotal) +
    w (.counted (.generateDiscarded reason)) + w (.counted (.conceptRejected spec.concept)) = 0
  passes : ∀ {passed : List GateCounter} {s : Survivor S} (c : Candidate), ChainVerdict passed (.ok s) →
    φ.candidate + tally w (passed.map fun k => .counted (.gate k)) + w (.evaluated c (.ok s)) +
      (if s.publishedViaRepair then φ.rescued else 0) = φ.survivor
  rejects : ∀ {passed : List GateCounter} {r : Rejection} (c : Candidate), ChainVerdict (S := S) passed (.error r) →
    φ.candidate + tally w (passed.map fun k => .counted (.gate k)) + w (.evaluated c (.error r)) +
      tally w (recordReject spec r.stage c) = φ.rejected r
  succeeded : ∀ check, φ.repair check + w (.counted .repairSucceeded) + w (.counted (.repairSucceededOf check)) = φ.rescued
  failed : ∀ check, φ.repair check + w (.counted .repairFailed) + w (.counted (.repairFailedOf check)) = 0
  left : ∀ r : Rejection, ¬ (policy.repairEnabled ∧ r.repairable) → φ.rejected r = 0
  stopped : ∀ r : Rejection, policy.repairEnabled ∧ r.repairable → ∀ why ∈ [[.repairStoppedMaxRounds],
    [.repairStoppedSameCheck, .repairStoppedSameCheckOf r.check], [.repairStoppedBudget]],
      φ.rejected r + tally w (why.map .counted) = 0
  repaired : ∀ (r : Rejection) outcome, policy.repairEnabled ∧ r.repairable →
    φ.rejected r + tally w (repairLog r outcome) = φ.candidate + φ.repair r.check
  repairDiscarded : ∀ reason, φ.candidate + w (.counted (.repairDiscarded reason)) = 0
  pursued : w (.counted .bestOfNPursued) = 0 ∧ w (.counted .bestOfNSelectedBetter) = 0
  extra : φ.survivor + w (.counted .bestOfNExtraSurvivors) = 0

/-- The survivor that is published settles the rest: a specification that publishes comes to `total`. -/
structure Discharged (spec : ExerciseSpec) (policy : LoopPolicy S) (w : Event S → Int) (φ : Potential) (total : Int) : Prop
    extends Conserved spec policy w φ where
  publishes : ∀ s : Survivor S, φ.survivor + w (.published s) + w (.counted .publishedInReview) +
    w (.counted (.conceptPublished spec.concept)) +
      w (.counted (if s.publishedViaRepair then .publishedViaRepair else .publishedFirstTry)) = total
  miscalibrated : w (.counted .difficultyMiscalibrated) +
    w (.counted (.difficultyMiscalibratedOf spec.type spec.concept)) = 0
  derives : ∀ outcome, tally w (derivedLog spec outcome) = 0

variable {cb : Callbacks S} {contentHash : String → String} {pool : List String} {spec : ExerciseSpec} {policy : LoopPolicy S}
  {w : Event S → Int} {φ : Potential} {total : Int}

/-- What the repair under way is worth, if there is one. -/
def Potential.pending (φ : Potential) (st : LineageState) : Int := (st.lastRepairCheck.map φ.repair).getD 0

/-- A candidate of a lineage is a repaired one just if a repair is under way. -/
def LineageState.Repairing (st : LineageState) : Prop := st.usedRepair = st.lastRepairCheck.isSome

theorem Conserved.settle_failed (hw : Conserved spec policy w φ) (st : LineageState) :
    φ.pending st + tally w (settleRepair st.lastRepairCheck .repairFailed .repairFailedOf) = 0 := by
  unfold Potential.pending settleRepair
  cases st.lastRepairCheck with
  | none => rfl
  | some check =>
    have hfailed := hw.failed check
    simp only [Option.map_some, Option.getD_some, tally_cons, tally_nil]
    omega

theorem Conserved.settle_succeeded (hw : Conserved spec policy w φ) (st : LineageState) :
    φ.pending st + tally w (settleRepair st.lastRepairCheck .repairSucceeded .repairSucceededOf) =
      if st.lastRepairCheck.isSome then φ.rescued else 0 := by
  unfold Potential.pending settleRepair
  cases st.lastRepairCheck with
  | none => rfl
  | some check =>
    have hsucceeded := hw.succeeded check
    simp only [Option.map_some, Option.getD_some, tally_cons, tally_nil, Option.isSome_some, if_true]
    omega

/-- **A whole lineage**, by induction on the rounds left. -/
theorem Conserved.tally_runLineage (hw : Conserved spec policy w φ) (cb : Callbacks S)
    (contentHash : String → String) (pool : List String) (roundsLeft : Nat) (st : LineageState)
    (hst : st.Repairing) :
    φ.candidate + φ.pending st + tally w (runLineage cb contentHash pool spec policy roundsLeft st).log =
      if (runLineage cb contentHash pool spec policy roundsLeft st).survivor.isSome then φ.survivor else 0 := by
  induction roundsLeft using Nat.strong_induction_on generalizing st with
  | h roundsLeft ih =>
    have hverdict := evaluateCandidate_verdict contentHash pool st.current st.templateId (cb.gates st.evaluations st.current)
    have hfailed := hw.settle_failed st
    have hsucceeded := hw.settle_succeeded st
    rw [runLineage.eq_def]
    generalize evaluateCandidate contentHash pool st.current st.templateId (cb.gates st.evaluations st.current) = evaluation
      at hverdict ⊢
    obtain ⟨passed, result⟩ := evaluation
    dsimp only at hverdict
    cases result with
    | ok s =>
      have hpasses := hw.passes st.current (hverdict.of_ok { s with publishedViaRepair := st.usedRepair })
      rw [← show st.usedRepair = st.lastRepairCheck.isSome from hst] at hsucceeded
      simp only [tally_append, tally_cons, tally_nil, Option.isSome_some, if_true]
      dsimp only at hpasses
      omega
    | error r =>
      have hrejects := hw.rejects st.current hverdict
      dsimp only
      split
      · rename_i hleft
        have hleft := hw.left r hleft
        simp only [tally_append, tally_cons, tally_nil, List.map_nil, Option.isSome_none, Bool.false_eq_true, if_false]
        omega
      · rename_i hrepair
        have hrepair := Decidable.not_not.mp hrepair
        cases roundsLeft with
        | zero =>
          have hstopped := hw.stopped r hrepair [.repairStoppedMaxRounds] (by simp)
          simp only [tally_append, tally_cons, tally_nil, Option.isSome_none, Bool.false_eq_true, if_false]
          omega
        | succ roundsLeft =>
          dsimp only
          split
          · have hstopped := hw.stopped r hrepair [.repairStoppedSameCheck, .repairStoppedSameCheckOf r.check] (by simp)
            simp only [tally_append, tally_cons, tally_nil, Option.isSome_none, Bool.false_eq_true, if_false]
            omega
          · split
            · have hstopped := hw.stopped r hrepair [.repairStoppedBudget] (by simp)
              simp only [tally_append, tally_cons, tally_nil, Option.isSome_none, Bool.false_eq_true, if_false]
              omega
            · have hrepaired := hw.repaired r (cb.repair st.used st.current r) hrepair
              simp only [repairLog, tally_cons, tally_nil] at hrepaired
              split
              · have hdiscarded := hw.repairDiscarded (cb.repair st.used st.current r).discardReason
                have hfailed' := hw.failed r.check
                simp only [tally_append, tally_cons, tally_nil, Option.isSome_none, Bool.false_eq_true, if_false]
                omega
              · rename_i candidate hcandidate
                have hrest := ih roundsLeft (Nat.lt_succ_self _)
                  { current := candidate, templateId := (cb.repair st.used st.current r).templateId, usedRepair := true
                    checksTriggered := r.check :: st.checksTriggered, lastRepairCheck := some r.check
                    used := st.used + 1, evaluations := st.evaluations + 1 } rfl
                simp only [tally_append, tally_cons, tally_nil]
                simp only [Potential.pending, Option.map_some, Option.getD_some] at hrest
                rw [← hrest]
                omega

theorem toList_length_mul (o : Option (Survivor S)) (n : Int) :
    (if o.isSome then n else 0) = n * o.toList.length := by
  cases o <;> simp

variable [LinearOrder S] {coverage : Nat}

/-- **All the fresh candidates**, by induction on the fuel. -/
theorem Conserved.tally_generateSurvivors (hw : Conserved spec policy w φ) {fuel used evaluations : Nat}
    {before : List (Survivor S)} {r : List (Survivor S) × List (Event S)}
    (h : generateSurvivors cb contentHash pool spec policy coverage fuel used evaluations before = some r) :
    φ.survivor * before.length + tally w r.2 = φ.survivor * r.1.length := by
  induction fuel generalizing used evaluations before r with
  | zero =>
    rw [generateSurvivors] at h
    split at h
    · cases h
    · cases h
      simp
  | succ fuel ih =>
    rw [generateSurvivors] at h
    split at h
    · dsimp only at h
      split at h
      · obtain ⟨rest, hrest, rfl⟩ := Option.map_eq_some_iff.mp h
        have hdiscarded := hw.discarded (cb.generate used) (cb.generate used).discardReason
        have hlater := ih hrest
        simp only [tally_append, tally_cons, tally_nil]
        omega
      · rename_i candidate hcandidate
        have hfresh := hw.fresh (cb.generate used)
        have hlineage := hw.tally_runLineage cb contentHash pool policy.maxRepairRounds
          { current := candidate, templateId := (cb.generate used).templateId, usedRepair := false, checksTriggered := []
            lastRepairCheck := none, used := used + 1, evaluations } rfl
        rw [Potential.pending, Option.map_none, Option.getD_none, add_zero, toList_length_mul] at hlineage
        have hlog : ∀ log : List (Event S), tally w ([.generated (cb.generate used), .counted .generatedTotal,
            .counted .generatePassed] ++ log) = φ.candidate + tally w log := fun log => by
          rw [← hfresh]
          simp only [tally_append, tally_cons, tally_nil]
          ring
        split at h
        · cases h
          rw [hlog, hlineage, List.length_append, Nat.cast_add, mul_add]
        · obtain ⟨rest, hrest, rfl⟩ := Option.map_eq_some_iff.mp h
          have hlater := ih hrest
          rw [← hlater, tally_append, hlog, hlineage, List.length_append, Nat.cast_add, mul_add]
          ring
    · cases h
      simp

theorem Conserved.tally_pursuedLog (hw : Conserved spec policy w φ) (first : Survivor S) (rest : List (Survivor S)) :
    φ.survivor * rest.length + tally w (pursuedLog first rest) = 0 := by
  obtain ⟨hpursued, hbetter⟩ := hw.pursued
  unfold pursuedLog
  cases rest with
  | nil => simp
  | cons second rest =>
    have hextra : w (.counted .bestOfNExtraSurvivors) = -φ.survivor := eq_neg_of_add_eq_zero_right hw.extra
    have hlast : tally w (if first.score < (bestOf first (second :: rest)).score then [.counted .bestOfNSelectedBetter] else []) =
        0 := by
      split
      · rw [tally_cons, hbetter, tally_nil, add_zero]
      · rfl
    rw [List.isEmpty_cons, if_neg Bool.false_ne_true, tally_append, tally_append, tally_replicate, tally_cons, hpursued,
      hlast, hextra, tally_nil]
    ring

omit [LinearOrder S] in
theorem Discharged.tally_publishSurvivor (hw : Discharged spec policy w φ total) (cb : Callbacks S) (survivor : Survivor S) :
    φ.survivor + tally w (publishSurvivor cb spec policy survivor) = total := by
  have hpublishes := hw.publishes survivor
  have hmiscalibrated : tally w (if survivor.difficultyMiscalibrated then
      [.counted .difficultyMiscalibrated, .counted (.difficultyMiscalibratedOf spec.type spec.concept)] else []) = 0 := by
    have hcounts := hw.miscalibrated
    split
    · rw [tally_cons, tally_cons, tally_nil]
      omega
    · rfl
  simp only [publishSurvivor, tally_append, tally_cons, tally_nil, hmiscalibrated]
  cases derived cb spec policy survivor with
  | none =>
    dsimp only
    rw [tally_nil]
    omega
  | some seeded =>
    have hderives := hw.derives seeded.2
    dsimp only
    omega

/-- **A specification**: what is counted comes to `total` if it publishes, and to nothing if it does not. -/
theorem Discharged.tally_resolveSpec (hw : Discharged spec policy w φ total) {r : Resolution S}
    (h : resolveSpec cb contentHash pool spec policy coverage = some r) :
    tally w r.log = if r.winner.isSome then total else 0 := by
  obtain ⟨⟨survivors, log⟩, hr, rfl⟩ := Option.map_eq_some_iff.mp h
  have hsurvivors := hw.tally_generateSurvivors hr
  rw [List.length_nil, Nat.cast_zero, mul_zero, zero_add] at hsurvivors
  cases survivors with
  | nil =>
    dsimp only at hsurvivors ⊢
    rw [hsurvivors]
    simp
  | cons first rest =>
    have hpursued := hw.tally_pursuedLog first rest
    have hpublished := hw.tally_publishSurvivor cb (bestOf first rest)
    dsimp only at hsurvivors ⊢
    rw [tally_append, tally_append, hsurvivors, List.length_cons, Nat.cast_succ, mul_add, mul_one]
    simp only [Option.isSome_some, if_true]
    omega

end Conserved

/-! ## The laws -/

/-- The counters of one kind that are kept for each check, stage, reason or concept. -/
inductive CounterFamily
  | generateDiscarded | rejected | conceptRejected | repairDiscarded
  | repairAttemptedOf | repairSucceededOf | repairFailedOf | repairStoppedSameCheckOf
  | ptfGenerateDiscarded | ptfRejected
  deriving DecidableEq

@[simp] def Counter.family : Counter → Option CounterFamily
  | .generateDiscarded _ => some .generateDiscarded
  | .rejected _ => some .rejected
  | .conceptRejected _ => some .conceptRejected
  | .repairDiscarded _ => some .repairDiscarded
  | .repairAttemptedOf _ => some .repairAttemptedOf
  | .repairSucceededOf _ => some .repairSucceededOf
  | .repairFailedOf _ => some .repairFailedOf
  | .repairStoppedSameCheckOf _ => some .repairStoppedSameCheckOf
  | .ptfGenerateDiscarded _ => some .ptfGenerateDiscarded
  | .ptfRejected _ => some .ptfRejected
  | _ => none

def Counter.isLate : Counter → Bool
  | .publishedInReview | .publishedViaRepair | .publishedFirstTry | .conceptPublished _ | .difficultyMiscalibrated
  | .difficultyMiscalibratedOf _ _ | .ptfDerivationAttempted | .ptfPublishedInReview | .ptfGenerateDiscarded _
  | .ptfRejected _ | .conceptPtfRejected _ | .conceptPtfPublished _ => true
  | _ => false

namespace Event

variable {S : Type}

@[simp] def countsOf (family : CounterFamily) : Event S → Bool
  | .counted k => k.family == some family
  | _ => false

/-- A rejection that a repair may follow. -/
@[simp] def isRepairable : Event S → Bool
  | .evaluated _ (.error r) => r.repairable
  | _ => false

/-- A repaired candidate that passed every gate. -/
@[simp] def isRescued : Event S → Bool
  | .evaluated _ (.ok s) => s.publishedViaRepair
  | _ => false

@[simp] def isReported : Event S → Bool
  | .reported _ _ => true
  | _ => false

@[simp] def isPtfPublished : Event S → Bool
  | .ptfPublished _ => true
  | _ => false

/-- Of the publication of a survivor, or of what is derived from it. -/
def isLate : Event S → Bool
  | .counted k => k.isLate
  | .published _ | .ptfReported _ | .ptfPublished _ => true
  | _ => false

end Event

/-- The sum of the counters of a kind. -/
def counters {S : Type} (family : CounterFamily) (log : List (Event S)) : Nat := log.countP (Event.countsOf family)

/-- What the counters of a report are related by. -/
inductive Law
  | fresh | evaluated | static | sandbox | semantic | dedup | calls
  | rejected | reported
  | published | publishedOf (concept : String) | split
  | settled | repairOf (check : String) | attempted | succeeded | failed | rescued | stopped | sameCheck
  | ptf | ptfRows

section Laws

variable {S : Type}

/-- The two sides of a law, what is on the left positive. -/
@[simp] def Law.terms (policy : LoopPolicy S) : Law → List (Int × (Event S → Bool))
  | .fresh => [(1, counts .generatedTotal), (-1, counts .generatePassed), (-1, countsOf .generateDiscarded)]
  | .evaluated => [(1, counts .generatePassed), (1, counts .repairAttempted), (-1, counts (.gate .staticGatePassed)),
    (-1, counts (.rejected "static_gate")), (-1, countsOf .repairDiscarded)]
  | .static => [(1, counts (.gate .staticGatePassed)), (-1, counts (.gate .sandboxGatePassed)),
    (-1, counts (.rejected "sandbox_gate"))]
  | .sandbox => [(1, counts (.gate .sandboxGatePassed)), (-1, counts (.gate .semanticGatePassed)),
    (-1, counts (.rejected "semantic_gate"))]
  | .semantic => [(1, counts (.gate .semanticGatePassed)), (-1, counts (.gate .dedupPassed)), (-1, counts (.rejected "dedup"))]
  | .dedup => [(1, counts (.gate .dedupPassed)), (-1, counts .publishedInReview), (-1, counts .bestOfNExtraSurvivors)]
  | .calls => [(1, counts .generatedTotal), (1, counts .repairAttempted), (-1, isCall)]
  | .rejected => [(1, countsOf .conceptRejected), (-1, countsOf .rejected), (-1, countsOf .generateDiscarded)]
  | .reported => [(1, isReported), (-1, countsOf .rejected)]
  | .published => [(1, counts .publishedInReview)]
  | .publishedOf concept => [(1, counts (.conceptPublished concept))]
  | .split => [(1, counts .publishedInReview), (-1, counts .publishedViaRepair), (-1, counts .publishedFirstTry)]
  | .settled => [(1, counts .repairAttempted), (-1, counts .repairSucceeded), (-1, counts .repairFailed)]
  | .repairOf check => [(1, counts (.repairAttemptedOf check)), (-1, counts (.repairSucceededOf check)),
    (-1, counts (.repairFailedOf check))]
  | .attempted => [(1, counts .repairAttempted), (-1, countsOf .repairAttemptedOf)]
  | .succeeded => [(1, counts .repairSucceeded), (-1, countsOf .repairSucceededOf)]
  | .failed => [(1, counts .repairFailed), (-1, countsOf .repairFailedOf)]
  | .rescued => [(1, counts .repairSucceeded), (-1, isRescued)]
  | .stopped => [(if policy.repairEnabled then 1 else 0, isRepairable), (-1, counts .repairAttempted),
    (-1, counts .repairStoppedMaxRounds), (-1, counts .repairStoppedSameCheck), (-1, counts .repairStoppedBudget)]
  | .sameCheck => [(1, counts .repairStoppedSameCheck), (-1, countsOf .repairStoppedSameCheckOf)]
  | .ptf => [(1, counts .ptfDerivationAttempted), (-1, counts .ptfPublishedInReview), (-1, countsOf .ptfGenerateDiscarded),
    (-1, countsOf .ptfRejected)]
  | .ptfRows => [(1, counts .ptfPublishedInReview), (-1, isPtfPublished)]

/-- What is still to be accounted for under a law. -/
@[simp] def Law.potential (policy : LoopPolicy S) : Law → Potential
  | .evaluated => ⟨1, fun _ => 0, fun _ => 0, 0, 0⟩
  | .dedup => ⟨0, fun _ => 0, fun _ => 0, 0, 1⟩
  | .settled => ⟨0, fun _ => 0, fun _ => 1, 0, 0⟩
  | .repairOf check => ⟨0, fun _ => 0, fun check' => if check' = check then 1 else 0, 0, 0⟩
  | .rescued => ⟨0, fun _ => 0, fun _ => 0, 1, 0⟩
  | .stopped => ⟨0, fun r => if r.repairable then if policy.repairEnabled then 1 else 0 else 0, fun _ => 0, 0, 0⟩
  | _ => ⟨0, fun _ => 0, fun _ => 0, 0, 0⟩

/-- What a specification that publishes comes to. -/
@[simp] def Law.total (spec : ExerciseSpec) : Law → Int
  | .published => 1
  | .publishedOf concept => if spec.concept = concept then 1 else 0
  | _ => 0

theorem tally_mismatch (w : Event S → Int) (h : w (.counted (.gate .stbBugLinesClaimMismatch)) = 0) (candidate : Candidate)
    (g : SandboxGateResult) : tally w ((mismatchCount candidate g).map fun k => .counted (.gate k)) = 0 := by
  unfold mismatchCount
  split
  · split
    · rw [List.map_singleton, tally_cons, h, tally_nil, add_zero]
    · rfl
  · rfl

/-- **Each law is kept by every step.** -/
theorem conserved (spec : ExerciseSpec) (policy : LoopPolicy S) (law : Law) :
    Conserved spec policy (weight (law.terms policy)) (law.potential policy) := by
  have hmismatch := tally_mismatch (weight (law.terms policy)) (by cases law <;> rfl)
  constructor
  case fresh =>
    intro outcome
    cases law <;> rfl
  case discarded =>
    intro outcome reason
    cases law <;> simp [counts, isCall, isGenerated, isRepaired]
  case passes =>
    rintro passed s c ⟨⟩
    rename_i candidate g
    rw [List.map_append, List.map_append, tally_append, tally_append, hmismatch candidate g]
    cases hvia : s.publishedViaRepair <;> cases law <;> simp [counts, isCall, isGenerated, isRepaired, hvia]
  case rejects =>
    intro passed r c h
    cases h with
    | static h =>
      cases law <;> simp [recordReject, counts, isCall, isGenerated, isRepaired, h]
      rfl
    | sandbox h =>
      cases law <;> simp [recordReject, counts, isCall, isGenerated, isRepaired, h]
      rfl
    | semantic h candidate g =>
      rw [List.map_append, tally_append, hmismatch candidate g]
      cases law <;> simp [recordReject, counts, isCall, isGenerated, isRepaired, h]
      rfl
    | dedup h candidate g =>
      rw [List.map_append, List.map_append, tally_append, tally_append, hmismatch candidate g]
      cases law <;> simp [recordReject, counts, isCall, isGenerated, isRepaired, h]
      rfl
  case succeeded =>
    intro check
    cases law <;> simp [counts, isCall, isGenerated, isRepaired]
    split <;> rfl
  case failed =>
    intro check
    cases law <;> simp [counts, isCall, isGenerated, isRepaired]
    split <;> rfl
  case left =>
    intro r hr
    cases law <;> simp
    exact fun hrepairable => Bool.eq_false_iff.mpr fun henabled => hr ⟨henabled, hrepairable⟩
  case stopped =>
    intro r hr why hwhy
    simp only [List.mem_cons, List.not_mem_nil, or_false] at hwhy
    obtain rfl | rfl | rfl := hwhy <;> cases law <;> simp [counts, isCall, isGenerated, isRepaired, hr]
  case repaired =>
    intro r outcome hr
    cases law <;> simp [repairLog, counts, isCall, isGenerated, isRepaired, hr]
  case repairDiscarded =>
    intro reason
    cases law <;> rfl
  case pursued => cases law <;> exact ⟨rfl, rfl⟩
  case extra => cases law <;> rfl

theorem discharged (spec : ExerciseSpec) (policy : LoopPolicy S) (law : Law) :
    Discharged spec policy (weight (law.terms policy)) (law.potential policy) (law.total spec) where
  toConserved := conserved spec policy law
  publishes := fun s => by
    cases s.publishedViaRepair <;> cases law <;> simp [counts, isCall, isGenerated, isRepaired]
  miscalibrated := by cases law <;> rfl
  derives := fun outcome => by
    cases outcome <;> cases law <;> simp [derivedLog, counts, isCall, isGenerated, isRepaired]

end Laws

/-! ## The rows -/

section Rows

variable {S : Type} {h : Hashing} {cb : Callbacks S} {spec : ExerciseSpec} {policy : LoopPolicy S}

/-- What is not counted before a survivor is published is conserved, at nothing. -/
theorem conserved_late {w : Event S → Int} (hw : ∀ e : Event S, e.isLate = false → w e = 0) (spec : ExerciseSpec)
    (policy : LoopPolicy S) : Conserved spec policy w ⟨0, fun _ => 0, fun _ => 0, 0, 0⟩ := by
  have hlog : ∀ log : List (Event S), (∀ e ∈ log, e.isLate = false) → tally w log = 0 := fun log hlate => by
    induction log with
    | nil => rfl
    | cons e log ih =>
      rw [tally_cons, hw e (hlate e List.mem_cons_self), ih fun e he => hlate e (List.mem_cons_of_mem _ he)]
      rfl
  have hgates : ∀ passed : List GateCounter, tally w (passed.map fun k => .counted (.gate k)) = 0 := fun passed =>
    hlog _ fun e he => by
      obtain ⟨k, -, rfl⟩ := List.mem_map.mp he
      rfl
  constructor
  case fresh =>
    intro outcome
    rw [hw _ rfl, hw _ rfl, hw _ rfl]
    rfl
  case discarded =>
    intro outcome reason
    rw [hw _ rfl, hw _ rfl, hw _ rfl, hw _ rfl]
    rfl
  case passes =>
    intro passed s c _
    rw [hgates, hw _ rfl, ite_self]
    rfl
  case rejects =>
    intro passed r c _
    rw [hgates, hw _ rfl, hlog (recordReject spec r.stage c) (by simp [recordReject, isLate, Counter.isLate])]
    rfl
  case stopped =>
    intro r hr why hwhy
    refine (zero_add _).trans (hlog (why.map .counted) ?_)
    simp only [List.mem_cons, List.not_mem_nil, or_false] at hwhy
    obtain rfl | rfl | rfl := hwhy <;> simp [isLate, Counter.isLate]
  case repaired =>
    intro r outcome hr
    exact (zero_add _).trans (hlog (repairLog r outcome) (by simp [repairLog, isLate, Counter.isLate]))
  case left => exact fun r hr => rfl
  case pursued => exact ⟨hw (.counted .bestOfNPursued) rfl, hw (.counted .bestOfNSelectedBetter) rfl⟩
  case extra => exact (zero_add _).trans (hw (.counted .bestOfNExtraSurvivors) rfl)
  case repairDiscarded => exact fun reason => (zero_add _).trans (hw (.counted (.repairDiscarded reason)) rfl)
  case succeeded =>
    intro check
    rw [hw _ rfl, hw _ rfl]
    rfl
  case failed =>
    intro check
    rw [hw _ rfl, hw _ rfl]
    rfl

/-- What is not counted before a survivor is published is counted there. -/
theorem countP_late [LinearOrder S] {p : Event S → Bool} (hp : ∀ e : Event S, e.isLate = false → p e = false)
    {contentHash : String → String} {pool : List String} {coverage : Nat} {r : Resolution S}
    (hr : resolveSpec cb contentHash pool spec policy coverage = some r) :
    r.log.countP p = r.winner.elim 0 fun s => (publishSurvivor cb spec policy s).countP p := by
  have hw := conserved_late (w := weight [(1, p)]) (fun e he => by simp [hp e he]) spec policy
  have htally : ∀ log : List (Event S), tally (weight [(1, p)]) log = (log.countP p : Int) := fun log => by
    rw [tally_weight]
    simp
  obtain ⟨⟨survivors, log⟩, hgen, rfl⟩ := Option.map_eq_some_iff.mp hr
  have hlog : log.countP p = 0 := by
    have htotal := hw.tally_generateSurvivors hgen
    rw [htally] at htotal
    dsimp only at htotal
    omega
  cases survivors with
  | nil => exact hlog
  | cons first rest =>
    have hpursued : (pursuedLog first rest).countP p = 0 := by
      have htotal := hw.tally_pursuedLog first rest
      rw [htally] at htotal
      dsimp only at htotal
      omega
    show (log ++ pursuedLog first rest ++ publishSurvivor cb spec policy (bestOf first rest)).countP p =
      (publishSurvivor cb spec policy (bestOf first rest)).countP p
    rw [List.countP_append, List.countP_append, hlog, hpursued, Nat.zero_add]

theorem counter_viaRepair (cb : Callbacks S) (spec : ExerciseSpec) (policy : LoopPolicy S) (s : Survivor S) :
    counter .publishedViaRepair (publishSurvivor cb spec policy s) = if s.publishedViaRepair then 1 else 0 := by
  have hmiscalibrated : counter .publishedViaRepair (if s.difficultyMiscalibrated then
      [.counted .difficultyMiscalibrated, .counted (.difficultyMiscalibratedOf spec.type spec.concept)]
      else ([] : List (Event S))) = 0 := by
    split <;> rfl
  simp only [publishSurvivor, counter_append, hmiscalibrated]
  have hpublished : counter .publishedViaRepair [.published s, .counted .publishedInReview, .counted (.conceptPublished spec.concept),
      .counted (if s.publishedViaRepair then .publishedViaRepair else .publishedFirstTry)] =
        if s.publishedViaRepair then 1 else 0 := by
    cases s.publishedViaRepair <;> rfl
  rw [hpublished]
  cases derived cb spec policy s with
  | none => rfl
  | some seeded =>
    obtain ⟨stb, outcome⟩ := seeded
    cases outcome <;> rfl

/-- Of those that are published after a repair, each was rescued by it. -/
theorem viaRepair_le [LinearOrder S] {contentHash : String → String} {pool : List String} {coverage : Nat} {r : Resolution S}
    (hr : resolveSpec cb contentHash pool spec policy coverage = some r) :
    counter .publishedViaRepair r.log ≤ r.log.countP isRescued := by
  have hlate : ∀ e : Event S, e.isLate = false → counts .publishedViaRepair e = false := fun e he => by
    cases e with
    | counted k => cases k <;> first | rfl | cases he
    | _ => rfl
  rw [counter, countP_late hlate hr]
  cases hwinner : r.winner with
  | none => exact Nat.zero_le _
  | some s =>
    refine (counter_viaRepair cb spec policy s).trans_le ?_
    split
    · rename_i hvia
      -- the survivor is among those that passed, and they are in the log
      obtain ⟨earlier, later, hsplit, -⟩ := (resolved_of_resolveSpec hr).best s hwinner
      have hpassed : s ∈ r.log.filterMap passed? := hsplit ▸ List.mem_append_right _ List.mem_cons_self
      obtain ⟨e, he, hs⟩ := List.mem_filterMap.mp hpassed
      have hrescued : e.isRescued = true := by
        unfold passed? at hs
        split at hs
        · cases hs
          exact hvia
        · cases hs
      exact List.countP_pos_iff.mpr ⟨e, he, hrescued⟩
    · exact Nat.zero_le _

theorem survivorRow_isPtf (run : SpecRun S) (survivor : Survivor S) : (survivorRow h run survivor).isPtf = false := by
  unfold survivorRow Exercise.isPtf
  split <;> rfl

theorem derivedRows_isPtf (run : SpecRun S) (survivor : Survivor S) : ∀ e ∈ derivedRows h policy run survivor, e.isPtf = true := by
  intro e he
  unfold derivedRows at he
  split at he
  · rw [List.mem_singleton.mp he]
    rfl
  · exact absurd he List.not_mem_nil

theorem countP_publishSurvivor (run : SpecRun S) (survivor : Survivor S) :
    (publishSurvivor run.cb run.spec policy survivor).countP isPtfPublished = (derivedRows h policy run survivor).length := by
  have hmiscalibrated : (if survivor.difficultyMiscalibrated then
      [.counted .difficultyMiscalibrated, .counted (.difficultyMiscalibratedOf run.spec.type run.spec.concept)]
      else ([] : List (Event S))).countP isPtfPublished = 0 := by
    split <;> rfl
  simp only [publishSurvivor, List.countP_append, hmiscalibrated]
  unfold derivedRows
  cases derived run.cb run.spec policy survivor with
  | none => rfl
  | some seeded =>
    obtain ⟨stb, outcome⟩ := seeded
    cases outcome <;> rfl

/-- The rows other than those of a `predict_the_fix`: one, of the survivor. -/
theorem length_filter_survivor (policy : LoopPolicy S) (run : SpecRun S) (winner : Option (Survivor S)) :
    ((winner.elim [] fun s => survivorRow h run s :: derivedRows h policy run s).filter (!·.isPtf)).length =
      if winner.isSome then 1 else 0 := by
  cases winner with
  | none => rfl
  | some survivor =>
    have hderived : (derivedRows h policy run survivor).filter (!·.isPtf) = [] :=
      List.filter_eq_nil_iff.mpr fun e he => by simp [derivedRows_isPtf run survivor e he]
    show ((survivorRow h run survivor :: derivedRows h policy run survivor).filter (!·.isPtf)).length = 1
    rw [List.filter_cons_of_pos (by simp [survivorRow_isPtf]), hderived]
    rfl

variable [LinearOrder S]

/-- The rows of a specification: none, or the survivor's and what is derived from it. -/
theorem insertion_rows {table : Exercises} {b : Batch S} {run : SpecRun S} {r : Resolution S} {inserted : Option (Survivor S) × List Exercise}
    (hr : resolveSpec run.cb h.contentHash b.pool run.spec b.policy run.coverage = some r)
    (hins : insertion h table b run = some inserted) :
    inserted = (r.winner, r.winner.elim [] fun s => survivorRow h run s :: derivedRows h b.policy run s) := by
  rw [insertion, hr, Option.bind_some] at hins
  cases hwinner : r.winner with
  | none =>
    rw [hwinner] at hins
    cases hins
    rfl
  | some survivor =>
    rw [hwinner] at hins
    dsimp only at hins
    split at hins
    · cases hins
      rfl
    · cases hins

/-- As many rows of a `predict_the_fix` as were published. -/
theorem length_filter_derived {b : Batch S} {run : SpecRun S} {r : Resolution S}
    (hr : resolveSpec run.cb h.contentHash b.pool run.spec b.policy run.coverage = some r) :
    ((r.winner.elim [] fun s => survivorRow h run s :: derivedRows h b.policy run s).filter (·.isPtf)).length =
      r.log.countP isPtfPublished := by
  have hlate : ∀ e : Event S, e.isLate = false → isPtfPublished e = false := fun e he => by
    cases e <;> first | rfl | cases he
  rw [countP_late hlate hr]
  cases r.winner with
  | none => rfl
  | some survivor =>
    show ((survivorRow h run survivor :: derivedRows h b.policy run survivor).filter (·.isPtf)).length =
      (publishSurvivor run.cb run.spec b.policy survivor).countP isPtfPublished
    rw [List.filter_cons_of_neg (by simp [survivorRow_isPtf]), List.filter_eq_self.mpr (derivedRows_isPtf run survivor),
      countP_publishSurvivor]

end Rows

/-! ## The whole batch -/

section Batch

variable {S : Type} [LinearOrder S] {h : Hashing} {start b b' : BatchLoop S} {drawn : SpecRun S}

/-- What there is of the batch, committed or not. -/
def BatchLoop.rows {S : Type} (b : BatchLoop S) : List Exercise := PipelineState.rows ⟨b.table, some b.batch⟩

omit [LinearOrder S] in
theorem commit_some {table : Exercises} {b b' : Batch S} (hb' : (commit table b).batch = some b') :
    b'.policy = b.policy ∧ PipelineState.rows (commit table b) = table.rows ++ b.pending := by
  unfold commit at hb' ⊢
  split at hb'
  · rename_i table' hins
    cases hb'
    exact ⟨rfl, (List.append_nil _).trans (insertAll_rows hins)⟩
  · cases hb'

theorem runSpec_some {table : Exercises} {b b' : Batch S} {run : SpecRun S} {inserted : Option (Survivor S) × List Exercise}
    (hins : insertion h table b run = some inserted) (hb' : (runSpec h table b run).batch = some b') :
    b'.policy = b.policy ∧ PipelineState.rows (runSpec h table b run) = table.rows ++ b.pending ++ inserted.2 := by
  unfold runSpec at hb' ⊢
  rw [hins] at hb' ⊢
  dsimp only at hb' ⊢
  rw [List.append_assoc]
  split at hb'
  · rename_i hcommit
    rw [if_pos hcommit]
    exact commit_some hb'
  · rename_i hcommit
    rw [if_neg hcommit]
    cases hb'
    exact ⟨rfl, rfl⟩

/-- One turn: the specification that was drawn, resolved, and its rows inserted. -/
theorem next_spec (hnext : b.next h drawn = some b') :
    ∃ (r : Resolution S) (rows : List Exercise) (coverage : Nat),
      resolveSpec drawn.cb h.contentHash b.batch.pool drawn.spec b.batch.policy coverage = some r ∧
      b'.report = b.report.resolved drawn.spec r rows ∧ b'.batch.policy = b.batch.policy ∧ b'.rows = b.rows ++ rows ∧
      (rows.filter (!·.isPtf)).length = (if r.winner.isSome then 1 else 0) ∧
      (rows.filter (·.isPtf)).length = r.log.countP isPtfPublished := by
  obtain ⟨r, hr, hnext⟩ := Option.bind_eq_some_iff.mp hnext
  obtain ⟨inserted, hins, hnext⟩ := Option.bind_eq_some_iff.mp hnext
  obtain ⟨batch, hbatch, rfl⟩ := Option.map_eq_some_iff.mp hnext
  have hrows := insertion_rows hr hins
  refine ⟨r, inserted.2, _, hr, rfl, ?_, ?_, ?_, ?_⟩
  case refine_1 => exact (runSpec_some hins hbatch).1
  case refine_2 =>
    have hrows := (runSpec_some hins hbatch).2
    rw [PipelineState.rows, hbatch] at hrows
    exact hrows
  case refine_3 =>
    rw [hrows]
    exact length_filter_survivor _ _ r.winner
  case refine_4 =>
    rw [hrows]
    exact length_filter_derived hr

/-- What the report of a batch that began at `start` comes to. -/
structure Accounts (start b : BatchLoop S) : Prop where
  policy : b.batch.policy = start.batch.policy
  laws : ∀ law : Law, tally (weight (law.terms start.batch.policy)) b.report.log +
    (b.report.exhausted.map fun spec => law.total spec).sum = (b.report.sampled.map fun spec => law.total spec).sum
  coverage : ∀ key, b.report.coverageBefore key + b.report.sampled.countP (·.coverageKey == key) =
    b.report.coverageAfter key + b.report.exhausted.countP (·.coverageKey == key)
  rows : ∃ rows, b.rows = start.rows ++ rows ∧ b.report.published = (rows.filter (!·.isPtf)).map (·.identity) ∧
    b.report.ptfPublished = (rows.filter (·.isPtf)).map (·.identity)
  published : b.report.published.length + b.report.exhausted.length = b.report.sampled.length
  ptf : b.report.ptfPublished.length = b.report.log.countP isPtfPublished
  calls : b.report.log.countP isCall ≤ b.report.sampled.length * start.batch.policy.maxAttemptsPerSpec
  rescued : counter .publishedViaRepair b.report.log ≤ b.report.log.countP isRescued

theorem Accounts.next (haccounts : Accounts start b) (hnext : b.next h drawn = some b') : Accounts start b' := by
  obtain ⟨r, rows, coverage, hr, hreport, hpolicy, hrows, hone, hptf⟩ := next_spec hnext
  rw [haccounts.policy] at hr
  constructor
  case policy => exact hpolicy.trans haccounts.policy
  case laws =>
    intro law
    have hlaw := haccounts.laws law
    have htotal := (discharged drawn.spec start.batch.policy law).tally_resolveSpec hr
    rw [hreport]
    simp only [BatchReport.resolved, tally_append, List.map_append, List.sum_append, List.map_singleton, List.sum_singleton]
    cases hwinner : r.winner with
    | none =>
      simp only [hwinner, Option.isSome_none, Bool.false_eq_true, if_false, List.map_append, List.sum_append,
        List.map_singleton, List.sum_singleton] at htotal ⊢
      omega
    | some s =>
      simp only [hwinner, Option.isSome_some, if_true] at htotal ⊢
      omega
  case coverage =>
    intro key
    have hcoverage := haccounts.coverage key
    rw [hreport]
    simp only [BatchReport.resolved, List.countP_append, List.countP_singleton]
    cases hwinner : r.winner with
    | none =>
      simp only [Option.isSome_none, Bool.false_eq_true, if_false, List.countP_append, List.countP_singleton]
      omega
    | some s =>
      simp only [Option.isSome_some, if_true, Coverage.add, Function.update_apply]
      by_cases hkey : drawn.spec.coverageKey = key
      · rw [hkey, if_pos rfl, if_pos (beq_self_eq_true key)]
        omega
      · rw [if_neg (Ne.symm hkey), if_neg (by simpa using hkey)]
        exact hcoverage
  case rows =>
    obtain ⟨before, hbefore, hpublished, hderived⟩ := haccounts.rows
    refine ⟨before ++ rows, ?_, ?_, ?_⟩
    · rw [hrows, hbefore, List.append_assoc]
    · rw [hreport, List.filter_append, List.map_append, ← hpublished]
      rfl
    · rw [hreport, List.filter_append, List.map_append, ← hderived]
      rfl
  case published =>
    have hpublished := haccounts.published
    rw [hreport]
    simp only [BatchReport.resolved, List.length_append, List.length_map, List.length_singleton]
    rw [hone]
    cases hwinner : r.winner with
    | none =>
      simp only [Option.isSome_none, Bool.false_eq_true, if_false, List.length_append, List.length_singleton]
      omega
    | some s =>
      simp only [Option.isSome_some, if_true]
      omega
  case ptf =>
    rw [hreport]
    simp only [BatchReport.resolved, List.length_append, List.length_map, List.countP_append]
    rw [haccounts.ptf, hptf]
  case calls =>
    have hcalls := haccounts.calls
    have hbudget := (resolved_of_resolveSpec hr).budget
    rw [hreport]
    simp only [BatchReport.resolved, List.length_append, List.length_singleton, List.countP_append, Nat.add_mul, Nat.one_mul]
    omega
  case rescued =>
    have hrescued := haccounts.rescued
    have hvia := viaRepair_le hr
    rw [hreport]
    simp only [BatchReport.resolved, counter_append, List.countP_append]
    omega

/-- **A whole batch**, by induction on the specifications. -/
theorem Accounts.run {draw : BatchLoop S → SpecRun S} {n : Nat} (haccounts : Accounts start b)
    (hrun : runBatch h draw n b = some b') :
    Accounts start b' ∧ b'.report.sampled.length = b.report.sampled.length + n ∧
      b'.report.coverageBefore = b.report.coverageBefore := by
  induction n generalizing b with
  | zero =>
    cases hrun
    exact ⟨haccounts, rfl, rfl⟩
  | succ n ih =>
    obtain ⟨b₁, hnext, hrest⟩ := Option.bind_eq_some_iff.mp hrun
    obtain ⟨hend, hlength, hbefore⟩ := ih (haccounts.next hnext) hrest
    obtain ⟨r, rows, coverage, -, hreport, -⟩ := next_spec hnext
    rw [hreport] at hlength hbefore
    simp only [BatchReport.resolved, List.length_append, List.length_singleton] at hlength hbefore
    exact ⟨hend, by omega, hbefore⟩

omit [LinearOrder S] in
theorem Accounts.of_empty (hreport : start.report = ⟨[], [], [], [], start.report.coverageBefore,
    start.report.coverageBefore, []⟩) : Accounts start start where
  policy := rfl
  laws := fun law => by
    rw [hreport]
    rfl
  coverage := fun key => by
    rw [hreport]
  rows := ⟨[], (List.append_nil _).symm, by rw [hreport]; rfl, by rw [hreport]; rfl⟩
  published := by
    rw [hreport]
    rfl
  ptf := by
    rw [hreport]
    rfl
  calls := by
    rw [hreport]
    exact Nat.zero_le _
  rescued := by
    rw [hreport]
    exact Nat.zero_le _

omit [LinearOrder S] in
/-- What a law says of the counters. -/
theorem Accounts.law (haccounts : Accounts start b) (law : Law) :
    ((law.terms start.batch.policy).map fun t => t.1 * (b.report.log.countP t.2 : Int)).sum +
      (b.report.exhausted.map fun spec => law.total spec).sum = (b.report.sampled.map fun spec => law.total spec).sum := by
  rw [← tally_weight]
  exact haccounts.laws law

omit [LinearOrder S] in
/-- The two sides of a law are the same, where publications do not come into it. -/
theorem Accounts.balance (haccounts : Accounts start b) (law : Law) (htotal : ∀ spec, law.total spec = 0) :
    ((law.terms start.batch.policy).map fun t => t.1 * (b.report.log.countP t.2 : Int)).sum = 0 := by
  have hlaw := haccounts.law law
  simp only [htotal, List.map_const', List.sum_replicate, nsmul_eq_mul, mul_zero, add_zero] at hlaw
  exact hlaw

/-- **The report of a batch is a funnel that balances.** -/
structure Funnel (start b : BatchLoop S) : Prop where
  /-- Every specification is published once or exhausted, for each concept too. -/
  sampled : b.report.sampled.length = counter .publishedInReview b.report.log + b.report.exhausted.length
  sampledOf : ∀ concept, b.report.sampled.countP (·.concept == concept) =
    counter (.conceptPublished concept) b.report.log + b.report.exhausted.countP (·.concept == concept)
  coverage : ∀ key, b.report.coverageBefore key + b.report.sampled.countP (·.coverageKey == key) =
    b.report.coverageAfter key + b.report.exhausted.countP (·.coverageKey == key)
  /-- Each gate passes on what the one before it passed, less what it rejects. -/
  fresh : counter .generatedTotal b.report.log = counter .generatePassed b.report.log + counters .generateDiscarded b.report.log
  evaluated : counter .generatePassed b.report.log + counter .repairAttempted b.report.log =
    counter (.gate .staticGatePassed) b.report.log + counter (.rejected "static_gate") b.report.log +
      counters .repairDiscarded b.report.log
  static : counter (.gate .staticGatePassed) b.report.log =
    counter (.gate .sandboxGatePassed) b.report.log + counter (.rejected "sandbox_gate") b.report.log
  sandbox : counter (.gate .sandboxGatePassed) b.report.log =
    counter (.gate .semanticGatePassed) b.report.log + counter (.rejected "semantic_gate") b.report.log
  semantic : counter (.gate .semanticGatePassed) b.report.log =
    counter (.gate .dedupPassed) b.report.log + counter (.rejected "dedup") b.report.log
  dedup : counter (.gate .dedupPassed) b.report.log =
    counter .publishedInReview b.report.log + counter .bestOfNExtraSurvivors b.report.log
  /-- Each rejection is counted for its stage and its concept, and has its report. -/
  rejected : counters .conceptRejected b.report.log = counters .rejected b.report.log + counters .generateDiscarded b.report.log
  reported : b.report.log.countP isReported = counters .rejected b.report.log
  split : counter .publishedInReview b.report.log =
    counter .publishedViaRepair b.report.log + counter .publishedFirstTry b.report.log
  ptf : counter .ptfDerivationAttempted b.report.log = counter .ptfPublishedInReview b.report.log +
    counters .ptfGenerateDiscarded b.report.log + counters .ptfRejected b.report.log
  /-- The rows of the batch are those that the report names. -/
  published : b.report.published.length = counter .publishedInReview b.report.log
  ptfPublished : b.report.ptfPublished.length = counter .ptfPublishedInReview b.report.log
  rows : ∃ rows, b.rows = start.rows ++ rows ∧ b.report.published = (rows.filter (!·.isPtf)).map (·.identity) ∧
    b.report.ptfPublished = (rows.filter (·.isPtf)).map (·.identity)
  budget : counter .generatedTotal b.report.log + counter .repairAttempted b.report.log ≤
    b.report.sampled.length * start.batch.policy.maxAttemptsPerSpec

theorem sum_concept (concept : String) (specs : List ExerciseSpec) :
    (specs.map fun spec => if spec.concept = concept then (1 : Int) else 0).sum = specs.countP (·.concept == concept) := by
  induction specs with
  | nil => rfl
  | cons spec specs ih =>
    rw [List.map_cons, List.sum_cons, ih, List.countP_cons]
    simp only [beq_iff_eq]
    split <;> push_cast <;> ring

omit [LinearOrder S] in
theorem Accounts.funnel (haccounts : Accounts start b) : Funnel start b := by
  have hpublished := haccounts.law .published
  have hderived := haccounts.law .ptfRows
  simp only [Law.terms, Law.total, List.map_cons, List.map_nil, List.sum_cons, List.sum_nil, List.map_const', List.sum_replicate,
    nsmul_eq_mul] at hpublished hderived
  constructor
  case sampled =>
    unfold counter
    omega
  case sampledOf =>
    intro concept
    have hlaw := haccounts.law (.publishedOf concept)
    simp only [Law.terms, Law.total, List.map_cons, List.map_nil, List.sum_cons, List.sum_nil, sum_concept] at hlaw
    unfold counter
    omega
  case coverage => exact haccounts.coverage
  case rows => exact haccounts.rows
  case published =>
    have hlength := haccounts.published
    unfold counter
    omega
  case ptfPublished =>
    have hlength := haccounts.ptf
    unfold counter
    omega
  case fresh =>
    have hlaw := haccounts.balance .fresh fun _ => rfl
    simp only [Law.terms, List.map_cons, List.map_nil, List.sum_cons, List.sum_nil] at hlaw
    unfold counter counters
    omega
  case evaluated =>
    have hlaw := haccounts.balance .evaluated fun _ => rfl
    simp only [Law.terms, List.map_cons, List.map_nil, List.sum_cons, List.sum_nil] at hlaw
    unfold counter counters
    omega
  case static =>
    have hlaw := haccounts.balance .static fun _ => rfl
    simp only [Law.terms, List.map_cons, List.map_nil, List.sum_cons, List.sum_nil] at hlaw
    unfold counter
    omega
  case sandbox =>
    have hlaw := haccounts.balance .sandbox fun _ => rfl
    simp only [Law.terms, List.map_cons, List.map_nil, List.sum_cons, List.sum_nil] at hlaw
    unfold counter
    omega
  case semantic =>
    have hlaw := haccounts.balance .semantic fun _ => rfl
    simp only [Law.terms, List.map_cons, List.map_nil, List.sum_cons, List.sum_nil] at hlaw
    unfold counter
    omega
  case dedup =>
    have hlaw := haccounts.balance .dedup fun _ => rfl
    simp only [Law.terms, List.map_cons, List.map_nil, List.sum_cons, List.sum_nil] at hlaw
    unfold counter
    omega
  case rejected =>
    have hlaw := haccounts.balance .rejected fun _ => rfl
    simp only [Law.terms, List.map_cons, List.map_nil, List.sum_cons, List.sum_nil] at hlaw
    unfold counters
    omega
  case reported =>
    have hlaw := haccounts.balance .reported fun _ => rfl
    simp only [Law.terms, List.map_cons, List.map_nil, List.sum_cons, List.sum_nil] at hlaw
    unfold counters
    omega
  case split =>
    have hlaw := haccounts.balance .split fun _ => rfl
    simp only [Law.terms, List.map_cons, List.map_nil, List.sum_cons, List.sum_nil] at hlaw
    unfold counter
    omega
  case ptf =>
    have hlaw := haccounts.balance .ptf fun _ => rfl
    simp only [Law.terms, List.map_cons, List.map_nil, List.sum_cons, List.sum_nil] at hlaw
    unfold counter counters
    omega
  case budget =>
    have hlaw := haccounts.balance .calls fun _ => rfl
    have hcalls := haccounts.calls
    simp only [Law.terms, List.map_cons, List.map_nil, List.sum_cons, List.sum_nil] at hlaw
    unfold counter
    omega

/-- **What became of the rejections that could be repaired, and of the repairs.** -/
structure Repairs (policy : LoopPolicy S) (log : List (Event S)) : Prop where
  /-- Each is repaired, or the repairs of its lineage stop for one of three reasons. -/
  stopped : (if policy.repairEnabled then log.countP isRepairable else 0) =
    counter .repairAttempted log + counter .repairStoppedMaxRounds log + counter .repairStoppedSameCheck log +
      counter .repairStoppedBudget log
  sameCheck : counter .repairStoppedSameCheck log = counters .repairStoppedSameCheckOf log
  /-- Each repair succeeds or fails, once, under the check that it was for. -/
  settled : counter .repairAttempted log = counter .repairSucceeded log + counter .repairFailed log
  settledOf : ∀ check, counter (.repairAttemptedOf check) log =
    counter (.repairSucceededOf check) log + counter (.repairFailedOf check) log
  attempted : counter .repairAttempted log = counters .repairAttemptedOf log
  succeeded : counter .repairSucceeded log = counters .repairSucceededOf log
  failed : counter .repairFailed log = counters .repairFailedOf log
  /-- What is published after a repair is one that succeeded. -/
  rescued : counter .publishedViaRepair log ≤ counter .repairSucceeded log

omit [LinearOrder S] in
theorem Accounts.repairs (haccounts : Accounts start b) : Repairs start.batch.policy b.report.log := by
  constructor
  case stopped =>
    have hlaw := haccounts.balance .stopped fun _ => rfl
    simp only [Law.terms, List.map_cons, List.map_nil, List.sum_cons, List.sum_nil] at hlaw
    unfold counter
    split
    · rename_i henabled
      rw [if_pos henabled] at hlaw
      omega
    · rename_i hdisabled
      rw [if_neg hdisabled] at hlaw
      omega
  case settledOf =>
    intro check
    have hlaw := haccounts.balance (.repairOf check) fun _ => rfl
    simp only [Law.terms, List.map_cons, List.map_nil, List.sum_cons, List.sum_nil] at hlaw
    unfold counter
    omega
  case sameCheck =>
    have hlaw := haccounts.balance .sameCheck fun _ => rfl
    simp only [Law.terms, List.map_cons, List.map_nil, List.sum_cons, List.sum_nil] at hlaw
    unfold counter counters
    omega
  case attempted =>
    have hlaw := haccounts.balance .attempted fun _ => rfl
    simp only [Law.terms, List.map_cons, List.map_nil, List.sum_cons, List.sum_nil] at hlaw
    unfold counter counters
    omega
  case succeeded =>
    have hlaw := haccounts.balance .succeeded fun _ => rfl
    simp only [Law.terms, List.map_cons, List.map_nil, List.sum_cons, List.sum_nil] at hlaw
    unfold counter counters
    omega
  case failed =>
    have hlaw := haccounts.balance .failed fun _ => rfl
    simp only [Law.terms, List.map_cons, List.map_nil, List.sum_cons, List.sum_nil] at hlaw
    unfold counter counters
    omega
  case settled =>
    have hlaw := haccounts.balance .settled fun _ => rfl
    simp only [Law.terms, List.map_cons, List.map_nil, List.sum_cons, List.sum_nil] at hlaw
    unfold counter
    omega
  case rescued =>
    have hlaw := haccounts.balance .rescued fun _ => rfl
    have hrescued := haccounts.rescued
    simp only [Law.terms, List.map_cons, List.map_nil, List.sum_cons, List.sum_nil] at hlaw
    unfold counter at hrescued ⊢
    omega

variable {table : Exercises} {policy : LoopPolicy S} {commitAfterEachSpec : Bool} {coverage : Coverage}
  {draw : BatchLoop S → SpecRun S} {n : Nat}

def repairedCallbacks : Callbacks Nat :=
  { sumCallbacks with
    repair := fun _ _ _ => ⟨some (.trace sumTrace), "trace_py_v1", ""⟩
    gates := fun n _ => ⟨decide (n ≠ 0), { accepted := true, checks := [] }, { survived := true }, 1, false⟩ }

def oneRepair : LoopPolicy Nat := { firstSurvivor with repairEnabled := true, maxAttemptsPerSpec := 2, maxRepairRounds := 1 }

def repairedStart : BatchLoop Nat := .start Exercises.empty oneRepair true fun _ => 0

def repairedDraw (b : BatchLoop Nat) : SpecRun Nat := { sumRun (b.report.sampled.length + 1) with cb := repairedCallbacks }

/-- The counters of a report, of those in question. -/
def BatchReport.counts {S : Type} (report : BatchReport S) (keys : List Counter) : List Nat := keys.map fun k => counter k report.log

/-- **No repair is lost**, in any batch. -/
theorem report_repairs (hrun : runBatch h draw n (.start table policy commitAfterEachSpec coverage) = some b) :
    Repairs policy b.report.log :=
  ((Accounts.of_empty rfl).run hrun).1.repairs

theorem report_repairs_repaired :
    ∃ b, runBatch sumHashing repairedDraw 2 repairedStart = some b ∧
      b.report.counts [.repairAttempted, .repairSucceeded, .repairFailed, .publishedViaRepair] = [2, 1, 1, 1] ∧
        Repairs oneRepair b.report.log := by
  have hcounts : (runBatch sumHashing repairedDraw 2 repairedStart).map (fun b =>
      b.report.counts [.repairAttempted, .repairSucceeded, .repairFailed, .publishedViaRepair]) = some [2, 1, 1, 1] := by
    decide +kernel
  obtain ⟨b, hrun, hcounts⟩ := Option.map_eq_some_iff.mp hcounts
  exact ⟨b, hrun, hcounts, report_repairs hrun⟩

end Batch

end CodeReader.Pipeline
