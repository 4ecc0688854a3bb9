import CodeReader.Pipeline.Answerable
import CodeReader.Pipeline.Resolution
import Mathlib.Algebra.Order.Field.Rat
import Mathlib.Data.Rat.Floor
import Mathlib.Tactic.Linarith

/-!
# The score of a survivor

From what the gates have found already; scores are rational numbers.

* `scoreSurvivor` — one, less what speaks against the survivor, kept between zero and one;
* `score_lt_iff_struggle` — **a struggle counts only against another flaw**: the score is cut at one;
* `publishes_struggle_iff` — when the survivor that is published is one that the solver struggled with.
-/

namespace CodeReader.Pipeline

/-! ## Scoring -/

def baseScore : Rat := 1
def hardDifficulty : Int := 7
def midDifficulty : Int := 6
def breezeConfidence : Rat := 9 / 10
def struggleConfidence : Rat := 6 / 10
def penaltyBreezedHard : Rat := 40 / 100
def bonusStruggleHard : Rat := 15 / 100
def penaltyBugInFirstTwoLines : Rat := 20 / 100
def penaltyShortCodeAtHighDifficulty : Rat := 20 / 100
def penaltyClaimMismatch : Rat := 15 / 100
def penaltySemanticFlag : Rat := 25 / 100
def shortCodeMaxLines : Nat := 8

structure QualityScore where
  score : Rat
  breakdown : List (String × Rat)
  difficultyMiscalibrated : Bool
  difficultyEmpiricalEstimate : Int
  deriving DecidableEq

/-- What the scorer reads. -/
structure ScoreSignals where
  exerciseType : String
  authoredDifficulty : Int
  solverConfidence : Rat
  solverMatched : Bool
  codeLineCount : Nat
  verifiedBugLines : List Nat
  claimMismatch : Bool
  semanticFlagged : Bool
  deriving DecidableEq

/-- Python's `round`: to the nearest integer, and to the even one of two. -/
def roundHalfEven (x : Rat) : Int :=
  let below := x.floor
  let rest := x - below
  if rest < 1 / 2 then below else if 1 / 2 < rest then below + 1 else if below % 2 = 0 then below else below + 1

/-- `_empirical_difficulty_estimate`. -/
def empiricalDifficultyEstimate (confidence : Rat) (matched : Bool) : Int :=
  let solvedStrength := if matched then confidence else 0
  max 1 (min 10 (roundHalfEven (1 + 9 * (1 - solvedStrength))))

namespace ScoreSignals

variable (s : ScoreSignals)

def breezedHard : Bool := hardDifficulty ≤ s.authoredDifficulty && s.solverMatched && breezeConfidence ≤ s.solverConfidence

def struggledHard : Bool :=
  hardDifficulty ≤ s.authoredDifficulty && s.solverMatched && s.solverConfidence ≤ struggleConfidence

/-- The confidence of the solver against the difficulty. -/
def calibration : List (String × Rat) :=
  if s.breezedHard then [("breezed_hard", -penaltyBreezedHard)]
  else if s.struggledHard then [("genuine_struggle_hard", bonusStruggleHard)]
  else []

/-- What is held against a survivor, whatever the solver made of it. -/
def flaws : List (String × Rat) :=
  (if s.exerciseType = "spot_the_bug" then
    (if s.verifiedBugLines.min?.any (· ≤ 2) then [("bug_in_first_two_lines", -penaltyBugInFirstTwoLines)] else []) ++
      (if s.claimMismatch then [("claim_mismatch", -penaltyClaimMismatch)] else [])
  else []) ++
    (if midDifficulty ≤ s.authoredDifficulty ∧ s.codeLineCount < shortCodeMaxLines then
      [("short_code_at_high_difficulty", -penaltyShortCodeAtHighDifficulty)]
    else []) ++
    (if s.semanticFlagged then [("semantic_flag", -penaltySemanticFlag)] else [])

end ScoreSignals

def total (breakdown : List (String × Rat)) : Rat := (breakdown.map Prod.snd).sum

def scoreSurvivor (s : ScoreSignals) : QualityScore where
  score := max 0 (min 1 (baseScore + total (s.calibration ++ s.flaws)))
  breakdown := s.calibration ++ s.flaws
  difficultyMiscalibrated := s.breezedHard
  difficultyEmpiricalEstimate := empiricalDifficultyEstimate s.solverConfidence s.solverMatched

/-! ## The confidence alone -/

namespace ScoreSignals

/-- The same signals with another confidence of the solver. -/
def withConfidence (s : ScoreSignals) (confidence : Rat) : ScoreSignals := { s with solverConfidence := confidence }

/-- Something is held against a survivor of a hard specification. -/
def Flawed (s : ScoreSignals) : Prop :=
  (s.exerciseType = "spot_the_bug" ∧ ((∃ line ∈ s.verifiedBugLines, line ≤ 2) ∨ s.claimMismatch = true)) ∨
    s.codeLineCount < shortCodeMaxLines ∨ s.semanticFlagged = true

variable {s : ScoreSignals}

@[simp] theorem flaws_withConfidence (confidence : Rat) : (s.withConfidence confidence).flaws = s.flaws := rfl

theorem early_iff (lines : List Nat) : lines.min?.any (· ≤ 2) = true ↔ ∃ line ∈ lines, line ≤ 2 := by
  cases hmin : lines.min? with
  | none =>
    rw [List.min?_eq_none_iff.mp hmin]
    exact iff_of_false Bool.false_ne_true fun ⟨_, h, _⟩ => nomatch h
  | some least =>
    obtain ⟨hmem, hleast⟩ := List.min?_eq_some_iff.mp hmin
    rw [Option.any_some, decide_eq_true_iff]
    exact ⟨fun h => ⟨least, hmem, h⟩, fun ⟨line, hline, h⟩ => (hleast line hline).trans h⟩

theorem total_nil : total [] = 0 := rfl

theorem total_append (xs ys : List (String × Rat)) : total (xs ++ ys) = total xs + total ys := by
  rw [total, List.map_append, List.sum_append]
  rfl

theorem total_ite (p : Prop) [Decidable p] (name : String) (x : Rat) : total (if p then [(name, x)] else []) = if p then x else 0 := by
  split
  · exact add_zero x
  · rfl

/-- What is held against a survivor lowers its score, and leaves some of it. -/
theorem total_flaws (hd : hardDifficulty ≤ s.authoredDifficulty) :
    (s.Flawed → -(80 / 100) ≤ total s.flaws ∧ total s.flaws < 0) ∧ (¬ s.Flawed → total s.flaws = 0) := by
  have hmid : midDifficulty ≤ s.authoredDifficulty := le_trans (by decide) hd
  have hbug : total (if s.exerciseType = "spot_the_bug" then
      (if s.verifiedBugLines.min?.any (· ≤ 2) then [("bug_in_first_two_lines", -penaltyBugInFirstTwoLines)] else []) ++
        (if s.claimMismatch then [("claim_mismatch", -penaltyClaimMismatch)] else [])
      else []) = if s.exerciseType = "spot_the_bug" then
        (if s.verifiedBugLines.min?.any (· ≤ 2) then -(20 / 100) else 0) + (if s.claimMismatch then -(15 / 100) else 0) else 0 := by
    split
    · rw [total_append, total_ite, total_ite]
      rfl
    · rfl
  unfold flaws Flawed
  rw [total_append, total_append, hbug, total_ite, total_ite, ← early_iff]
  simp only [hmid, true_and, penaltyShortCodeAtHighDifficulty, penaltySemanticFlag]
  split_ifs <;> simp_all <;> norm_num

/-! ### The three ranges -/

theorem struggle_lt_breeze : struggleConfidence < breezeConfidence := by
  norm_num [struggleConfidence, breezeConfidence]

/-- The score with another confidence. -/
def scoreAt (s : ScoreSignals) (confidence : Rat) : Rat := (scoreSurvivor (s.withConfidence confidence)).score

/-- A survivor of a hard specification that the solver got right. -/
structure HardMatched (s : ScoreSignals) : Prop where
  hard : hardDifficulty ≤ s.authoredDifficulty
  matched : s.solverMatched = true

section Ranges

variable (h : s.HardMatched)

include h

theorem HardMatched.flaws_le : -(80 / 100) ≤ total s.flaws ∧ total s.flaws ≤ 0 := by
  obtain ⟨hflawed, hclean⟩ := total_flaws h.hard
  by_cases hs : s.Flawed
  · exact ⟨(hflawed hs).1, (hflawed hs).2.le⟩
  · rw [hclean hs]
    norm_num

theorem scoreAt_struggle {c : Rat} (hc : c ≤ struggleConfidence) : s.scoreAt c = min 1 (115 / 100 + total s.flaws) := by
  have hbreezed : (s.withConfidence c).breezedHard = false := by
    have hlow : ¬ breezeConfidence ≤ c := not_le.mpr (hc.trans_lt struggle_lt_breeze)
    simp [breezedHard, withConfidence, hlow]
  have hstruggled : (s.withConfidence c).struggledHard = true := by
    simp [struggledHard, withConfidence, h.hard, h.matched, hc]
  have hflaws := h.flaws_le
  have hbase : baseScore + total ((s.withConfidence c).calibration ++ (s.withConfidence c).flaws) =
      115 / 100 + total s.flaws := by
    rw [calibration, hbreezed, hstruggled, total_append, flaws_withConfidence]
    change 1 + (15 / 100 + 0 + total s.flaws) = _
    ring
  rw [scoreAt, scoreSurvivor, hbase, max_eq_right (le_min (by norm_num) (by linarith))]

theorem scoreAt_between {c : Rat} (hlow : struggleConfidence < c) (hhigh : c < breezeConfidence) :
    s.scoreAt c = 1 + total s.flaws := by
  have hbreezed : (s.withConfidence c).breezedHard = false := by simp [breezedHard, withConfidence, not_le.mpr hhigh]
  have hstruggled : (s.withConfidence c).struggledHard = false := by simp [struggledHard, withConfidence, not_le.mpr hlow]
  have hflaws := h.flaws_le
  have hbase : baseScore + total ((s.withConfidence c).calibration ++ (s.withConfidence c).flaws) = 1 + total s.flaws := by
    rw [calibration, hbreezed, hstruggled]
    rfl
  rw [scoreAt, scoreSurvivor, hbase, min_eq_right (by linarith), max_eq_right (by linarith)]

theorem scoreAt_breeze {c : Rat} (hc : breezeConfidence ≤ c) : s.scoreAt c = max 0 (60 / 100 + total s.flaws) := by
  have hbreezed : (s.withConfidence c).breezedHard = true := by
    simp [breezedHard, withConfidence, h.hard, h.matched, hc]
  have hflaws := h.flaws_le
  have hbase : baseScore + total ((s.withConfidence c).calibration ++ (s.withConfidence c).flaws) =
      60 / 100 + total s.flaws := by
    rw [calibration, hbreezed, total_append, flaws_withConfidence]
    change 1 + (-(40 / 100) + 0 + total s.flaws) = _
    ring
  rw [scoreAt, scoreSurvivor, hbase, min_eq_right (by linarith)]

/-- **A breeze scores less.** -/
theorem breeze_lt_between {c c' : Rat} (hlow : struggleConfidence < c) (hhigh : c < breezeConfidence)
    (hc' : breezeConfidence ≤ c') : s.scoreAt c' < s.scoreAt c := by
  have hflaws := h.flaws_le
  rw [scoreAt_between h hlow hhigh, scoreAt_breeze h hc']
  exact max_lt (by linarith) (by linarith)

theorem breeze_lt_struggle {c c' : Rat} (hc : c ≤ struggleConfidence) (hc' : breezeConfidence ≤ c') :
    s.scoreAt c' < s.scoreAt c := by
  have hflaws := h.flaws_le
  rw [scoreAt_struggle h hc, scoreAt_breeze h hc']
  exact max_lt (lt_min (by norm_num) (by linarith)) (lt_min (by linarith) (by linarith))

/-- **A struggle scores more only against another flaw**: without one, both scores are one. -/
theorem between_lt_struggle_iff {c c' : Rat} (hc : c ≤ struggleConfidence) (hlow : struggleConfidence < c')
    (hhigh : c' < breezeConfidence) : s.scoreAt c' < s.scoreAt c ↔ s.Flawed := by
  rw [scoreAt_struggle h hc, scoreAt_between h hlow hhigh, lt_min_iff]
  constructor
  · rintro ⟨hlt, -⟩
    by_contra hclean
    rw [(total_flaws h.hard).2 hclean] at hlt
    exact lt_irrefl _ ((add_zero _).symm.trans_lt hlt)
  · intro hs
    have hflaws := ((total_flaws h.hard).1 hs).2
    exact ⟨by linarith, by linarith⟩

theorem between_le_struggle {c c' : Rat} (hc : c ≤ struggleConfidence) (hlow : struggleConfidence < c')
    (hhigh : c' < breezeConfidence) : s.scoreAt c' ≤ s.scoreAt c := by
  have hflaws := h.flaws_le
  rw [scoreAt_struggle h hc, scoreAt_between h hlow hhigh]
  exact le_min (by linarith) (by linarith)

end Ranges

end ScoreSignals

/-! ## The survivor that is published -/

section Selection

variable {s : ScoreSignals} {ps : List (Survivor Rat × Rat)}

/-- Of the survivors that were not breezed, the first one was struggled with. -/
def FirstStruggled (ps : List (Survivor Rat × Rat)) : Prop :=
  ∃ p, ps.find? (fun p => p.2 < breezeConfidence) = some p ∧ p.2 ≤ struggleConfidence

/-- The first with the greatest score, with its confidence. -/
def FirstBest (ps : List (Survivor Rat × Rat)) (best : Survivor Rat × Rat) : Prop :=
  ∃ earlier later, ps = earlier ++ best :: later ∧ (∀ p ∈ earlier, p.1.score < best.1.score) ∧
    ∀ p ∈ later, p.1.score ≤ best.1.score

/-- **Of survivors that differ in the confidence alone, a struggle is the first best** if something is held against all of
them, or if it is the first that was not breezed. -/
theorem firstBest_struggle_iff (h : s.HardMatched) (hscore : ∀ p ∈ ps, p.1.score = s.scoreAt p.2)
    {best : Survivor Rat × Rat} (hbest : FirstBest ps best) (hstruggle : ∃ p ∈ ps, p.2 ≤ struggleConfidence) :
    best.2 ≤ struggleConfidence ↔ s.Flawed ∨ FirstStruggled ps := by
  obtain ⟨earlier, later, rfl, hearlier, hlater⟩ := hbest
  have hmem : best ∈ earlier ++ best :: later := List.mem_append_right _ List.mem_cons_self
  have hbestscore := hscore best hmem
  constructor
  · intro hb
    by_cases hs : s.Flawed
    · exact Or.inl hs
    -- without a flaw all that was not breezed scores one, so what is before the best was breezed
    refine Or.inr ⟨best, ?_, hb⟩
    have hbreezed : earlier.find? (fun p => p.2 < breezeConfidence) = none := by
      refine List.find?_eq_none.mpr fun p hp hawake => ?_
      have hlt := hearlier p hp
      rw [hscore p (List.mem_append_left _ hp), hbestscore, ScoreSignals.scoreAt_struggle h hb,
        (ScoreSignals.total_flaws h.hard).2 hs] at hlt
      by_cases hp' : p.2 ≤ struggleConfidence
      · rw [ScoreSignals.scoreAt_struggle h hp', (ScoreSignals.total_flaws h.hard).2 hs] at hlt
        exact lt_irrefl _ hlt
      · rw [ScoreSignals.scoreAt_between h (not_le.mp hp') (of_decide_eq_true hawake),
          (ScoreSignals.total_flaws h.hard).2 hs] at hlt
        norm_num at hlt
    rw [List.find?_append, hbreezed, Option.none_or]
    exact List.find?_cons_of_pos (decide_eq_true (hb.trans_lt ScoreSignals.struggle_lt_breeze))
  · intro hor
    by_contra hb
    have hb' := not_le.mp hb
    obtain ⟨q, hq, hqstruggle⟩ := hstruggle
    have hqle : q.1.score ≤ best.1.score := by
      rcases List.mem_append.mp hq with hq | hq
      · exact (hearlier q hq).le
      · rcases List.mem_cons.mp hq with rfl | hq
        · exact le_rfl
        · exact hlater q hq
    rw [hscore q hq, hbestscore] at hqle
    have hawake : best.2 < breezeConfidence := by
      by_contra hbreeze
      exact absurd hqle (not_le.mpr (ScoreSignals.breeze_lt_struggle h hqstruggle (not_lt.mp hbreeze)))
    rcases hor with hs | ⟨p, hfind, hp⟩
    · exact absurd hqle (not_le.mpr ((ScoreSignals.between_lt_struggle_iff h hqstruggle hb' hawake).mpr hs))
    · rw [List.find?_append] at hfind
      cases hfirst : earlier.find? (fun p => p.2 < breezeConfidence) with
      | none =>
        rw [hfirst, Option.none_or] at hfind
        have hhead : (best :: later).find? (fun p => p.2 < breezeConfidence) = some best :=
          List.find?_cons_of_pos (decide_eq_true hawake)
        obtain rfl := Option.some.inj (hhead.symm.trans hfind)
        exact hb hp
      | some p' =>
        rw [hfirst] at hfind
        obtain rfl := Option.some.inj hfind
        have hpmem := List.mem_of_find?_eq_some hfirst
        have hlt := hearlier p' hpmem
        rw [hscore p' (List.mem_append_left _ hpmem), hbestscore] at hlt
        exact absurd (ScoreSignals.between_le_struggle h hp hb' hawake) (not_le.mpr hlt)

end Selection

/-! ## Scored evaluations -/

/-- What the gates and the judge say of a candidate. -/
structure GateReadings where
  staticAccepted : Bool
  sandbox : SandboxGateResult
  semantic : SemanticOutcome

/-- `ScoreSignals(..)`, as a candidate that passed every gate is scored. -/
def signalsOf (spec : ExerciseSpec) (candidate : Candidate) (g : GateReadings) : ScoreSignals where
  exerciseType := spec.type
  authoredDifficulty := spec.difficulty
  solverConfidence := g.semantic.solverConfidence
  solverMatched := g.semantic.solverMatched
  codeLineCount := (Text.splitlines candidate.code.toList).length
  verifiedBugLines := (verifiedOf candidate g.sandbox).getD []
  claimMismatch := match candidate with
    | .stb _ => g.sandbox.bugLinesClaimMismatch
    | .trace _ => false
  semanticFlagged := g.semantic.flagged

/-- The signals of the evaluations. -/
def signalsAt (spec : ExerciseSpec) (readings : Nat → Candidate → GateReadings) (n : Nat) (candidate : Candidate) :
    ScoreSignals :=
  signalsOf spec candidate (readings n candidate)

def scored (spec : ExerciseSpec) (candidate : Candidate) (g : GateReadings) : GateResults Rat where
  staticAccepted := g.staticAccepted
  sandbox := g.sandbox
  semantic := g.semantic
  score := (scoreSurvivor (signalsOf spec candidate g)).score
  difficultyMiscalibrated := (scoreSurvivor (signalsOf spec candidate g)).difficultyMiscalibrated

/-- The callbacks whose evaluations are scored. -/
def scoredCallbacks (spec : ExerciseSpec) (generate : Nat → GenerationOutcome)
    (repair : Nat → Candidate → Rejection → GenerationOutcome) (readings : Nat → Candidate → GateReadings)
    (derivePtf : Survivor Rat → PTFOutcome) : Callbacks Rat where
  generate := generate
  repair := repair
  gates := fun n candidate => scored spec candidate (readings n candidate)
  derivePtf := derivePtf

/-- The survivors of a log with the signals they were scored by; the number counts the evaluations before it. -/
def passedSignals (signals : Nat → Candidate → ScoreSignals) : Nat → List (Event Rat) → List (Survivor Rat × ScoreSignals)
  | _, [] => []
  | n, .evaluated candidate (.ok s) :: log => (s, signals n candidate) :: passedSignals signals (n + 1) log
  | n, .evaluated _ (.error _) :: log => passedSignals signals (n + 1) log
  | n, _ :: log => passedSignals signals n log

def Event.isEvaluated : Event Rat → Bool
  | .evaluated _ _ => true
  | _ => false

section Signals

variable {signals : Nat → Candidate → ScoreSignals}

theorem passedSignals_append (n : Nat) (log log' : List (Event Rat)) :
    passedSignals signals n (log ++ log') =
      passedSignals signals n log ++ passedSignals signals (n + log.countP Event.isEvaluated) log' := by
  induction log generalizing n with
  | nil => rfl
  | cons e log ih =>
    cases e with
    | evaluated c result =>
      have hcount : n + (Event.evaluated c result :: log).countP Event.isEvaluated = n + 1 + log.countP Event.isEvaluated := by
        rw [List.countP_cons_of_pos rfl]
        omega
      rw [hcount]
      cases result with
      | ok s => exact congrArg (_ :: ·) (ih (n + 1))
      | error r => exact ih (n + 1)
    | counted | generated | repaired | reported | published | ptfReported | ptfPublished =>
      rw [List.countP_cons_of_neg Bool.false_ne_true]
      exact ih n

theorem passedSignals_survivors (n : Nat) (log : List (Event Rat)) :
    (passedSignals signals n log).map Prod.fst = log.filterMap Event.passed? := by
  induction log generalizing n with
  | nil => rfl
  | cons e log ih =>
    cases e with
    | evaluated c result =>
      cases result with
      | ok s => exact congrArg (s :: ·) (ih (n + 1))
      | error r => exact ih (n + 1)
    | counted | generated | repaired | reported | published | ptfReported | ptfPublished => exact ih n

/-- A log without evaluations. -/
theorem passedSignals_of_none {log : List (Event Rat)} (h : log.countP Event.isEvaluated = 0) (n : Nat) :
    passedSignals signals n log = [] := by
  induction log generalizing n with
  | nil => rfl
  | cons e log ih =>
    have hrest : log.countP Event.isEvaluated = 0 := by
      rw [List.countP_cons] at h
      omega
    cases e with
    | evaluated c result =>
      rw [List.countP_cons_of_pos rfl] at h
      cases h
    | counted | generated | repaired | reported | published | ptfReported | ptfPublished => exact ih hrest n

end Signals

section Scored

variable {signals : Nat → Candidate → ScoreSignals}

/-- After so many evaluations the log is one whose survivors have the scores of their signals, up to so many evaluations. -/
structure ScoredLog (signals : Nat → Candidate → ScoreSignals) (n n' : Nat) (log : List (Event Rat)) : Prop where
  scores : ∀ p ∈ passedSignals signals n log, p.1.score = (scoreSurvivor p.2).score
  evaluations : n' = n + log.countP Event.isEvaluated

theorem ScoredLog.quiet {log : List (Event Rat)} (h : log.countP Event.isEvaluated = 0) (n : Nat) :
    ScoredLog signals n n log where
  scores := fun p hp => by
    rw [passedSignals_of_none h] at hp
    exact nomatch hp
  evaluations := by rw [h, Nat.add_zero]

theorem ScoredLog.append {n n' n'' : Nat} {log log' : List (Event Rat)} (h : ScoredLog signals n n' log)
    (h' : ScoredLog signals n' n'' log') : ScoredLog signals n n'' (log ++ log') where
  scores := fun p hp => by
    rw [passedSignals_append, ← h.evaluations] at hp
    exact (List.mem_append.mp hp).elim (h.scores p) (h'.scores p)
  evaluations := by rw [List.countP_append, ← Nat.add_assoc, ← h.evaluations, h'.evaluations]

theorem ScoredLog.rejected (n : Nat) (c : Candidate) (r : Rejection) :
    ScoredLog signals n (n + 1) [.evaluated c (.error r)] where
  scores := fun _ hp => nomatch hp
  evaluations := rfl

theorem ScoredLog.passed {n : Nat} {c : Candidate} {s : Survivor Rat} (h : s.score = (scoreSurvivor (signals n c)).score) :
    ScoredLog signals n (n + 1) [.evaluated c (.ok s)] where
  scores := fun p hp => by
    rw [List.mem_singleton.mp hp]
    exact h
  evaluations := rfl

theorem evaluateCandidate_score {contentHash : String → String} {pool : List String} {candidate : Candidate}
    {templateId : String} {g : GateResults Rat} {s : Survivor Rat}
    (h : (evaluateCandidate contentHash pool candidate templateId g).2 = .ok s) : s.score = g.score := by
  unfold evaluateCandidate at h
  split at h
  · cases h
  · split at h
    · cases h
    · dsimp only at h
      split at h
      · cases h
      · split at h
        · cases h
        · cases h
          rfl

theorem ScoredLog.counted (n : Nat) (ks : List Counter) : ScoredLog signals n n (ks.map Event.counted) := by
  refine .quiet (List.countP_eq_zero.mpr fun e he => ?_) n
  obtain ⟨k, -, rfl⟩ := List.mem_map.mp he
  exact Bool.false_ne_true

theorem ScoredLog.settled (n : Nat) (check : Option String) (total : Counter) (of : String → Counter) :
    ScoredLog signals n n (settleRepair check total of) := by
  cases check with
  | none => exact .quiet rfl n
  | some check => exact .quiet rfl n

theorem ScoredLog.gates (n : Nat) (passed : List GateCounter) :
    ScoredLog signals n n (passed.map fun c => Event.counted (.gate c)) :=
  .quiet (countP_gates passed Event.isEvaluated fun _ => rfl) n

theorem ScoredLog.passedLog {st : LineageState} (passed : List GateCounter) {s : Survivor Rat}
    (h : s.score = (scoreSurvivor (signals st.evaluations st.current)).score) :
    ScoredLog signals st.evaluations (st.evaluations + 1) (Pipeline.passedLog passed st s) :=
  ((gates _ passed).append (.passed h)).append (.settled _ _ _ _)

theorem ScoredLog.rejectedLog (spec : ExerciseSpec) (passed : List GateCounter) (st : LineageState) (r : Rejection) :
    ScoredLog signals st.evaluations (st.evaluations + 1) (Pipeline.rejectedLog spec passed st r) :=
  (((gates _ passed).append (.rejected _ _ _)).append (.quiet rfl _)).append (.settled _ _ _ _)

variable {cb : Callbacks Rat} (hgates : ∀ n c, (cb.gates n c).score = (scoreSurvivor (signals n c)).score)

include hgates

/-- **The survivors of a lineage are scored by their signals**, by induction on the rounds left. -/
theorem runLineage_scored (contentHash : String → String) (pool : List String) (spec : ExerciseSpec) (policy : LoopPolicy Rat)
    (roundsLeft : Nat) (st : LineageState) :
    ScoredLog signals st.evaluations (runLineage cb contentHash pool spec policy roundsLeft st).evaluations
      (runLineage cb contentHash pool spec policy roundsLeft st).log := by
  induction roundsLeft generalizing st with
  | zero =>
    have hscore := fun s => @evaluateCandidate_score contentHash pool st.current st.templateId (cb.gates st.evaluations st.current) s
    rw [runLineage.eq_def]
    generalize evaluateCandidate contentHash pool st.current st.templateId (cb.gates st.evaluations st.current) = evaluation
      at hscore ⊢
    obtain ⟨passed, result⟩ := evaluation
    cases result with
    | ok s =>
      have hpassed : ScoredLog signals st.evaluations (st.evaluations + 1)
          (passedLog passed st { s with publishedViaRepair := st.usedRepair }) :=
        .passedLog passed ((hscore s rfl).trans (hgates _ _))
      exact hpassed
    | error r =>
      have hrejected : ScoredLog signals st.evaluations (st.evaluations + 1) (rejectedLog spec passed st r) :=
        .rejectedLog spec passed st r
      dsimp only
      split
      · exact hrejected.append (.counted _ _)
      · exact hrejected.append (.counted _ _)
  | succ roundsLeft ih =>
    have hscore := fun s => @evaluateCandidate_score contentHash pool st.current st.templateId (cb.gates st.evaluations st.current) s
    rw [runLineage.eq_def]
    generalize evaluateCandidate contentHash pool st.current st.templateId (cb.gates st.evaluations st.current) = evaluation
      at hscore ⊢
    obtain ⟨passed, result⟩ := evaluation
    cases result with
    | ok s =>
      have hpassed : ScoredLog signals st.evaluations (st.evaluations + 1)
          (passedLog passed st { s with publishedViaRepair := st.usedRepair }) :=
        .passedLog passed ((hscore s rfl).trans (hgates _ _))
      exact hpassed
    | error r =>
      have hrejected : ScoredLog signals st.evaluations (st.evaluations + 1) (rejectedLog spec passed st r) :=
        .rejectedLog spec passed st r
      dsimp only
      split
      · exact hrejected.append (.counted _ _)
      · split
        · exact hrejected.append (.counted _ _)
        · split
          · exact hrejected.append (.counted _ _)
          · split
            · exact (hrejected.append (.quiet rfl _)).append (.quiet rfl _)
            · exact (hrejected.append (.quiet rfl _)).append (ih
                { current := _, templateId := _, usedRepair := true, checksTriggered := _, lastRepairCheck := _, used := _
                  evaluations := st.evaluations + 1 })

theorem generateSurvivors_scored {contentHash : String → String} {pool : List String} {spec : ExerciseSpec}
    {policy : LoopPolicy Rat} {coverage fuel used evaluations : Nat} {before : List (Survivor Rat)}
    {r : List (Survivor Rat) × List (Event Rat)}
    (h : generateSurvivors cb contentHash pool spec policy coverage fuel used evaluations before = some r) :
    ∃ n, ScoredLog signals evaluations n r.2 := by
  induction fuel generalizing used evaluations before r with
  | zero =>
    rw [generateSurvivors] at h
    split at h
    · cases h
    · cases h
      exact ⟨_, .quiet rfl _⟩
  | succ fuel ih =>
    rw [generateSurvivors] at h
    split at h
    · dsimp only at h
      split at h
      · obtain ⟨rest, hrest, rfl⟩ := Option.map_eq_some_iff.mp h
        obtain ⟨n, hn⟩ := ih hrest
        exact ⟨n, (ScoredLog.quiet rfl _).append hn⟩
      · rename_i candidate hcandidate
        have hlineage := runLineage_scored hgates contentHash pool spec policy policy.maxRepairRounds
          { current := candidate, templateId := (cb.generate used).templateId, usedRepair := false, checksTriggered := []
            lastRepairCheck := none, used := used + 1, evaluations }
        have hstart : ScoredLog signals evaluations evaluations [.generated (cb.generate used), .counted .generatedTotal,
            .counted .generatePassed] := .quiet rfl evaluations
        have hfresh := hstart.append hlineage
        split at h
        · cases h
          exact ⟨_, hfresh⟩
        · obtain ⟨rest, hrest, rfl⟩ := Option.map_eq_some_iff.mp h
          obtain ⟨n, hn⟩ := ih hrest
          exact ⟨n, hfresh.append hn⟩
    · cases h
      exact ⟨_, .quiet rfl _⟩

/-- **The survivors of a specification are scored by their signals.** -/
theorem resolveSpec_scored {contentHash : String → String} {pool : List String} {spec : ExerciseSpec} {policy : LoopPolicy Rat}
    {coverage : Nat} {r : Resolution Rat} (h : resolveSpec cb contentHash pool spec policy coverage = some r) :
    ∃ n, ScoredLog signals 0 n r.log := by
  obtain ⟨⟨survivors, log⟩, hr, rfl⟩ := Option.map_eq_some_iff.mp h
  obtain ⟨n, hn⟩ := generateSurvivors_scored hgates hr
  cases survivors with
  | nil => exact ⟨n, hn⟩
  | cons first rest =>
    obtain ⟨aftermath, hpublish, haftermath⟩ := publishSurvivor_eq cb spec policy (bestOf first rest)
    have hsilent : ∀ {e : Event Rat}, e.Silent → e.isEvaluated = false := fun he => by cases he <;> rfl
    refine ⟨n, ?_⟩
    dsimp only
    rw [hpublish]
    exact (hn.append (.quiet ((silent_pursuedLog first rest).countP hsilent) _)).append
      (.quiet ((List.countP_cons_of_neg Bool.false_ne_true).trans (haftermath.countP hsilent)) _)

end Scored

/-! ## The law -/

/-- The survivors of a resolution with the confidences of the solver. -/
def confidences (spec : ExerciseSpec) (readings : Nat → Candidate → GateReadings) (r : Resolution Rat) :
    List (Survivor Rat × Rat) :=
  (passedSignals (signalsAt spec readings) 0 r.log).map fun p => (p.1, p.2.solverConfidence)

/-- Its survivors are scored by these signals, but for the confidences. -/
def DifferInConfidence (s : ScoreSignals) (spec : ExerciseSpec) (readings : Nat → Candidate → GateReadings)
    (r : Resolution Rat) : Prop :=
  ∀ p ∈ passedSignals (signalsAt spec readings) 0 r.log, p.2 = s.withConfidence p.2.solverConfidence

/-- The survivor that is published is the first with the greatest score. -/
theorem winner_firstBest (spec : ExerciseSpec) (readings : Nat → Candidate → GateReadings) {policy : LoopPolicy Rat}
    {r : Resolution Rat} (h : Resolved policy r) {w : Survivor Rat} (hw : r.winner = some w) :
    ∃ c, FirstBest (confidences spec readings r) (w, c) := by
  have hsurvivors : (confidences spec readings r).map Prod.fst = r.log.filterMap Event.passed? := by
    rw [confidences, List.map_map]
    exact passedSignals_survivors 0 r.log
  obtain ⟨earlier, later, hsplit, hearlier, hlater⟩ := h.best w hw
  rw [← hsurvivors] at hsplit
  obtain ⟨earlier', rest, heq, rfl, hrest⟩ := List.map_eq_append_iff.mp hsplit
  obtain ⟨best, later', rfl, rfl, rfl⟩ := List.map_eq_cons_iff.mp hrest
  exact ⟨best.2, earlier', later', heq, fun p hp => hearlier p.1 (List.mem_map_of_mem hp),
    fun p hp => hlater p.1 (List.mem_map_of_mem hp)⟩

/-- **When a survivor that the solver struggled with is preferred.**  Among survivors of a hard specification that differ in the
confidence alone, a struggle scores more than what lies between, and that more than a breeze, if something else is held
against them; and one of them is published if so, or if it was the first that was not breezed. -/
theorem publishes_struggle_iff (s : ScoreSignals) (h : s.HardMatched) :
    ((∀ c c' c'', c ≤ struggleConfidence → struggleConfidence < c' → c' < breezeConfidence → breezeConfidence ≤ c'' →
        s.scoreAt c'' < s.scoreAt c' ∧ s.scoreAt c' < s.scoreAt c) ↔ s.Flawed) ∧
    ∀ spec generate repair readings derivePtf contentHash pool policy coverage r,
      resolveSpec (scoredCallbacks spec generate repair readings derivePtf) contentHash pool spec policy coverage = some r →
      DifferInConfidence s spec readings r → (∃ p ∈ confidences spec readings r, p.2 ≤ struggleConfidence) →
      ((∃ best, FirstBest (confidences spec readings r) best ∧ r.winner = some best.1 ∧ best.2 ≤ struggleConfidence) ↔
        s.Flawed ∨ FirstStruggled (confidences spec readings r)) := by
  constructor
  · constructor
    · intro hlaw
      have hbetween : struggleConfidence < 7 / 10 ∧ (7 / 10 : Rat) < breezeConfidence := by
        norm_num [struggleConfidence, breezeConfidence]
      exact (ScoreSignals.between_lt_struggle_iff h le_rfl hbetween.1 hbetween.2).mp
        (hlaw _ _ _ le_rfl hbetween.1 hbetween.2 le_rfl).2
    · intro hs c c' c'' hc hlow hhigh hc''
      exact ⟨ScoreSignals.breeze_lt_between h hlow hhigh hc'',
        (ScoreSignals.between_lt_struggle_iff h hc hlow hhigh).mpr hs⟩
  · intro spec generate repair readings derivePtf contentHash pool policy coverage r hr hdiffer hstruggle
    obtain ⟨n, hscored⟩ : ∃ n, ScoredLog (signalsAt spec readings) 0 n r.log := resolveSpec_scored (fun _ _ => rfl) hr
    have hscore : ∀ p ∈ confidences spec readings r, p.1.score = s.scoreAt p.2 := by
      intro p hp
      obtain ⟨q, hq, rfl⟩ := List.mem_map.mp hp
      have hqscore := hscored.scores q hq
      rw [hdiffer q hq] at hqscore
      exact hqscore
    constructor
    · rintro ⟨best, hbest, -, hb⟩
      exact (firstBest_struggle_iff h hscore hbest hstruggle).mp hb
    · intro hcond
      have hresolved := resolved_of_resolveSpec hr
      have hpassed : r.log.filterMap Event.passed? ≠ [] := by
        have hsurvivors : (passedSignals (signalsAt spec readings) 0 r.log).map Prod.fst = _ := passedSignals_survivors 0 r.log
        rw [← hsurvivors]
        obtain ⟨p, hp, -⟩ := hstruggle
        obtain ⟨q, hq, -⟩ := List.mem_map.mp hp
        exact List.ne_nil_of_mem (List.mem_map_of_mem hq)
      obtain ⟨w, hw⟩ := Option.isSome_iff_exists.mp (hresolved.passed.mpr hpassed)
      obtain ⟨c, hbest⟩ := winner_firstBest spec readings hresolved hw
      exact ⟨(w, c), hbest, hw, (firstBest_struggle_iff h hscore hbest hstruggle).mpr hcond⟩

/-! Two survivors of eight lines with nothing held against them: a solver that was right at 0.7, and then one that struggled. -/

def hardSpec : ExerciseSpec := { sumSpec (some true) with difficulty := ⟨9, by decide⟩ }

def hardCandidate (code : String) : Candidate := .stb { sumCandidate "" with buggyCode := code }

def firstCode : String := "0\n\n\n\n\n\n\n\n"
def secondCode : String := "1\n\n\n\n\n\n\n\n"

def hardReadings (n : Nat) (_ : Candidate) : GateReadings where
  staticAccepted := true
  sandbox := { accepted := true, checks := [], verifiedBugLines := some [8] }
  semantic := { survived := true, solverConfidence := if n = 0 then 70 / 100 else 55 / 100, solverMatched := true }

def hardCallbacks : Callbacks Rat :=
  scoredCallbacks hardSpec (fun n => ⟨some (hardCandidate (if n = 0 then firstCode else secondCode)), "stb", ""⟩) (fun _ c _ => ⟨some c, "stb", ""⟩)
    hardReadings fun _ => .discarded ""

def twoSurvivors : LoopPolicy Rat where
  repairEnabled := false
  bestOfNEnabled := true
  maxAttemptsPerSpec := 2
  maxRepairRounds := 0
  bestOfNMaxSurvivors := 2
  bestOfNScoreThreshold := 70 / 100
  bestOfNCoverageThreshold := 2
  derivePredictTheFix := false

def hardSignals : ScoreSignals := signalsAt hardSpec hardReadings 0 (hardCandidate firstCode)

/-- Both score one, and the first one is published. -/
theorem publishes_no_struggle :
    hardSignals.scoreAt (55 / 100) = hardSignals.scoreAt (70 / 100) ∧
    ∃ r, resolveSpec hardCallbacks id [] hardSpec twoSurvivors 0 = some r ∧ DifferInConfidence hardSignals hardSpec hardReadings r ∧
      (confidences hardSpec hardReadings r).map Prod.snd = [70 / 100, 55 / 100] ∧
      r.winner.map (·.candidate.code) = some firstCode ∧ firstCode ≠ secondCode := by
  have hrun : (resolveSpec hardCallbacks id [] hardSpec twoSurvivors 0).any (fun r : Resolution Rat =>
      decide (∀ p ∈ passedSignals (signalsAt hardSpec hardReadings) 0 r.log,
        p.2 = hardSignals.withConfidence p.2.solverConfidence) &&
      decide ((confidences hardSpec hardReadings r).map Prod.snd = [70 / 100, 55 / 100]) &&
      decide (r.winner.map (·.candidate.code) = some firstCode)) = true := by
    decide +kernel
  have hne : firstCode ≠ secondCode := by decide +kernel
  have hsame : hardSignals.scoreAt (55 / 100) = hardSignals.scoreAt (70 / 100) := by decide +kernel
  refine ⟨hsame, ?_⟩
  obtain ⟨r, hr, hcheck⟩ := (Option.any_eq_true _ _).mp hrun
  obtain ⟨hboth, hwinner⟩ := Bool.and_eq_true_iff.mp hcheck
  obtain ⟨hdiffer, hconfidences⟩ := Bool.and_eq_true_iff.mp hboth
  have hdiffer' : ∀ p ∈ passedSignals (signalsAt hardSpec hardReadings) 0 r.log,
      p.2 = hardSignals.withConfidence p.2.solverConfidence :=
    of_decide_eq_true hdiffer
  exact ⟨r, hr, hdiffer', of_decide_eq_true hconfidences, of_decide_eq_true hwinner, hne⟩

theorem hardMatched_hardSignals : hardSignals.HardMatched := ⟨by decide, rfl⟩

theorem publishes_struggle_hard :
    (∀ c c' c'', c ≤ struggleConfidence → struggleConfidence < c' → c' < breezeConfidence → breezeConfidence ≤ c'' →
      hardSignals.scoreAt c'' < hardSignals.scoreAt c' ∧ hardSignals.scoreAt c' < hardSignals.scoreAt c) ↔ hardSignals.Flawed :=
  (publishes_struggle_iff hardSignals hardMatched_hardSignals).1

end CodeReader.Pipeline
