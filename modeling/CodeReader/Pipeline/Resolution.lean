import CodeReader.Pipeline.Orchestrator

/-!
# What resolving a specification comes to

Whatever the generator, the repairs, the gates and the judge come to.

* `LineageSpec`, `lineageSpec` — what a lineage does, by induction on the rounds left;
* `SurvivorsSpec`, `survivorsSpec` — the fresh candidates, by induction on the attempts;
* `Resolved`, `resolveSpec_resolved` — **the budgets are kept and the best passer is published**, once.
-/

namespace CodeReader.Pipeline

variable {S : Type}

/-! ## Reading the log -/

namespace Event

def isGenerated : Event S → Bool
  | .generated _ => true
  | _ => false

def isRepaired : Event S → Bool
  | .repaired _ _ => true
  | _ => false

/-- A generation: of a fresh candidate or of a repaired one. -/
def isCall (e : Event S) : Bool := e.isGenerated || e.isRepaired

def counts (key : Counter) : Event S → Bool
  | .counted k => k == key
  | _ => false

/-- A candidate that passed every gate. -/
def passed? : Event S → Option (Survivor S)
  | .evaluated _ (.ok s) => some s
  | _ => none

def rejected? : Event S → Option (String × Candidate)
  | .evaluated c (.error r) => some (r.stage, c)
  | _ => none

def reported? : Event S → Option (String × Candidate)
  | .reported stage c => some (stage, c)
  | _ => none

def published? : Event S → Option (Survivor S)
  | .published s => some s
  | _ => none

end Event

open Event

/-- The value of a counter. -/
def counter (key : Counter) (log : List (Event S)) : Nat := log.countP (Event.counts key)

@[simp] theorem counter_nil (key : Counter) : counter key ([] : List (Event S)) = 0 := rfl

@[simp] theorem counter_append (key : Counter) (log log' : List (Event S)) :
    counter key (log ++ log') = counter key log + counter key log' := List.countP_append

theorem counter_cons (key : Counter) (e : Event S) (log : List (Event S)) :
    counter key (e :: log) = counter key log + if e.counts key then 1 else 0 := List.countP_cons

/-- Neither a call nor a verdict, nor a count of the repairs. -/
inductive Event.Silent : Event S → Prop
  | counted (k : Counter) (h : k ≠ .repairAttempted ∧ k ≠ .repairSucceeded ∧ k ≠ .repairFailed) : Silent (.counted k)
  | ptfReported (stage : String) : Silent (.ptfReported stage)
  | ptfPublished (artifacts : PTFArtifacts) : Silent (.ptfPublished artifacts)

namespace Event.Silent

variable {e : Event S}

theorem isGenerated (h : e.Silent) : e.isGenerated = false := by cases h <;> rfl
theorem isRepaired (h : e.Silent) : e.isRepaired = false := by cases h <;> rfl
theorem passed (h : e.Silent) : e.passed? = none := by cases h <;> rfl
theorem rejected (h : e.Silent) : e.rejected? = none := by cases h <;> rfl
theorem reported (h : e.Silent) : e.reported? = none := by cases h <;> rfl
theorem published (h : e.Silent) : e.published? = none := by cases h <;> rfl

theorem counts (h : e.Silent) {key : Counter}
    (hkey : key = .repairAttempted ∨ key = .repairSucceeded ∨ key = .repairFailed) : e.counts key = false := by
  cases h with
  | counted k h =>
    obtain ⟨hattempted, hsucceeded, hfailed⟩ := h
    obtain rfl | rfl | rfl := hkey
    · exact beq_eq_false_iff_ne.mpr hattempted
    · exact beq_eq_false_iff_ne.mpr hsucceeded
    · exact beq_eq_false_iff_ne.mpr hfailed
  | ptfReported stage => rfl
  | ptfPublished artifacts => rfl

end Event.Silent

def Silent (log : List (Event S)) : Prop := ∀ e ∈ log, e.Silent

namespace Silent

variable {log : List (Event S)}

theorem countP {p : Event S → Bool} (h : Silent log) (hp : ∀ {e : Event S}, e.Silent → p e = false) : log.countP p = 0 :=
  List.countP_eq_zero.mpr fun e he => by
    rw [hp (h e he)]
    exact Bool.false_ne_true

theorem filterMap {α : Type} {f : Event S → Option α} (h : Silent log) (hf : ∀ {e : Event S}, e.Silent → f e = none) :
    log.filterMap f = [] :=
  List.filterMap_eq_nil_iff.mpr fun e he => hf (h e he)

theorem counter (h : Silent log) {key : Counter}
    (hkey : key = .repairAttempted ∨ key = .repairSucceeded ∨ key = .repairFailed) : counter key log = 0 :=
  h.countP fun he => he.counts hkey

end Silent

/-! ## One evaluation -/

/-- The log of an evaluation that rejected. -/
def rejectedLog (spec : ExerciseSpec) (passed : List GateCounter) (st : LineageState) (r : Rejection) : List (Event S) :=
  passed.map (fun c => Event.counted (.gate c)) ++ [.evaluated st.current (.error r)] ++
    recordReject spec r.stage st.current ++ settleRepair st.lastRepairCheck .repairFailed .repairFailedOf

/-- The log of an evaluation that passed. -/
def passedLog (passed : List GateCounter) (st : LineageState) (s : Survivor S) : List (Event S) :=
  passed.map (fun c => Event.counted (.gate c)) ++ [.evaluated st.current (.ok s)] ++
    settleRepair st.lastRepairCheck .repairSucceeded .repairSucceededOf

/-- The log of a repair. -/
def repairLog (r : Rejection) (outcome : GenerationOutcome) : List (Event S) :=
  [.counted .repairAttempted, .counted (.repairAttemptedOf r.check), .repaired r outcome]

/-- The survivor's hash is its code's, and not among the known ones. -/
def Admitted (contentHash : String → String) (pool : List String) (s : Survivor S) : Prop :=
  s.contentHash = contentHash s.candidate.code ∧ s.contentHash ∉ pool

/-- What a lineage does next: the candidate passes; it is rejected and left at that; a repair of it is discarded; or one is
evaluated in its turn. -/
inductive LineageStep (cb : Callbacks S) (contentHash : String → String) (pool : List String) (spec : ExerciseSpec)
    (policy : LoopPolicy S) : Nat → LineageState → Lineage S → Prop
  | passed (roundsLeft st passed) {s : Survivor S} (hs : Admitted contentHash pool s) :
    LineageStep cb contentHash pool spec policy roundsLeft st ⟨some s, st.used, st.evaluations + 1, passedLog passed st s⟩
  | stopped (roundsLeft st passed r) {why : List (Event S)} (hwhy : Silent why) :
    LineageStep cb contentHash pool spec policy roundsLeft st
      ⟨none, st.used, st.evaluations + 1, rejectedLog spec passed st r ++ why⟩
  | discarded (roundsLeft st passed outcome reason) {r : Rejection} (hr : r.repairable = true)
    (hused : st.used < policy.maxAttemptsPerSpec) :
    LineageStep cb contentHash pool spec policy (roundsLeft + 1) st
      ⟨none, st.used + 1, st.evaluations + 1, rejectedLog spec passed st r ++ repairLog r outcome ++
        [.counted (.repairDiscarded reason), .counted .repairFailed, .counted (.repairFailedOf r.check)]⟩
  | continued (roundsLeft st passed outcome) {st' : LineageState} {check : String} {r : Rejection}
    (hr : r.repairable = true) (hused : st.used < policy.maxAttemptsPerSpec) (hlast : st'.lastRepairCheck = some check)
    (hused' : st'.used = st.used + 1) :
    LineageStep cb contentHash pool spec policy (roundsLeft + 1) st
      { runLineage cb contentHash pool spec policy roundsLeft st' with
        log := rejectedLog spec passed st r ++ repairLog r outcome ++
          (runLineage cb contentHash pool spec policy roundsLeft st').log }

theorem evaluateCandidate_admitted (contentHash : String → String) (pool : List String) (candidate : Candidate)
    (templateId : String) (g : GateResults S) (s : Survivor S)
    (h : (evaluateCandidate contentHash pool candidate templateId g).2 = .ok s) : Admitted contentHash pool s := by
  unfold evaluateCandidate at h
  split at h
  · cases h
  · split at h
    · cases h
    · dsimp only at h
      split at h
      · cases h
      · split at h
        · cases h
        · rename_i hnew
          cases h
          exact ⟨rfl, fun hmem => hnew (List.contains_iff_mem.mpr hmem)⟩

theorem lineageStep (cb : Callbacks S) (contentHash : String → String) (pool : List String) (spec : ExerciseSpec)
    (policy : LoopPolicy S) (roundsLeft : Nat) (st : LineageState) :
    LineageStep cb contentHash pool spec policy roundsLeft st (runLineage cb contentHash pool spec policy roundsLeft st) := by
  have hsilent : ∀ l : List Counter, (∀ k ∈ l, k ≠ .repairAttempted ∧ k ≠ .repairSucceeded ∧ k ≠ .repairFailed) →
      Silent (S := S) (l.map Event.counted) := fun l hl e he => by
    obtain ⟨k, hk, rfl⟩ := List.mem_map.mp he
    exact .counted k (hl k hk)
  have hadmitted := evaluateCandidate_admitted contentHash pool st.current st.templateId (cb.gates st.evaluations st.current)
  rw [runLineage.eq_def]
  generalize evaluateCandidate contentHash pool st.current st.templateId (cb.gates st.evaluations st.current) = evaluation
    at hadmitted ⊢
  obtain ⟨passed, result⟩ := evaluation
  cases result with
  | ok s => exact .passed roundsLeft st passed (hadmitted s rfl)
  | error r =>
    dsimp only
    split
    · exact .stopped roundsLeft st passed r (hsilent [] (by simp))
    · rename_i hrepair
      have hr : r.repairable = true := (Decidable.not_not.mp hrepair).2
      cases roundsLeft with
      | zero => exact .stopped 0 st passed r (hsilent [.repairStoppedMaxRounds] (by simp))
      | succ roundsLeft =>
        dsimp only
        split
        · exact .stopped (roundsLeft + 1) st passed r
            (hsilent [.repairStoppedSameCheck, .repairStoppedSameCheckOf r.check] (by simp))
        · split
          · exact .stopped (roundsLeft + 1) st passed r (hsilent [.repairStoppedBudget] (by simp))
          · rename_i hbudget
            have hused := Nat.lt_of_not_le hbudget
            split
            · exact .discarded roundsLeft st passed _ _ hr hused
            · exact .continued roundsLeft st passed _ hr hused rfl rfl

/-! ## A whole lineage -/

/-- A repair is under way: its candidate is the one to be evaluated. -/
def pending (st : LineageState) : Nat := if st.lastRepairCheck.isSome then 1 else 0

/-- What a lineage does from a state on, with so many rounds left. -/
structure LineageSpec (policy : LoopPolicy S) (roundsLeft : Nat) (st : LineageState) (l : Lineage S) : Prop where
  fresh : l.log.countP isGenerated = 0
  used : l.used = st.used + l.log.countP isRepaired
  rounds : l.log.countP isRepaired ≤ roundsLeft
  budget : l.used ≤ max st.used policy.maxAttemptsPerSpec
  repairable : ∀ r outcome, .repaired r outcome ∈ l.log → r.repairable = true
  passers : l.log.filterMap passed? = l.survivor.toList
  reports : l.log.filterMap rejected? = l.log.filterMap reported?
  unpublished : l.log.filterMap published? = []
  balance : counter .repairAttempted l.log + pending st = counter .repairSucceeded l.log + counter .repairFailed l.log

theorem countP_gates (passed : List GateCounter) (p : Event S → Bool) (hcounted : ∀ k, p (.counted k) = false) :
    (passed.map fun c => Event.counted (.gate c)).countP p = 0 :=
  List.countP_eq_zero.mpr fun e he => by
    obtain ⟨c, -, rfl⟩ := List.mem_map.mp he
    rw [hcounted]
    exact Bool.false_ne_true

theorem filterMap_gates {α : Type} (passed : List GateCounter) (f : Event S → Option α)
    (hcounted : ∀ k, f (.counted k) = none) : (passed.map fun c => Event.counted (.gate c)).filterMap f = [] :=
  List.filterMap_eq_nil_iff.mpr fun e he => by
    obtain ⟨c, -, rfl⟩ := List.mem_map.mp he
    exact hcounted _

theorem silent_gates (passed : List GateCounter) : Silent (S := S) (passed.map fun c => Event.counted (.gate c)) := by
  intro e he
  obtain ⟨c, -, rfl⟩ := List.mem_map.mp he
  exact .counted (.gate c) ⟨nofun, nofun, nofun⟩

section Logs

variable {spec : ExerciseSpec} {passed : List GateCounter} {st : LineageState} {r : Rejection} {outcome : GenerationOutcome}

theorem countP_rejectedLog (p : Event S → Bool) (hcounted : ∀ k, p (.counted k) = false)
    (hevaluated : ∀ c res, p (.evaluated c res) = false) (hreported : ∀ stage c, p (.reported stage c) = false) :
    (rejectedLog spec passed st r).countP p = 0 := by
  rw [rejectedLog, List.countP_append, List.countP_append, List.countP_append, countP_gates passed p hcounted]
  unfold settleRepair recordReject
  cases st.lastRepairCheck <;> simp [hcounted, hevaluated, hreported]

theorem filterMap_rejectedLog {α : Type} (f : Event S → Option α) (hcounted : ∀ k, f (.counted k) = none) :
    (rejectedLog spec passed st r).filterMap f =
      (f (.evaluated st.current (.error r))).toList ++ (f (.reported r.stage st.current)).toList := by
  rw [rejectedLog, List.filterMap_append, List.filterMap_append, List.filterMap_append,
    filterMap_gates passed f hcounted]
  unfold settleRepair recordReject
  cases st.lastRepairCheck <;> cases hevaluated : f (.evaluated st.current (.error r)) <;>
    cases hreported : f (.reported r.stage st.current) <;> simp [hcounted, hevaluated, hreported]

theorem counter_rejectedLog (key : Counter) (hkey : key = .repairAttempted ∨ key = .repairSucceeded ∨ key = .repairFailed) :
    counter key (rejectedLog (S := S) spec passed st r) = if key = .repairFailed then pending st else 0 := by
  rw [rejectedLog, counter_append, counter_append, counter_append, (silent_gates passed).counter hkey]
  unfold settleRepair recordReject pending
  obtain rfl | rfl | rfl := hkey <;> cases st.lastRepairCheck <;> simp [counter_cons, counts]

theorem mem_rejectedLog_of_repaired {r' : Rejection} (h : .repaired r' outcome ∈ rejectedLog (S := S) spec passed st r) :
    False := by
  have hzero : (rejectedLog (S := S) spec passed st r).countP isRepaired = 0 :=
    countP_rejectedLog isRepaired (fun _ => rfl) (fun _ _ => rfl) fun _ _ => rfl
  exact List.countP_eq_zero.mp hzero _ h rfl

theorem countP_passedLog (p : Event S → Bool) (s : Survivor S) (hcounted : ∀ k, p (.counted k) = false)
    (hevaluated : ∀ c res, p (.evaluated c res) = false) : (passedLog passed st s).countP p = 0 := by
  rw [passedLog, List.countP_append, List.countP_append, countP_gates passed p hcounted]
  unfold settleRepair
  cases st.lastRepairCheck <;> simp [hcounted, hevaluated]

theorem filterMap_passedLog {α : Type} (f : Event S → Option α) (s : Survivor S) (hcounted : ∀ k, f (.counted k) = none) :
    (passedLog passed st s).filterMap f = (f (.evaluated st.current (.ok s))).toList := by
  rw [passedLog, List.filterMap_append, List.filterMap_append, filterMap_gates passed f hcounted]
  unfold settleRepair
  cases st.lastRepairCheck <;> cases hevaluated : f (.evaluated st.current (.ok s)) <;> simp [hcounted, hevaluated]

theorem counter_passedLog (key : Counter) (s : Survivor S)
    (hkey : key = .repairAttempted ∨ key = .repairSucceeded ∨ key = .repairFailed) :
    counter key (passedLog passed st s) = if key = .repairSucceeded then pending st else 0 := by
  rw [passedLog, counter_append, counter_append, (silent_gates passed).counter hkey]
  unfold settleRepair pending
  obtain rfl | rfl | rfl := hkey <;> cases st.lastRepairCheck <;> simp [counter_cons, counts]

theorem passedLog_spec (policy : LoopPolicy S) (roundsLeft : Nat) (s : Survivor S) :
    LineageSpec policy roundsLeft st ⟨some s, st.used, st.evaluations + 1, passedLog passed st s⟩ := by
  have hrepaired : (passedLog passed st s).countP isRepaired = 0 :=
    countP_passedLog isRepaired s (fun _ => rfl) fun _ _ => rfl
  constructor
  case fresh => exact countP_passedLog isGenerated s (fun _ => rfl) fun _ _ => rfl
  case used => exact (congrArg (st.used + ·) hrepaired).symm
  case rounds => exact hrepaired.symm ▸ Nat.zero_le roundsLeft
  case budget => exact le_max_left _ _
  case repairable => exact fun r outcome h => absurd rfl (List.countP_eq_zero.mp hrepaired _ h)
  case passers => exact filterMap_passedLog passed? s fun _ => rfl
  case reports =>
    exact (filterMap_passedLog rejected? s fun _ => rfl).trans (filterMap_passedLog reported? s fun _ => rfl).symm
  case unpublished => exact filterMap_passedLog published? s fun _ => rfl
  case balance =>
    change counter _ (passedLog passed st s) + pending st = counter _ (passedLog passed st s) + counter _ (passedLog passed st s)
    rw [counter_passedLog _ s (.inl rfl), counter_passedLog _ s (.inr (.inl rfl)), counter_passedLog _ s (.inr (.inr rfl)),
      if_neg nofun, if_pos rfl, if_neg nofun, Nat.zero_add, Nat.add_zero]

/-- The log of a rejected candidate, followed by another. -/
theorem rejectedLog_append_spec {policy : LoopPolicy S} {roundsLeft used evaluations : Nat} {survivor : Option (Survivor S)}
    {log : List (Event S)} (hfresh : log.countP isGenerated = 0) (hused : used = st.used + log.countP isRepaired)
    (hrounds : log.countP isRepaired ≤ roundsLeft) (hbudget : used ≤ max st.used policy.maxAttemptsPerSpec)
    (hrepairable : ∀ r outcome, .repaired r outcome ∈ log → r.repairable = true)
    (hpassers : log.filterMap passed? = survivor.toList) (hreports : log.filterMap rejected? = log.filterMap reported?)
    (hunpublished : log.filterMap published? = [])
    (hbalance : counter .repairAttempted log = counter .repairSucceeded log + counter .repairFailed log) :
    LineageSpec policy roundsLeft st ⟨survivor, used, evaluations, rejectedLog spec passed st r ++ log⟩ := by
  have hrepaired : (rejectedLog (S := S) spec passed st r ++ log).countP isRepaired = log.countP isRepaired := by
    rw [List.countP_append, countP_rejectedLog isRepaired (fun _ => rfl) (fun _ _ => rfl) fun _ _ => rfl, Nat.zero_add]
  have hfilter : ∀ {α : Type} (f : Event S → Option α), (∀ k, f (.counted k) = none) →
      (rejectedLog spec passed st r ++ log).filterMap f =
        (f (.evaluated st.current (.error r))).toList ++ (f (.reported r.stage st.current)).toList ++ log.filterMap f :=
    fun f hf => by rw [List.filterMap_append, filterMap_rejectedLog f hf]
  constructor
  case fresh =>
    change (rejectedLog spec passed st r ++ log).countP isGenerated = 0
    rw [List.countP_append, countP_rejectedLog isGenerated (fun _ => rfl) (fun _ _ => rfl) fun _ _ => rfl, hfresh]
  case used => exact hused.trans (congrArg (st.used + ·) hrepaired.symm)
  case rounds => exact hrepaired.symm ▸ hrounds
  case budget => exact hbudget
  case repairable =>
    intro r' outcome h
    exact (List.mem_append.mp h).elim (fun h => absurd h mem_rejectedLog_of_repaired) (hrepairable r' outcome)
  case passers => exact (hfilter passed? fun _ => rfl).trans hpassers
  case reports =>
    refine (hfilter rejected? fun _ => rfl).trans (Eq.trans ?_ (hfilter reported? fun _ => rfl).symm)
    exact congrArg ((r.stage, st.current) :: ·) hreports
  case unpublished => exact (hfilter published? fun _ => rfl).trans hunpublished
  case balance =>
    change counter _ (rejectedLog spec passed st r ++ log) + pending st =
      counter _ (rejectedLog spec passed st r ++ log) + counter _ (rejectedLog spec passed st r ++ log)
    rw [counter_append, counter_append, counter_append, counter_rejectedLog _ (.inl rfl),
      counter_rejectedLog _ (.inr (.inl rfl)), counter_rejectedLog _ (.inr (.inr rfl)), if_neg nofun, if_neg nofun, if_pos rfl,
      hbalance]
    omega

theorem stopped_spec (policy : LoopPolicy S) (roundsLeft : Nat) {why : List (Event S)} (hwhy : Silent why) :
    LineageSpec policy roundsLeft st ⟨none, st.used, st.evaluations + 1, rejectedLog spec passed st r ++ why⟩ := by
  have hrepaired := hwhy.countP Event.Silent.isRepaired
  refine rejectedLog_append_spec (hwhy.countP Event.Silent.isGenerated) (congrArg (st.used + ·) hrepaired).symm
    (hrepaired.symm ▸ Nat.zero_le roundsLeft) (le_max_left _ _)
    (fun r outcome h => absurd rfl (List.countP_eq_zero.mp hrepaired _ h)) (hwhy.filterMap Event.Silent.passed) ?_
    (hwhy.filterMap Event.Silent.published) ?_
  · rw [hwhy.filterMap Event.Silent.rejected, hwhy.filterMap Event.Silent.reported]
  · rw [hwhy.counter (.inl rfl), hwhy.counter (.inr (.inl rfl)), hwhy.counter (.inr (.inr rfl))]

end Logs

/-- **What a lineage does**, by induction on the rounds left. -/
theorem lineageSpec (cb : Callbacks S) (contentHash : String → String) (pool : List String) (spec : ExerciseSpec)
    (policy : LoopPolicy S) (roundsLeft : Nat) (st : LineageState) :
    LineageSpec policy roundsLeft st (runLineage cb contentHash pool spec policy roundsLeft st) := by
  induction roundsLeft generalizing st with
  | zero =>
    have hstep := lineageStep cb contentHash pool spec policy 0 st
    generalize runLineage cb contentHash pool spec policy 0 st = l at hstep ⊢
    cases hstep with
    | passed _ _ passed hs => exact passedLog_spec policy 0 _
    | stopped _ _ passed r hwhy => exact stopped_spec policy 0 hwhy
  | succ roundsLeft ih =>
    have hstep := lineageStep cb contentHash pool spec policy (roundsLeft + 1) st
    generalize runLineage cb contentHash pool spec policy (roundsLeft + 1) st = l at hstep ⊢
    cases hstep with
    | passed _ _ passed hs => exact passedLog_spec policy (roundsLeft + 1) _
    | stopped _ _ passed r hwhy => exact stopped_spec policy (roundsLeft + 1) hwhy
    | discarded _ _ passed outcome reason hr hused =>
      rw [List.append_assoc]
      refine rejectedLog_append_spec rfl rfl (Nat.le_add_left 1 roundsLeft) ?_ ?_ rfl rfl rfl rfl
      · exact le_max_of_le_right hused
      · intro r' outcome' h
        simp only [repairLog, List.cons_append, List.nil_append, List.mem_cons, reduceCtorEq, false_or,
          Event.repaired.injEq, List.not_mem_nil, or_false] at h
        exact h.1 ▸ hr
    | continued _ _ passed outcome hr hused hlast hused' =>
      rename_i st' check r
      have hrest := ih st'
      have hpending : pending st' = 1 := by rw [pending, hlast]; rfl
      have hrepairs : (repairLog (S := S) r outcome ++ (runLineage cb contentHash pool spec policy roundsLeft st').log).countP
          isRepaired = (runLineage cb contentHash pool spec policy roundsLeft st').log.countP isRepaired + 1 := by
        rw [List.countP_append]
        exact Nat.add_comm 1 _
      rw [List.append_assoc]
      refine rejectedLog_append_spec ?_ ?_ ?_ ?_ ?_ hrest.passers hrest.reports hrest.unpublished ?_
      · exact hrest.fresh
      · rw [hrest.used, hrepairs, hused']
        omega
      · rw [hrepairs]
        exact Nat.succ_le_succ hrest.rounds
      · have hbudget := hrest.budget
        rw [hused', max_eq_right (Nat.succ_le_of_lt hused)] at hbudget
        exact le_max_of_le_right hbudget
      · intro r' outcome' h
        rcases List.mem_append.mp h with h | h
        · simp only [repairLog, List.mem_cons, reduceCtorEq, false_or, Event.repaired.injEq, List.not_mem_nil, or_false] at h
          exact h.1 ▸ hr
        · exact hrest.repairable r' outcome' h
      · have hbalance := hrest.balance
        rw [hpending] at hbalance
        rw [counter_append, counter_append, counter_append]
        have hlog : counter .repairAttempted (repairLog (S := S) r outcome) = 1 ∧
            counter .repairSucceeded (repairLog (S := S) r outcome) = 0 ∧
            counter .repairFailed (repairLog (S := S) r outcome) = 0 := ⟨rfl, rfl, rfl⟩
        omega

/-! ## Fresh candidates -/

/-- What one fresh candidate comes to, from so many attempts and survivors to so many. -/
structure FreshSpec (policy : LoopPolicy S) (used used' : Nat) (before after : List (Survivor S)) (log : List (Event S)) :
    Prop where
  head : ∃ outcome body, log = .generated outcome :: body
  spent : used' = used + log.countP isCall
  budget : used' ≤ policy.maxAttemptsPerSpec
  advance : used < used'
  rounds : log.countP isRepaired ≤ policy.maxRepairRounds
  repairable : ∀ r outcome, .repaired r outcome ∈ log → r.repairable = true
  passers : after = before ++ log.filterMap passed?
  reports : log.filterMap rejected? = log.filterMap reported?
  unpublished : log.filterMap published? = []
  balance : counter .repairAttempted log = counter .repairSucceeded log + counter .repairFailed log

/-- What any number of them come to. -/
structure SurvivorsSpec (policy : LoopPolicy S) (used : Nat) (before : List (Survivor S))
    (r : List (Survivor S) × List (Event S)) : Prop where
  head : r.2 = [] ∨ ∃ outcome body, r.2 = .generated outcome :: body
  budget : used + r.2.countP isCall ≤ max used policy.maxAttemptsPerSpec
  rounds : ∀ segment, segment <:+: r.2 → segment.countP isGenerated = 0 →
    segment.countP isRepaired ≤ policy.maxRepairRounds
  repairable : ∀ rejection outcome, .repaired rejection outcome ∈ r.2 → rejection.repairable = true
  passers : r.1 = before ++ r.2.filterMap passed?
  reports : r.2.filterMap rejected? = r.2.filterMap reported?
  unpublished : r.2.filterMap published? = []
  balance : counter .repairAttempted r.2 = counter .repairSucceeded r.2 + counter .repairFailed r.2

theorem SurvivorsSpec.nil (policy : LoopPolicy S) (used : Nat) (before : List (Survivor S)) :
    SurvivorsSpec policy used before (before, []) where
  head := Or.inl rfl
  budget := le_max_left _ _
  rounds := fun segment h _ => by
    rw [List.infix_nil.mp h]
    exact Nat.zero_le _
  repairable := fun _ _ h => absurd h List.not_mem_nil
  passers := (List.append_nil before).symm
  reports := rfl
  unpublished := rfl
  balance := rfl

/-- A stretch without a fresh candidate lies on one side of it. -/
theorem infix_append_of_head {segment log rest : List (Event S)} (h : segment <:+: log ++ rest)
    (hfresh : segment.countP isGenerated = 0) (hhead : rest = [] ∨ ∃ outcome body, rest = .generated outcome :: body) :
    segment <:+: log ∨ segment <:+: rest := by
  obtain hlog | hrest | ⟨s, t, rfl, hs, ht⟩ := List.infix_append_iff.mp h
  · exact Or.inl hlog
  · exact Or.inr hrest
  · cases t with
    | nil => exact Or.inl (by rw [List.append_nil]; exact hs.isInfix)
    | cons e t =>
      obtain rfl | ⟨outcome, body, rfl⟩ := hhead
      · cases List.prefix_nil.mp ht
      · obtain ⟨rfl, -⟩ := List.cons_prefix_cons.mp ht
        rw [List.countP_append, List.countP_cons_of_pos rfl] at hfresh
        omega

theorem FreshSpec.append {policy : LoopPolicy S} {used used' : Nat} {before after : List (Survivor S)}
    {log : List (Event S)} {r : List (Survivor S) × List (Event S)} (h : FreshSpec policy used used' before after log)
    (hr : SurvivorsSpec policy used' after r) : SurvivorsSpec policy used before (r.1, log ++ r.2) where
  head := by
    obtain ⟨outcome, body, rfl⟩ := h.head
    exact Or.inr ⟨outcome, body ++ r.2, rfl⟩
  budget := by
    have hbudget := hr.budget
    rw [max_eq_right h.budget, h.spent] at hbudget
    rw [List.countP_append, ← Nat.add_assoc]
    exact le_max_of_le_right hbudget
  rounds := fun segment hseg hfresh => by
    rcases infix_append_of_head hseg hfresh hr.head with hlog | hrest
    · exact hlog.sublist.countP_le.trans h.rounds
    · exact hr.rounds segment hrest hfresh
  repairable := fun rejection outcome hmem =>
    (List.mem_append.mp hmem).elim (h.repairable rejection outcome) (hr.repairable rejection outcome)
  passers := by rw [hr.passers, h.passers, List.filterMap_append, List.append_assoc]
  reports := by rw [List.filterMap_append, List.filterMap_append, h.reports, hr.reports]
  unpublished := by rw [List.filterMap_append, h.unpublished, hr.unpublished, List.append_nil]
  balance := by
    rw [counter_append, counter_append, counter_append, h.balance, hr.balance]
    omega

/-- A fresh candidate that the generator discards. -/
theorem FreshSpec.discarded {policy : LoopPolicy S} {used : Nat} (before : List (Survivor S)) (spec : ExerciseSpec)
    (outcome : GenerationOutcome) (hused : used < policy.maxAttemptsPerSpec) :
    FreshSpec policy used (used + 1) before before
      [.generated outcome, .counted .generatedTotal, .counted (.generateDiscarded outcome.discardReason),
        .counted (.conceptRejected spec.concept)] where
  head := ⟨outcome, _, rfl⟩
  spent := rfl
  budget := hused
  advance := Nat.lt_succ_self used
  rounds := Nat.zero_le _
  repairable := fun r o h => by simp at h
  passers := (List.append_nil before).symm
  reports := rfl
  unpublished := rfl
  balance := rfl

/-- A fresh candidate with its lineage. -/
theorem FreshSpec.lineage {policy : LoopPolicy S} {st : LineageState} {l : Lineage S} (before : List (Survivor S))
    (outcome : GenerationOutcome) {used : Nat} (hused : used < policy.maxAttemptsPerSpec) (hst : st.used = used + 1)
    (hfirst : st.lastRepairCheck = none) (h : LineageSpec policy policy.maxRepairRounds st l) :
    FreshSpec policy used l.used before (before ++ l.survivor.toList)
      ([.generated outcome, .counted .generatedTotal, .counted .generatePassed] ++ l.log) where
  head := ⟨outcome, _, rfl⟩
  spent := by
    have hcalls : l.log.countP isCall = l.log.countP isRepaired := List.countP_congr fun e he => by
      have hgenerated := List.countP_eq_zero.mp h.fresh e he
      rw [isCall, eq_false_of_ne_true hgenerated, Bool.false_or]
    rw [List.countP_append, hcalls, h.used, hst, Nat.add_assoc]
    rfl
  budget := by
    have hbudget := h.budget
    rwa [hst, max_eq_right (Nat.succ_le_of_lt hused)] at hbudget
  advance := by
    rw [h.used, hst]
    omega
  rounds := by
    rw [List.countP_append]
    exact (Nat.zero_add _).symm ▸ h.rounds
  repairable := fun r o hmem => by
    rcases List.mem_append.mp hmem with hmem | hmem
    · simp at hmem
    · exact h.repairable r o hmem
  passers := by
    rw [List.filterMap_append, h.passers]
    rfl
  reports := by
    rw [List.filterMap_append, List.filterMap_append, h.reports]
    rfl
  unpublished := by
    rw [List.filterMap_append, h.unpublished]
    rfl
  balance := by
    have hbalance := h.balance
    rw [pending, hfirst] at hbalance
    rw [counter_append, counter_append, counter_append]
    have hhead : ∀ key, key = Counter.repairAttempted ∨ key = .repairSucceeded ∨ key = .repairFailed →
        counter key [Event.generated (S := S) outcome, .counted .generatedTotal, .counted .generatePassed] = 0 := by
      rintro key (rfl | rfl | rfl) <;> rfl
    rw [hhead _ (.inl rfl), hhead _ (.inr (.inl rfl)), hhead _ (.inr (.inr rfl))]
    simpa using hbalance

section Fresh

variable [LinearOrder S] {cb : Callbacks S} {contentHash : String → String} {pool : List String} {spec : ExerciseSpec}
  {policy : LoopPolicy S} {coverage : Nat}

/-- **What the fresh candidates come to**, by induction on the fuel. -/
theorem survivorsSpec {fuel used evaluations : Nat} {before : List (Survivor S)} {r : List (Survivor S) × List (Event S)}
    (h : generateSurvivors cb contentHash pool spec policy coverage fuel used evaluations before = some r) :
    SurvivorsSpec policy used before r := by
  induction fuel generalizing used evaluations before r with
  | zero =>
    rw [generateSurvivors] at h
    split at h
    · cases h
    · cases h
      exact .nil policy used before
  | succ fuel ih =>
    rw [generateSurvivors] at h
    split at h
    · rename_i hused
      dsimp only at h
      split at h
      · obtain ⟨rest, hrest, rfl⟩ := Option.map_eq_some_iff.mp h
        exact (FreshSpec.discarded before spec _ hused).append (ih hrest)
      · rename_i candidate hcandidate
        have hlineage := lineageSpec cb contentHash pool spec policy policy.maxRepairRounds
          { current := candidate, templateId := (cb.generate used).templateId, usedRepair := false, checksTriggered := []
            lastRepairCheck := none, used := used + 1, evaluations }
        have hfresh := FreshSpec.lineage before (cb.generate used) hused rfl rfl hlineage
        split at h
        · cases h
          have hone := hfresh.append (.nil policy _ _)
          rwa [List.append_nil] at hone
        · obtain ⟨rest, hrest, rfl⟩ := Option.map_eq_some_iff.mp h
          exact hfresh.append (ih hrest)
    · cases h
      exact .nil policy used before

/-- **With as much fuel as attempts are left there is a result.** -/
theorem generateSurvivors_isSome (cb : Callbacks S) (contentHash : String → String) (pool : List String)
    (spec : ExerciseSpec) (coverage : Nat) {fuel used : Nat} (evaluations : Nat) (before : List (Survivor S))
    (h : policy.maxAttemptsPerSpec ≤ used + fuel) :
    (generateSurvivors cb contentHash pool spec policy coverage fuel used evaluations before).isSome := by
  induction fuel generalizing used evaluations before with
  | zero =>
    rw [generateSurvivors, if_neg (Nat.not_lt.mpr (Nat.add_zero used ▸ h))]
    rfl
  | succ fuel ih =>
    rw [generateSurvivors]
    split
    · dsimp only
      split
      · rw [Option.isSome_map]
        exact ih _ _ (by omega)
      · split
        · rfl
        · rw [Option.isSome_map]
          rename_i candidate _ _
          have hlineage := lineageSpec cb contentHash pool spec policy policy.maxRepairRounds
            { current := candidate, templateId := (cb.generate used).templateId, usedRepair := false, checksTriggered := []
              lastRepairCheck := none, used := used + 1, evaluations }
          have hused := hlineage.used
          dsimp only at hused
          exact ih _ _ (by omega)
    · rfl

end Fresh

/-! ## The best of them -/

/-- The first of those with the greatest score. -/
def FirstMaximum [LinearOrder S] (survivors : List (Survivor S)) (best : Survivor S) : Prop :=
  ∃ earlier later, survivors = earlier ++ best :: later ∧ (∀ s ∈ earlier, s.score < best.score) ∧
    ∀ s ∈ later, s.score ≤ best.score

section Best

variable [LinearOrder S]

theorem FirstMaximum.le {survivors : List (Survivor S)} {best s : Survivor S} (h : FirstMaximum survivors best)
    (hs : s ∈ survivors) : s.score ≤ best.score := by
  obtain ⟨earlier, later, rfl, hearlier, hlater⟩ := h
  rcases List.mem_append.mp hs with hs | hs
  · exact (hearlier s hs).le
  · rcases List.mem_cons.mp hs with rfl | hs
    · exact le_rfl
    · exact hlater s hs

/-- **`max` returns the first of the best**, by induction on the rest. -/
theorem bestOf_firstMaximum (first : Survivor S) (rest : List (Survivor S)) :
    FirstMaximum (first :: rest) (bestOf first rest) := by
  induction rest generalizing first with
  | nil => exact ⟨[], [], rfl, fun _ h => absurd h List.not_mem_nil, fun _ h => absurd h List.not_mem_nil⟩
  | cons second rest ih =>
    have hstep : bestOf first (second :: rest) = bestOf (if first.score < second.score then second else first) rest := rfl
    by_cases hlt : first.score < second.score
    · -- the best so far is beaten, and so is not the best
      rw [hstep, if_pos hlt]
      have hsecond := ih second
      have hbeaten := hlt.trans_le (hsecond.le List.mem_cons_self)
      obtain ⟨earlier, later, hsplit, hearlier, hlater⟩ := hsecond
      refine ⟨first :: earlier, later, congrArg (first :: ·) hsplit, ?_, hlater⟩
      rintro s (_ | ⟨_, hs⟩)
      · exact hbeaten
      · exact hearlier s hs
    · -- the best so far stays, before the one that does not beat it
      rw [hstep, if_neg hlt]
      have hsecond := not_lt.mp hlt
      obtain ⟨earlier, later, hsplit, hearlier, hlater⟩ := ih first
      cases earlier with
      | nil =>
        obtain ⟨hfirst, rfl⟩ := List.cons.inj hsplit
        refine ⟨[], second :: rest, by rw [← hfirst]; rfl, fun _ h => absurd h List.not_mem_nil, ?_⟩
        rintro s (_ | ⟨_, hs⟩)
        · exact hfirst ▸ hsecond
        · exact hlater s hs
      | cons head earlier =>
        obtain ⟨rfl, hrest⟩ := List.cons.inj hsplit
        have hfirst := hearlier first List.mem_cons_self
        refine ⟨first :: second :: earlier, later, congrArg (first :: second :: ·) hrest, ?_, hlater⟩
        rintro s (_ | ⟨_, _ | ⟨_, hs⟩⟩)
        · exact hfirst
        · exact hsecond.trans_lt hfirst
        · exact hearlier s (List.mem_cons_of_mem _ hs)

end Best

/-! ## Publication -/

section Publication

variable {spec : ExerciseSpec}

theorem silent_pursuedLog [LinearOrder S] (first : Survivor S) (rest : List (Survivor S)) : Silent (pursuedLog first rest) := by
  intro e he
  unfold pursuedLog at he
  split at he
  · exact absurd he List.not_mem_nil
  · rcases List.mem_append.mp he with he | he
    · rcases List.mem_cons.mp he with rfl | he
      · exact .counted _ ⟨nofun, nofun, nofun⟩
      · rw [List.eq_of_mem_replicate he]
        exact .counted _ ⟨nofun, nofun, nofun⟩
    · split at he
      · rw [List.mem_singleton.mp he]
        exact .counted _ ⟨nofun, nofun, nofun⟩
      · exact absurd he List.not_mem_nil

theorem silent_derivedLog (outcome : PTFOutcome) : Silent (S := S) (derivedLog spec outcome) := by
  intro e he
  rcases List.mem_cons.mp he with rfl | he
  · exact .counted _ ⟨nofun, nofun, nofun⟩
  · cases outcome with
    | discarded reason =>
      rw [List.mem_singleton.mp he]
      exact .counted _ ⟨nofun, nofun, nofun⟩
    | rejected stage =>
      simp only [List.mem_cons, List.not_mem_nil, or_false] at he
      obtain rfl | rfl | rfl := he
      · exact .counted _ ⟨nofun, nofun, nofun⟩
      · exact .counted _ ⟨nofun, nofun, nofun⟩
      · exact .ptfReported stage
    | published artifacts receipts =>
      simp only [List.mem_cons, List.not_mem_nil, or_false] at he
      obtain rfl | rfl | rfl := he
      · exact .ptfPublished artifacts
      · exact .counted _ ⟨nofun, nofun, nofun⟩
      · exact .counted _ ⟨nofun, nofun, nofun⟩

theorem publishSurvivor_eq (cb : Callbacks S) (spec : ExerciseSpec) (policy : LoopPolicy S) (survivor : Survivor S) :
    ∃ rest, publishSurvivor cb spec policy survivor = .published survivor :: rest ∧ Silent rest := by
  refine ⟨_, rfl, ?_⟩
  intro e he
  rcases List.mem_append.mp he with he | he
  · rcases List.mem_append.mp he with he | he
    · simp only [List.mem_cons, List.not_mem_nil, or_false] at he
      obtain rfl | rfl | rfl := he
      · exact .counted _ ⟨nofun, nofun, nofun⟩
      · exact .counted _ ⟨nofun, nofun, nofun⟩
      · exact .counted _ (by cases survivor.publishedViaRepair <;> exact ⟨nofun, nofun, nofun⟩)
    · split at he
      · simp only [List.mem_cons, List.not_mem_nil, or_false] at he
        obtain rfl | rfl := he <;> exact .counted _ ⟨nofun, nofun, nofun⟩
      · exact absurd he List.not_mem_nil
  · split at he
    · exact silent_derivedLog _ e he
    · exact absurd he List.not_mem_nil

end Publication

/-! ## The specification -/

/-- What resolving a specification comes to. -/
structure Resolved [LinearOrder S] (policy : LoopPolicy S) (r : Resolution S) : Prop where
  budget : r.log.countP isCall ≤ policy.maxAttemptsPerSpec
  /-- A stretch without a fresh candidate is part of one lineage. -/
  rounds : ∀ segment, segment <:+: r.log → segment.countP isGenerated = 0 →
    segment.countP isRepaired ≤ policy.maxRepairRounds
  repairable : ∀ rejection outcome, .repaired rejection outcome ∈ r.log → rejection.repairable = true
  published : r.log.filterMap published? = r.winner.toList
  passed : r.winner.isSome ↔ r.log.filterMap passed? ≠ []
  best : ∀ s, r.winner = some s → FirstMaximum (r.log.filterMap passed?) s
  /-- Each rejected candidate, in order, with its one report. -/
  reports : r.log.filterMap reported? = r.log.filterMap rejected?
  balance : counter .repairAttempted r.log = counter .repairSucceeded r.log + counter .repairFailed r.log

section Resolve

variable [LinearOrder S] {policy : LoopPolicy S} {r : List (Survivor S) × List (Event S)}

/-- No survivor. -/
theorem SurvivorsSpec.exhausted (h : SurvivorsSpec policy 0 [] r) (hnone : r.1 = []) : Resolved policy ⟨none, r.2⟩ where
  budget := by
    have hbudget := h.budget
    rwa [Nat.zero_add, Nat.zero_max] at hbudget
  rounds := h.rounds
  repairable := h.repairable
  published := h.unpublished
  passed := by
    have hpassers := h.passers
    rw [hnone, List.nil_append] at hpassers
    exact ⟨nofun, fun hne => absurd hpassers.symm hne⟩
  best := nofun
  reports := h.reports.symm
  balance := h.balance

/-- The winner is published, and that is all. -/
theorem SurvivorsSpec.published (h : SurvivorsSpec policy 0 [] r) {best : Survivor S} (hbest : FirstMaximum r.1 best)
    {pursued rest : List (Event S)} (hpursued : Silent pursued) (hrest : Silent rest) :
    Resolved policy ⟨some best, r.2 ++ pursued ++ .published best :: rest⟩ := by
  have hcount : ∀ p : Event S → Bool, (∀ {e : Event S}, e.Silent → p e = false) → p (.published best) = false →
      (r.2 ++ pursued ++ .published best :: rest).countP p = r.2.countP p := fun p hp hpublished => by
    rw [List.countP_append, List.countP_append, hpursued.countP hp, List.countP_cons_of_neg (ne_true_of_eq_false hpublished),
      hrest.countP hp]
    rfl
  have hfilter : ∀ {α : Type} (f : Event S → Option α), (∀ {e : Event S}, e.Silent → f e = none) →
      (r.2 ++ pursued ++ .published best :: rest).filterMap f = r.2.filterMap f ++ (f (.published best)).toList :=
    fun f hf => by
      rw [List.filterMap_append, List.filterMap_append, hpursued.filterMap hf, List.append_nil, List.filterMap_cons,
        hrest.filterMap hf]
      cases f (.published best) <;> rfl
  have hpassed : (r.2 ++ pursued ++ .published best :: rest).filterMap passed? = r.1 := by
    rw [hfilter passed? Event.Silent.passed, h.passers, List.nil_append]
    exact List.append_nil _
  have hmem : ∀ e ∈ pursued ++ .published best :: rest, isRepaired e = false := fun e he => by
    rcases List.mem_append.mp he with he | he
    · exact (hpursued e he).isRepaired
    · rcases List.mem_cons.mp he with rfl | he
      · rfl
      · exact (hrest e he).isRepaired
  constructor
  case budget =>
    have hbudget := h.budget
    rw [Nat.zero_add, Nat.zero_max] at hbudget
    have hcalls := hcount isCall (fun he => by rw [isCall, he.isGenerated, he.isRepaired]; rfl) rfl
    exact hcalls.symm ▸ hbudget
  case rounds =>
    intro segment hseg hfresh
    have hnone : ∀ t, t <:+: pursued ++ .published best :: rest → t.countP isRepaired = 0 := fun t ht =>
      List.countP_eq_zero.mpr fun e he => ne_true_of_eq_false (hmem e (ht.subset he))
    change segment <:+: r.2 ++ pursued ++ .published best :: rest at hseg
    rw [List.append_assoc] at hseg
    obtain hlog | htail | ⟨s, t, rfl, hs, ht⟩ := List.infix_append_iff.mp hseg
    · exact h.rounds segment hlog hfresh
    · rw [hnone segment htail]
      exact Nat.zero_le _
    · rw [List.countP_append] at hfresh ⊢
      rw [hnone t ht.isInfix]
      exact h.rounds s hs.isInfix (Nat.eq_zero_of_add_eq_zero_right hfresh)
  case repairable =>
    intro rejection outcome hrepaired
    rw [List.append_assoc] at hrepaired
    rcases List.mem_append.mp hrepaired with hrepaired | hrepaired
    · exact h.repairable rejection outcome hrepaired
    · cases hmem _ hrepaired
  case published =>
    exact (hfilter published? Event.Silent.published).trans (congrArg (· ++ [best]) h.unpublished)
  case passed =>
    obtain ⟨earlier, later, hsplit, -⟩ := hbest
    change _ ↔ (r.2 ++ pursued ++ .published best :: rest).filterMap passed? ≠ []
    rw [hpassed, hsplit]
    exact ⟨fun _ => List.append_ne_nil_of_right_ne_nil _ (List.cons_ne_nil _ _), fun _ => rfl⟩
  case best =>
    rintro s ⟨⟩
    exact hpassed.symm ▸ hbest
  case reports =>
    exact (hfilter reported? Event.Silent.reported).trans
      ((congrArg (· ++ []) h.reports.symm).trans (hfilter rejected? Event.Silent.rejected).symm)
  case balance =>
    have hcounter : ∀ key, key = .repairAttempted ∨ key = .repairSucceeded ∨ key = .repairFailed →
        counter key (r.2 ++ pursued ++ .published best :: rest) = counter key r.2 := fun key hkey =>
      hcount (Event.counts key) (fun he => he.counts hkey) rfl
    change counter _ (r.2 ++ pursued ++ .published best :: rest) = counter _ (r.2 ++ pursued ++ .published best :: rest) +
      counter _ (r.2 ++ pursued ++ .published best :: rest)
    rw [hcounter _ (.inl rfl), hcounter _ (.inr (.inl rfl)), hcounter _ (.inr (.inr rfl)), h.balance]

end Resolve

/-- Whatever the callbacks come to there is a result. -/
theorem resolveSpec_isSome [LinearOrder S] (cb : Callbacks S) (contentHash : String → String) (pool : List String)
    (spec : ExerciseSpec) (policy : LoopPolicy S) (coverage : Nat) :
    ∃ r, resolveSpec cb contentHash pool spec policy coverage = some r := by
  have hfuel : policy.maxAttemptsPerSpec ≤ 0 + policy.maxAttemptsPerSpec := (Nat.zero_add _).ge
  obtain ⟨r, hr⟩ := Option.isSome_iff_exists.mp (generateSurvivors_isSome cb contentHash pool spec coverage 0 [] hfuel)
  exact ⟨_, congrArg (Option.map _) hr⟩

/-- What the result is. -/
theorem resolved_of_resolveSpec [LinearOrder S] {cb : Callbacks S} {contentHash : String → String} {pool : List String}
    {spec : ExerciseSpec} {policy : LoopPolicy S} {coverage : Nat} {r : Resolution S}
    (h : resolveSpec cb contentHash pool spec policy coverage = some r) : Resolved policy r := by
  obtain ⟨⟨survivors, log⟩, hr, rfl⟩ := Option.map_eq_some_iff.mp h
  have hspec := survivorsSpec hr
  cases survivors with
  | nil => exact hspec.exhausted rfl
  | cons first rest =>
    obtain ⟨aftermath, hpublish, haftermath⟩ := publishSurvivor_eq cb spec policy (bestOf first rest)
    dsimp only
    rw [hpublish]
    exact hspec.published (bestOf_firstMaximum first rest) (silent_pursuedLog first rest) haftermath

/-- **Resolving a specification keeps its budgets and publishes the best of the candidates that passed**: whatever the
callbacks come to there is a result. -/
theorem resolveSpec_resolved [LinearOrder S] (cb : Callbacks S) (contentHash : String → String) (pool : List String)
    (spec : ExerciseSpec) (policy : LoopPolicy S) (coverage : Nat) :
    ∃ r, resolveSpec cb contentHash pool spec policy coverage = some r ∧ Resolved policy r := by
  obtain ⟨r, hr⟩ := resolveSpec_isSome cb contentHash pool spec policy coverage
  exact ⟨r, hr, resolved_of_resolveSpec hr⟩

end CodeReader.Pipeline
