import CodeReader.Attempts.Spec
import CodeReader.Grading.Tally
import CodeReader.Requests.Frame
import CodeReader.Txn.Ensures

/-!
# What the statements of grading do

* `exec_updateConceptState` — the concept states alone;
* `attemptBody_counts`, `updateHeldStats_counts` — the user's counters, whatever is read of the other tables;
* `storeAttempt_counts`, `resolveAttempts_counts` — what a submission and the job's loop ensure of all counters;
* `storeAttempt_user` — **the rows of the user** are those of the smaller model.
-/

namespace CodeReader.Grading

open Txn Prog

variable {cfg : Settings} {cat : Catalog}

/-! ## Concept states -/

/-- The session's rows are as the tables have them. -/
def Holds (held states : List ConceptState) : Prop :=
  ∀ c row, held.find? (·.concept == c) = some row → states.find? (·.concept == c) = some row

theorem ConceptState.setChanged_self (old new : ConceptState) (h : new.concept = old.concept) :
    ConceptState.setChanged old new old = new := by
  obtain ⟨c, m, a, k, d, s, n⟩ := new
  obtain ⟨c', m', a', k', d', s', n'⟩ := old
  dsimp only at h
  subst h
  simp only [ConceptState.setChanged, ConceptState.mk.injEq, true_and]
  refine ⟨?_, ?_, ?_, ?_, ?_, ?_⟩ <;> (split <;> simp_all)

theorem practised_concept (row : ConceptState) (outcome : ConceptOutcome) (now : Int) :
    (row.practised outcome now).concept = row.concept := by
  unfold ConceptState.practised
  split <;> rfl

theorem practised_ne (row : ConceptState) (outcome : ConceptOutcome) (now : Int) : row.practised outcome now ≠ row := by
  intro h
  unfold ConceptState.practised at h
  split at h
  · have := congrArg ConceptState.declined h
    simp at this
  · have := congrArg ConceptState.attempts h
    simp at this

/-- The rows of other concepts stay. -/
theorem find_flushed {states : List ConceptState} {row new : ConceptState} {c : String} (hc : new.concept = row.concept)
    (hrow : states.find? (·.concept == row.concept) = some row) :
    (states.map fun r => if r.concept = row.concept then ConceptState.setChanged row new r else r).find?
        (·.concept == c) =
      if c = row.concept then some new else states.find? (·.concept == c) := by
  have hkey : ∀ r : ConceptState, (if r.concept = row.concept then ConceptState.setChanged row new r else r).concept =
      r.concept := by
    intro r
    split <;> rfl
  rw [List.find?_map]
  have hcomp : ((fun r : ConceptState => r.concept == c) ∘
      fun r => if r.concept = row.concept then ConceptState.setChanged row new r else r) = (·.concept == c) := by
    funext r
    simp only [Function.comp, hkey]
  rw [hcomp]
  split
  · rename_i h
    rw [h, hrow, Option.map_some, if_pos rfl, ConceptState.setChanged_self row new hc]
  · rename_i h
    cases hf : states.find? (·.concept == c) with
    | none => rfl
    | some r =>
      have hr : r.concept = c := by simpa using List.find?_some hf
      rw [Option.map_some, if_neg (fun he => h (hr.symm.trans he))]

/-- One concept: its row, and the flush of its update. -/
theorem exec_conceptState (held : List ConceptState) (concept : String) (outcome : ConceptOutcome) (now : Int)
    (cur : GradingRows) (s : Store GradingApp) (hheld : Holds held cur.conceptStates) :
    ∃ states, (do
        let row ← getOrCreateConceptState held concept
        flushConceptState row (row.practised outcome now)
        ret row : GradingHandler ConceptState).exec cur s =
      ⟨.ok (conceptRow cur.conceptStates concept), { cur with conceptStates := states }, s⟩ ∧
      ∀ c, states.find? (·.concept == c) =
        if c = concept then some ((conceptRow cur.conceptStates concept).practised outcome now)
        else cur.conceptStates.find? (·.concept == c) := by
  -- a row that is there
  have hthere : ∀ (row : ConceptState) (cur : GradingRows), cur.conceptStates.find? (·.concept == concept) = some row →
      ∃ states, (do
          flushConceptState row (row.practised outcome now)
          ret row : GradingHandler ConceptState).exec cur s = ⟨.ok row, { cur with conceptStates := states }, s⟩ ∧
        ∀ c, states.find? (·.concept == c) =
          if c = concept then some (row.practised outcome now) else cur.conceptStates.find? (·.concept == c) := by
    intro row cur hrow
    have hc : row.concept = concept := by simpa using List.find?_some hrow
    refine ⟨cur.conceptStates.map fun r => if r.concept = row.concept then
      ConceptState.setChanged row (row.practised outcome now) r else r, ?_, fun c => ?_⟩
    · unfold flushConceptState
      rw [if_neg (practised_ne row outcome now)]
      rfl
    · subst hc
      exact find_flushed (practised_concept row outcome now) hrow
  unfold getOrCreateConceptState
  cases hh : held.find? (·.concept == concept) with
  | some row =>
    have hrow := hheld concept row hh
    obtain ⟨states, hexec, hfind⟩ := hthere row cur hrow
    have hcr : conceptRow cur.conceptStates concept = row := by simp [conceptRow, hrow]
    rw [hcr]
    exact ⟨states, hexec, hfind⟩
  | none =>
    cases hrow : cur.conceptStates.find? (·.concept == concept) with
    | some row =>
      obtain ⟨states, hexec, hfind⟩ := hthere row cur hrow
      have hcr : conceptRow cur.conceptStates concept = row := by simp [conceptRow, hrow]
      rw [hcr]
      refine ⟨states, ?_, hfind⟩
      simp only [query_bind, select_bind, exec_select, hrow]
      exact hexec
    | none =>
      -- a new row, which is not taken
      have htaken : cur.conceptStates.any (·.concept == concept) = false := by
        simpa [List.any_eq_false] using List.find?_eq_none.mp hrow
      have hcr : conceptRow cur.conceptStates concept = newConceptState concept := by simp [conceptRow, hrow]
      have hnew : (cur.conceptStates ++ [newConceptState concept]).find? (·.concept == concept) =
          some (newConceptState concept) := by
        simp [List.find?_append, hrow, newConceptState]
      obtain ⟨states, hexec, hfind⟩ := hthere (newConceptState concept)
        { cur with conceptStates := cur.conceptStates ++ [newConceptState concept] } hnew
      rw [hcr]
      refine ⟨states, ?_, fun c => ?_⟩
      · simp only [query_bind, select_bind, exec_select, hrow, insertConceptState, lockOn_bind, lock_bind, exec_lock,
          newConceptState, htaken]
        exact hexec
      · rw [hfind]
        split
        · rfl
        · rename_i hc
          simp only [List.find?_append, newConceptState]
          have hne : ¬ concept = c := fun he => hc he.symm
          simp [hne]

/-- One outcome of one concept. -/
theorem Practised.one {states states' : List ConceptState} {concept : String} {outcome : ConceptOutcome} {now : Int}
    (h : ∀ c, states'.find? (·.concept == c) =
      if c = concept then some ((conceptRow states concept).practised outcome now)
      else states.find? (·.concept == c)) : Practised states states' (some outcome) [concept] := by
  have hrow : ∀ c, conceptRow states' c =
      if c = concept then (conceptRow states concept).practised outcome now else conceptRow states c := by
    intro c
    rw [conceptRow, h]
    split <;> rfl
  refine ⟨fun c => ?_, fun c => ?_, fun c => ?_⟩ <;> rw [hrow] <;> by_cases hc : c = concept
  · subst hc
    cases outcome <;> simp [ConceptState.practised]
  · have hne : ¬ concept = c := fun he => hc he.symm
    simp [hc, hne]
  · subst hc
    cases outcome <;> simp [ConceptState.practised]
  · have hne : ¬ concept = c := fun he => hc he.symm
    simp [hc, hne]
  · subst hc
    cases outcome <;> simp [ConceptState.practised]
  · have hne : ¬ concept = c := fun he => hc he.symm
    simp [hc, hne]

theorem Practised.cons {states₁ states₂ states₃ : List ConceptState} {outcome : ConceptOutcome} {concept : String}
    {concepts : List String} (h : Practised states₁ states₂ (some outcome) [concept])
    (h' : Practised states₂ states₃ (some outcome) concepts) :
    Practised states₁ states₃ (some outcome) (concept :: concepts) := by
  have hcount : ∀ c, (concept :: concepts).count c = [concept].count c + concepts.count c := by
    intro c
    rw [← List.count_append]
    rfl
  refine ⟨fun c => ?_, fun c => ?_, fun c => ?_⟩
  · rw [h'.attempts, h.attempts, hcount]
    split <;> omega
  · rw [h'.correct, h.correct, hcount]
    split <;> omega
  · rw [h'.declined, h.declined, hcount]
    split <;> omega

/-- A step of the loop: the row of a concept, the flush of its update, and the rest. -/
theorem updateConceptState_cons (held : List ConceptState) (outcome : ConceptOutcome) (now : Int) (concept : String)
    (concepts : List String) : updateConceptState held outcome now (concept :: concepts) =
      (do
        let row ← getOrCreateConceptState held concept
        flushConceptState row (row.practised outcome now)
        ret row : GradingHandler ConceptState) >>= fun row =>
          updateConceptState (row.practised outcome now :: held) outcome now concepts := by
  rw [updateConceptState, bind_assoc]
  congr 1
  funext row
  rw [bind_assoc]
  rfl

/-- After a step the session holds the new row. -/
theorem Holds.cons {held states states' : List ConceptState} {concept : String} {outcome : ConceptOutcome} {now : Int}
    (hheld : Holds held states)
    (hfind : ∀ c, states'.find? (·.concept == c) =
      if c = concept then some ((conceptRow states concept).practised outcome now)
      else states.find? (·.concept == c)) :
    Holds ((conceptRow states concept).practised outcome now :: held) states' := by
  intro c row hrow
  rw [hfind]
  have hkey : ((conceptRow states concept).practised outcome now).concept = concept := by
    rw [practised_concept, conceptRow]
    cases hf : states.find? (·.concept == concept) with
    | none => rfl
    | some r => simpa using List.find?_some hf
  by_cases hc : c = concept
  · subst hc
    rw [if_pos rfl]
    simpa [hkey] using hrow
  · have hne : ¬ concept = c := fun he => hc he.symm
    rw [if_neg hc]
    exact hheld c row (by simpa [hkey, hne] using hrow)

/-- **The concept states alone**: each mention of a concept counts once. -/
theorem exec_updateConceptState (outcome : ConceptOutcome) (now : Int) (concepts : List String)
    (held : List ConceptState) (cur : GradingRows) (s : Store GradingApp) (hheld : Holds held cur.conceptStates) :
    ∃ held' states, (updateConceptState held outcome now concepts).exec cur s =
      ⟨.ok held', { cur with conceptStates := states }, s⟩ ∧ Holds held' states ∧
        Practised cur.conceptStates states (some outcome) concepts := by
  induction concepts generalizing held cur with
  | nil => exact ⟨held, cur.conceptStates, rfl, hheld, ⟨fun c => by simp, fun c => by simp, fun c => by simp⟩⟩
  | cons concept concepts ih =>
    obtain ⟨states₁, hexec, hfind⟩ := exec_conceptState held concept outcome now cur s hheld
    obtain ⟨held', states, hexec', hheld', hpract⟩ := ih _ { cur with conceptStates := states₁ } (hheld.cons hfind)
    refine ⟨held', states, ?_, hheld', (Practised.one hfind).cons hpract⟩
    rw [updateConceptState_cons, exec_bind, hexec]
    exact hexec'

/-! ## The user's counters -/

/-- The stats are the reads that matter to the user's counters. -/
abbrev StatsTbl (t : Tbl) : Prop := t = .userStats

/-- The session's stats, if it holds them, are as the table has them. -/
def HoldsStats (held : Option StatsObject) (stats : Option UserStats) : Prop :=
  ∀ o, held = some o → ∃ st, o = .loaded st ∧ stats = some st

section User

variable {tx : Tx} {o : StatsObject} {cur : UserRows} {locks : Set Lock}

theorem reads_flushUserStats (o : StatsObject) : (flushUserStats o).Reads StatsTbl := by
  unfold flushUserStats
  split <;> trivial

theorem flushUserStats_counts (h : cur.stats = some o.flushed) : (flushUserStats o).Ensures StatsTbl
    (fun r _ (cur' : UserRows) => r = .ok (.loaded o.current) ∧ cur' = { cur with stats := some o.current }) locks cur := by
  refine ensures_of_exec (reads_flushUserStats o) ⟨cur, fun _ => none, fun _ => false⟩ ?_
  rw [exec_flushUserStats h]
  exact ⟨rfl, rfl⟩

theorem getOrCreateUserStats_counts (cfg : Settings) {held : Option StatsObject} (h : HoldsStats held cur.stats) :
    (getOrCreateUserStats cfg held).Ensures StatsTbl (fun r _ (cur' : UserRows) => ∃ st, r = .ok (.loaded st) ∧
      cur' = { cur with stats := some st } ∧ countersOf (some st) = countersOf cur.stats) locks cur := by
  cases held with
  | none =>
    have hreads : (getOrCreateUserStats cfg none).Reads StatsTbl := by
      refine ⟨rfl, fun row => ?_⟩
      cases row with
      | some st => trivial
      | none =>
        refine ⟨rfl, fun taken => ?_⟩
        cases taken <;> trivial
    refine ensures_of_exec hreads ⟨cur, fun _ => none, fun _ => false⟩ ?_
    rw [exec_getOrCreateUserStats_none]
    refine ⟨_, rfl, rfl, ?_⟩
    cases cur.stats <;> rfl
  | some o =>
    obtain ⟨st, rfl, hst⟩ := h o rfl
    refine ⟨st, rfl, ?_, by rw [hst]⟩
    rw [← hst]

theorem tryCoverGap_counts (cfg : Settings) (lastActive today : Int) (h : cur.stats = some o.flushed) :
    (tryCoverGap cfg o lastActive today).Ensures StatsTbl (fun r _ (cur' : UserRows) => ∃ o' spent, r = .ok (o', spent) ∧
      cur' = { cur with stats := some o'.flushed } ∧ countersOf (some o'.current) = countersOf (some o.current))
      locks cur := by
  unfold tryCoverGap
  dsimp only
  split
  · exact ⟨o, none, rfl, by rw [← h], rfl⟩
  · rename_i hmissed
    rw [coveredDates, if_neg hmissed, bind_assoc]
    refine ensures_bind ((flushUserStats_counts h).mono ?_)
    rintro r _ cur' ⟨rfl, rfl⟩
    refine ⟨fun ht => (nomatch ht), fun _ d => ?_⟩
    -- whatever the ledger covers
    change Ensures _ _ (if _ then _ else _) _ _
    split
    · exact ⟨_, none, rfl, rfl, rfl⟩
    · exact ⟨_, _, rfl, rfl, rfl⟩

theorem insertStreakEvents_counts (evs : List NewEvent) : (insertStreakEvents tx evs).Ensures StatsTbl
    (fun _ _ (cur' : UserRows) => cur'.attempts = cur.attempts ∧ cur'.stats = cur.stats) locks cur := by
  refine ⟨fun ht => (nomatch ht), fun _ d => ?_⟩
  change Ensures _ _ (if _ then _ else _) _ _
  split <;> exact ⟨rfl, rfl⟩

theorem recordTransition_counts (cfg : Settings) (spent : List NewEvent) (event : StreakEventKind)
    (fromValue toValue today : Int) (h : cur.stats = some o.flushed) :
    (recordTransition cfg tx o spent event fromValue toValue today).Ensures StatsTbl
      (fun _ _ (cur' : UserRows) => cur'.attempts = cur.attempts ∧ countersOf cur'.stats = countersOf (some o.current)) locks cur := by
  obtain ⟨stats, earned, hpair, hstats⟩ : ∃ stats earned, (if event = .extended then
      accrueFreezeIfEarned cfg (transitionStats o.current toValue today) today
      else (transitionStats o.current toValue today, [])) = (stats, earned) ∧
        countersOf (some stats) = countersOf (some o.current) := by
    split
    · rcases accrueFreezeIfEarned_cases cfg (transitionStats o.current toValue today) today with he | ⟨-, note, he⟩
      · exact ⟨_, _, he, rfl⟩
      · exact ⟨_, _, he, rfl⟩
    · exact ⟨_, _, rfl, rfl⟩
  unfold recordTransition
  dsimp only
  rw [hpair]
  refine ensures_bind ((flushUserStats_counts (o := ⟨o.flushed, stats⟩) h).mono ?_)
  rintro r _ cur' ⟨rfl, rfl⟩
  refine ensures_bind ((insertStreakEvents_counts _).mono ?_)
  rintro r _ cur'' ⟨ha, hs⟩
  have hcounters : countersOf cur''.stats = countersOf (some o.current) := by rw [hs, ← hstats]
  cases r with
  | error e => exact ⟨ha, hcounters⟩
  | ok _ => exact ⟨ha, hcounters⟩

/-- The streak step counts one attempt, whatever the ledger has. -/
theorem updateStreakAndAttemptCount_counts (cfg : Settings) {held : Option StatsObject} (today : Int)
    (h : HoldsStats held cur.stats) : (updateStreakAndAttemptCount cfg tx held today).Ensures StatsTbl
      (fun _ _ (cur' : UserRows) => cur'.attempts = cur.attempts ∧ countersOf cur'.stats = (countersOf cur.stats).attempted)
      locks cur := by
  unfold updateStreakAndAttemptCount
  refine ensures_bind ((getOrCreateUserStats_counts cfg h).mono ?_)
  rintro r _ cur' ⟨st, rfl, rfl, hst⟩
  have hattempted : countersOf (some st.attempted) = (countersOf cur.stats).attempted := by
    rw [← hst]
    rfl
  have htransition : ∀ (o : StatsObject) (spent : List NewEvent) (event : StreakEventKind) (fromValue toValue : Int)
      (locks : Set Lock), countersOf (some o.current) = countersOf (some st.attempted) →
      (recordTransition cfg tx o spent event fromValue toValue today).Ensures StatsTbl (fun _ _ (cur' : UserRows) =>
        cur'.attempts = cur.attempts ∧ countersOf cur'.stats = countersOf (some st.attempted)) locks
        { cur with stats := some o.flushed } := by
    intro o spent event fromValue toValue locks ho
    have hcur : ({ cur with stats := some o.flushed } : UserRows).stats = some o.flushed := rfl
    rw [← ho]
    exact recordTransition_counts cfg spent event fromValue toValue today hcur
  dsimp only
  rw [← hattempted]
  split
  · refine ensures_bind ((flushUserStats_counts (o := ⟨st, st.attempted⟩) rfl).mono ?_)
    rintro r _ cur' ⟨rfl, rfl⟩
    exact ⟨rfl, rfl⟩
  · split
    · exact htransition ⟨st, st.attempted⟩ _ _ _ _ _ rfl
    · split
      · exact htransition ⟨st, st.attempted⟩ _ _ _ _ _ rfl
      · refine ensures_bind ((tryCoverGap_counts (o := ⟨st, st.attempted⟩) cfg _ _ rfl).mono ?_)
        rintro r _ cur' ⟨o', spent, rfl, rfl, ho'⟩
        cases spent with
        | some spent => exact htransition o' _ _ _ _ _ ho'
        | none => exact htransition o' _ _ _ _ _ ho'

theorem updateHeldStats_counts (cfg : Settings) {held : Option StatsObject} (type : String) (isCorrect : Bool)
    (h : HoldsStats held cur.stats) : (updateHeldStats cfg held type isCorrect).Ensures StatsTbl
      (fun r _ (cur' : UserRows) => ∃ st, r = .ok (.loaded st) ∧ cur' = { cur with stats := some st } ∧
        countersOf (some st) = (countersOf cur.stats).corrected type isCorrect) locks cur := by
  unfold updateHeldStats
  refine ensures_bind ((getOrCreateUserStats_counts cfg h).mono ?_)
  rintro r _ cur' ⟨st, rfl, rfl, hst⟩
  refine (flushUserStats_counts (o := ⟨st, st.corrected type isCorrect⟩) rfl).mono ?_
  rintro r _ cur' ⟨rfl, rfl⟩
  refine ⟨st.corrected type isCorrect, rfl, rfl, ?_⟩
  rw [← hst]
  rfl

theorem recordVerdict_counts (cfg : Settings) (type : String) (grade : Grade) :
    (recordVerdict cfg type grade).Ensures StatsTbl (fun r _ (cur' : UserRows) => ∃ held, r = .ok held ∧
      cur'.attempts = cur.attempts ∧ HoldsStats held cur'.stats ∧
      countersOf cur'.stats = (countersOf cur.stats).judged type grade.isCorrect) locks cur := by
  unfold recordVerdict
  cases grade.isCorrect with
  | none => exact ⟨none, rfl, rfl, fun o ho => (nomatch ho), rfl⟩
  | some b =>
    dsimp only
    rw [updateCorrectnessStats_eq]
    have hnone : HoldsStats none cur.stats := fun o ho => nomatch ho
    refine ensures_bind ((updateHeldStats_counts cfg type b hnone).mono ?_)
    rintro r _ cur' ⟨st, rfl, rfl, hst⟩
    refine ⟨_, rfl, rfl, fun o ho => ?_, hst⟩
    cases ho
    exact ⟨st, rfl, rfl⟩

/-- The steps about the session leave the counters. -/
theorem remainingCount_counts (today : Int) (slots : List SessionSlot) : (remainingCount today slots).Ensures StatsTbl
    (fun _ _ (cur' : UserRows) => cur'.attempts = cur.attempts ∧ cur'.stats = cur.stats) locks cur := by
  unfold remainingCount
  split
  · exact ⟨rfl, rfl⟩
  · exact ⟨fun ht => (nomatch ht), fun _ d => ⟨rfl, rfl⟩⟩

theorem completeSession_counts (today now remaining : Int) : (completeSession today now remaining).Ensures StatsTbl
    (fun _ _ (cur' : UserRows) => cur'.attempts = cur.attempts ∧ cur'.stats = cur.stats) locks cur := by
  unfold completeSession
  split
  · refine ensures_bind ((ensures_query fun ht => (nomatch ht)).mono ?_)
    rintro r _ cur' ⟨d, rfl, -, rfl⟩
    dsimp only
    split
    · exact ⟨fun ht => (nomatch ht), fun _ d => ⟨rfl, rfl⟩⟩
    · exact ⟨rfl, rfl⟩
  · exact ⟨rfl, rfl⟩

/-- A submission counts its verdict, and one attempt. -/
theorem attemptBody_counts (cfg : Settings) (env : SubmitEnv) (type : String) (grade : Grade) :
    (attemptBody cfg env tx type grade).Ensures StatsTbl (fun _ _ (cur' : UserRows) => cur'.attempts = cur.attempts ∧
      countersOf cur'.stats = ((countersOf cur.stats).judged type grade.isCorrect).attempted) locks cur := by
  unfold attemptBody
  refine ensures_bind ((recordVerdict_counts cfg type grade).mono ?_)
  rintro r _ cur₁ ⟨held, rfl, ha₁, hheld, hk₁⟩
  refine ensures_bind ((updateStreakAndAttemptCount_counts cfg env.today hheld).mono ?_)
  rintro r _ cur₂ ⟨ha₂, hk₂⟩
  rw [hk₁] at hk₂
  rw [ha₁] at ha₂
  cases r with
  | error e => exact ⟨ha₂, hk₂⟩
  | ok streak =>
    refine ensures_bind ((remainingCount_counts env.today env.slots).mono ?_)
    rintro r _ cur₃ ⟨ha₃, hs₃⟩
    rw [← ha₃] at ha₂
    rw [← hs₃] at hk₂
    cases r with
    | error e => exact ⟨ha₂, hk₂⟩
    | ok remaining =>
      refine ensures_bind ((completeSession_counts env.today env.now remaining).mono ?_)
      rintro r _ cur₄ ⟨ha₄, hs₄⟩
      rw [← ha₄] at ha₂
      rw [← hs₄] at hk₂
      cases r with
      | error e => exact ⟨ha₂, hk₂⟩
      | ok first => exact ⟨ha₂, hk₂⟩

end User

/-! ## All counters -/

/-- The tables that the counters are kept in. -/
def CounterTbl (t : GradingTbl) : Prop := t = .user .userStats ∨ t = .userConceptState

theorem counterTbl_user (t : Tbl) : CounterTbl (.user t) ↔ StatsTbl t := by
  simp [CounterTbl, StatsTbl]

section All

variable {cur : GradingRows} {locks : Set GradingLock} {env : SubmitEnv} {tx : Tx} {payload : AttemptRequest}

theorem reads_updateConceptState (outcome : ConceptOutcome) (now : Int) (concepts : List String)
    (held : List ConceptState) : (updateConceptState held outcome now concepts).Reads CounterTbl := by
  induction concepts generalizing held with
  | nil => trivial
  | cons concept concepts ih =>
    have hflush : ∀ old new, (flushConceptState old new).Reads CounterTbl := by
      intro old new
      unfold flushConceptState
      split <;> trivial
    refine Reads.bind ?_ fun row => Reads.bind (hflush _ _) fun _ => ih _
    unfold getOrCreateConceptState
    split
    · trivial
    · refine ⟨.inr rfl, fun row => ?_⟩
      cases row with
      | some row => trivial
      | none =>
        refine ⟨.inr rfl, fun taken => ?_⟩
        cases taken <;> trivial

theorem updateConceptState_counts (outcome : ConceptOutcome) (now : Int) (concepts : List String)
    {held : List ConceptState} (h : Holds held cur.conceptStates) :
    (updateConceptState held outcome now concepts).Ensures CounterTbl (fun r _ (cur' : GradingRows) =>
      ∃ held' states, r = .ok held' ∧ cur' = { cur with conceptStates := states } ∧ Holds held' states ∧
        Practised cur.conceptStates states (some outcome) concepts) locks cur := by
  refine ensures_of_exec (reads_updateConceptState outcome now concepts held) ⟨cur, fun _ => none, fun _ => false⟩ ?_
  obtain ⟨held', states, hexec, hheld', hpract⟩ := exec_updateConceptState outcome now concepts held cur _ h
  rw [hexec]
  exact ⟨held', states, rfl, rfl, hheld', hpract⟩

theorem recordConcepts_counts (concepts : List String) (grade : Grade) (now : Int) :
    (recordConcepts concepts grade now).Ensures CounterTbl (fun r _ (cur' : GradingRows) =>
      ∃ states, r = .ok () ∧ cur' = { cur with conceptStates := states } ∧
        Practised cur.conceptStates states (conceptOutcome grade) concepts) locks cur := by
  unfold recordConcepts
  cases conceptOutcome grade with
  | none => exact ⟨cur.conceptStates, rfl, rfl, .none _ _⟩
  | some outcome =>
    have hnone : Holds [] cur.conceptStates := fun c row hrow => nomatch hrow
    refine ensures_bind ((updateConceptState_counts outcome now concepts hnone).mono ?_)
    rintro r _ cur' ⟨held', states, rfl, rfl, -, hpract⟩
    exact ⟨states, rfl, rfl, hpract⟩

/-! ### A submission -/

/-- A submission up to its commit. -/
def attemptPart (cfg : Settings) (env : SubmitEnv) (tx : Tx) (payload : AttemptRequest) (type : String)
    (concepts : List String) (grade : Grade) (output : String) : GradingHandler (Option StreakInfo × Int × Bool) :=
  .lock (.user (.advisory (isoformat env.today))) (.select (.user .attempts)
    (fun rows => attemptedOn rows.user.attempts payload.exerciseId env.today) fun already =>
      if already then raise alreadyAttempted
      else .write (fun rows => { rows with
          user := { rows.user with attempts := rows.user.attempts ++ [env.attempt tx payload grade] }
          graderOutput := Function.update rows.graderOutput tx.attemptId (graderOutputOf output grade) })
        (recordConcepts concepts grade env.now >>= fun _ => (attemptBody cfg env tx type grade).lift userPart))

theorem storeAttempt_eq (cfg : Settings) (env : SubmitEnv) (tx : Tx) (payload : AttemptRequest) (type : String)
    (concepts : List String) (grade : Grade) (output : String) :
    storeAttempt cfg env tx payload type concepts grade output =
      attemptPart cfg env tx payload type concepts grade output >>= fun r =>
        .commit (.ret (attemptResponse env tx grade r)) := by
  unfold storeAttempt attemptPart attemptBody
  simp only [lockOn_bind, query_bind, lock_bind, select_bind]
  congr 2
  funext already
  cases already with
  | true => rfl
  | false =>
    simp only [Bool.false_eq_true, if_false, update_bind, write_bind, lift_bind, bind_assoc]
    rfl

/-- The writes of a submission are of the kind `K`. -/
structure SubmitWrites (K : (GradingRows → GradingRows) → Prop) : Prop extends Writes fun f => K (userPart.modify f) where
  concepts : ∀ states : GradingRows → List ConceptState, K fun rows => { rows with conceptStates := states rows }
  attempt : ∀ (a : Attempt) (outputs : GradingRows → Nat → Option GraderOutput), K fun rows => { rows with
    user := { rows.user with attempts := rows.user.attempts ++ [a] }
    graderOutput := outputs rows }

theorem within_updateConceptState {K : (GradingRows → GradingRows) → Prop}
    (hK : ∀ states : GradingRows → List ConceptState, K fun rows => { rows with conceptStates := states rows })
    (outcome : ConceptOutcome) (now : Int) (concepts : List String) (held : List ConceptState) :
    (updateConceptState held outcome now concepts).Within K := by
  induction concepts generalizing held with
  | nil => trivial
  | cons concept concepts ih =>
    have hflush : ∀ old new, (flushConceptState old new).Within K := by
      intro old new
      unfold flushConceptState
      split
      · trivial
      · exact ⟨hK _, trivial⟩
    refine Within.bind ?_ fun row => Within.bind (hflush _ _) fun _ => ih _
    unfold getOrCreateConceptState
    split
    · trivial
    · intro row
      cases row with
      | some row => trivial
      | none =>
        intro taken
        cases taken with
        | true => trivial
        | false => exact ⟨hK _, trivial⟩

theorem within_attemptPart {K : (GradingRows → GradingRows) → Prop} (hK : SubmitWrites K) (cfg : Settings)
    (env : SubmitEnv) (tx : Tx) (payload : AttemptRequest) (type : String) (concepts : List String) (grade : Grade)
    (output : String) : (attemptPart cfg env tx payload type concepts grade output).Within K := by
  intro already
  cases already with
  | true => trivial
  | false =>
    refine ⟨hK.attempt _ _, Within.bind ?_ fun _ => ?_⟩
    · unfold recordConcepts
      cases conceptOutcome grade with
      | none => trivial
      | some outcome => exact Within.bind (within_updateConceptState hK.concepts ..) fun _ => trivial
    · exact Within.lift (fun _ hf => hf) (within_attemptBody hK.toWrites cfg env tx type grade)

/-- The rows of a submission: its attempt, counted once. -/
structure Submits (env : SubmitEnv) (tx : Tx) (payload : AttemptRequest) (type : String) (concepts : List String)
    (grade : Grade) (rows rows' : GradingRows) : Prop where
  attempts : rows'.user.attempts = rows.user.attempts ++ [env.attempt tx payload grade]
  counters : countersOf rows'.user.stats = ((countersOf rows.user.stats).judged type grade.isCorrect).attempted
  concepts : Practised rows.conceptStates rows'.conceptStates (conceptOutcome grade) concepts

/-- **What a submission ensures**, when the reads of the counters are current. -/
theorem attemptPart_counts (cfg : Settings) (type : String) (concepts : List String) (grade : Grade) (output : String)
    (rows : GradingRows) : (attemptPart cfg env tx payload type concepts grade output).Ensures CounterTbl
      (fun r _ rows' => ∀ a, r = .ok a → Submits env tx payload type concepts grade rows rows') ∅ rows := by
  refine ⟨fun ht => (nomatch (counterTbl_user _).mp ht), fun _ d => ?_⟩
  dsimp only
  split
  · exact fun a ha => nomatch ha
  · refine ensures_bind ((recordConcepts_counts concepts grade env.now).mono ?_)
    rintro r _ cur ⟨states, rfl, rfl, hpract⟩
    have hbody : ∀ cur : UserRows, Ensures StatsTbl _ (attemptBody cfg env tx type grade) ∅ cur :=
      fun cur => attemptBody_counts cfg env type grade
    refine (ensures_lift (P := userPart) counterTbl_user (hbody _)).mono ?_
    rintro r _ cur' ⟨user, rfl, ha, hk⟩ a -
    exact ⟨ha, hk, hpract⟩

/-- A submission keeps the counters' agreement. -/
theorem Submits.agrees {type : String} {grade : Grade} {rows rows' : GradingRows}
    (h : Submits env tx payload type (cat.concepts payload.exerciseId payload.exerciseVersion) grade rows rows')
    (htype : (cat payload.exerciseId payload.exerciseVersion).map (·.type) = some type) (ha : AllAgree cat rows) :
    AllAgree cat rows' := by
  have hverdict : grade.isCorrect.isSome = (grade.status == .graded) := by cases grade <;> rfl
  have houtcome : rowOutcome (env.attempt tx payload grade) = conceptOutcome grade := by cases grade <;> rfl
  have hstates : Practised rows.conceptStates rows'.conceptStates (rowOutcome (env.attempt tx payload grade))
      (conceptsOf cat (env.attempt tx payload grade)) := by
    rw [houtcome]
    exact h.concepts
  have hgains := Agrees.gains ha (Gains.appended rows.user.attempts (env.attempt tx payload grade)) htype hverdict hstates
  have hk : countersOf rows'.user.stats = (countersOf rows.user.stats).gained 1 type grade.isCorrect := by
    rw [h.counters]
    cases grade.isCorrect <;> rfl
  unfold AllAgree
  rw [h.attempts, hk]
  exact hgains

/-! ### The job -/

/-- The row of the id is pending. -/
def PendingRow (rows : GradingRows) (id : Nat) : Prop := ∃ a ∈ rows.user.attempts, a.id = id ∧ a.status = .gradingPending

/-- A row of the same attempt. -/
def SameAttempt (a a' : Attempt) : Prop :=
  a'.id = a.id ∧ a'.exerciseId = a.exerciseId ∧ a'.exerciseVersion = a.exerciseVersion

/-- What the job finds: counters that agree, and the attempts it read, of each id one row. -/
structure Found (cat : Catalog) (picked : List Attempt) (rows : GradingRows) : Prop where
  agrees : AllAgree cat rows
  ids : (rows.user.attempts.map Attempt.id).Nodup
  picked : ∀ a ∈ picked, ∃ a' ∈ rows.user.attempts, SameAttempt a a'

/-- Inside the job's loop, from the tables `rows`: the rows `resolved` are updated, and counted if they were pending. -/
structure Resolving (cat : Catalog) (picked : List Attempt) (rows : GradingRows) (resolved : List Nat)
    (held : RetrySession) (locks : Set GradingLock) (cur : GradingRows) : Prop where
  concepts : Holds held.concepts cur.conceptStates
  stats : HoldsStats held.stats cur.user.stats
  locked : ∀ id ∈ resolved, .attemptRow id ∈ locks
  ids : cur.user.attempts.map Attempt.id = rows.user.attempts.map Attempt.id
  untouched : ∀ a ∈ rows.user.attempts, a.id ∉ resolved → a ∈ cur.user.attempts
  agrees : Found cat picked rows → (∀ id ∈ resolved, PendingRow rows id) → AllAgree cat cur

/-- The update of a row that is still pending, counted. -/
theorem Resolving.updated {picked : List Attempt} {rows : GradingRows} {resolved : List Nat} {held held' : RetrySession}
    {locks locks' : Set GradingLock} {attempt : Attempt} {exercise : CatalogExercise} (values : Attempt → Attempt)
    (h : Resolving cat picked rows resolved held locks cur) {cur' : GradingRows} (hpicked : attempt ∈ picked)
    (hnew : attempt.id ∉ resolved) (hexercise : cat attempt.exerciseId attempt.exerciseVersion = some exercise)
    (hsame : ∀ a, SameAttempt a (values a))
    (hverdict : ∀ a, a.status = .gradingPending → a.isCorrect = none →
      (values a).isCorrect.isSome = ((values a).status == .graded))
    (hattempts : cur'.user.attempts = cur.user.attempts.map fun a => if a.id = attempt.id then values a else a)
    (hcounters : ∀ a, a.status = .gradingPending → a.isCorrect = none →
      countersOf cur'.user.stats = (countersOf cur.user.stats).judged exercise.type (values a).isCorrect)
    (hpract : ∀ a, a.status = .gradingPending → a.isCorrect = none →
      Practised cur.conceptStates cur'.conceptStates (rowOutcome (values a)) exercise.concepts)
    (hconcepts : Holds held'.concepts cur'.conceptStates) (hstats : HoldsStats held'.stats cur'.user.stats)
    (hlocks : locks ⊆ locks') (hlock : .attemptRow attempt.id ∈ locks') :
    Resolving cat picked rows (attempt.id :: resolved) held' locks' cur' := by
  have hids : (cur.user.attempts.map fun a => if a.id = attempt.id then values a else a).map Attempt.id =
      cur.user.attempts.map Attempt.id := by
    rw [List.map_map]
    refine List.map_congr_left fun a _ => ?_
    dsimp only [Function.comp]
    split
    · exact (hsame a).1
    · rfl
  refine ⟨hconcepts, hstats, fun id hid => ?_, ?_, fun a ha hid => ?_, fun hfound hpending => ?_⟩
  · rcases List.mem_cons.mp hid with rfl | hid
    · exact hlock
    · exact hlocks (h.locked id hid)
  · rw [hattempts, hids, h.ids]
  · rw [List.mem_cons, not_or] at hid
    rw [hattempts]
    exact List.mem_map.mpr ⟨a, h.untouched a ha hid.2, if_neg hid.1⟩
  · -- the row, pending in the tables and not updated before
    obtain ⟨a, ha, hid, hstatus⟩ := hpending attempt.id List.mem_cons_self
    have hagrees := h.agrees hfound fun id hid => hpending id (List.mem_cons_of_mem _ hid)
    have hacur : a ∈ cur.user.attempts := h.untouched a ha (hid ▸ hnew)
    have hnone : a.isCorrect = none := by
      have hungraded := hagrees.verdict a hacur
      rw [hstatus] at hungraded
      cases hc : a.isCorrect with
      | none => rfl
      | some b =>
        rw [hc] at hungraded
        exact absurd hungraded (by simp)
    obtain ⟨a', ha', hsame'⟩ := hfound.picked attempt hpicked
    have haa' : a' = a := List.inj_on_of_nodup_map hfound.ids ha' ha (hsame'.1.trans hid.symm)
    obtain ⟨-, hx, hv⟩ := haa' ▸ hsame'
    obtain ⟨-, hx', hv'⟩ := hsame a
    have hcat : cat (values a).exerciseId (values a).exerciseVersion = some exercise := by rw [hx', hv', hx, hv, hexercise]
    have hnodup : (cur.user.attempts.map Attempt.id).Nodup := h.ids ▸ hfound.ids
    obtain ⟨l₁, l₂, hl, hmap⟩ := map_id_eq values hnodup hacur
    have hunsettled : ¬ Settled a := by
      rintro (hg | hs | hc)
      · rw [hstatus] at hg
        cases hg
      · rw [hstatus] at hs
        cases hs
      · rw [hnone] at hc
        cases hc
    have htype : typeOf cat (values a) = some exercise.type := by rw [typeOf, hcat, Option.map_some]
    have hconceptsOf : conceptsOf cat (values a) = exercise.concepts := by
      rw [conceptsOf, Catalog.concepts, hcat]
      rfl
    have hp := hpract a hstatus hnone
    rw [← hconceptsOf] at hp
    unfold AllAgree at hagrees
    rw [hl] at hagrees
    have hgains := Agrees.gains hagrees (Gains.replaced l₁ l₂ hunsettled) htype (hverdict a hstatus hnone) hp
    have hk : countersOf cur'.user.stats = (countersOf cur.user.stats).gained 0 exercise.type (values a).isCorrect := by
      rw [hcounters a hstatus hnone]
      cases (values a).isCorrect <;> simp [Counters.gained, Counters.judged, Counters.corrected]
    unfold AllAgree
    rw [hattempts, hk, ← hid, hmap]
    exact hgains

/-- A turn of the loop. -/
theorem resolveAttempt_counts (cfg : Settings) (env : RetryEnv) {picked : List Attempt} {rows : GradingRows}
    {resolved : List Nat} {held : RetrySession} {attempt : Attempt} (output : Option GraderOutput)
    (summary : RetrySummary) (h : Resolving cat picked rows resolved held locks cur) (hpicked : attempt ∈ picked)
    (hnew : attempt.id ∉ resolved) :
    (resolveAttempt cfg cat env attempt output held summary).Ensures CounterTbl (fun r locks' cur' =>
      ∃ held' summary' resolved', r = .ok (held', summary') ∧ (∀ id ∈ resolved', id ∈ resolved ∨ id = attempt.id) ∧
        Resolving cat picked rows resolved' held' locks' cur') locks cur := by
  unfold resolveAttempt
  cases hcat : cat attempt.exerciseId attempt.exerciseVersion with
  | none => exact ⟨held, summary, resolved, rfl, fun id hid => .inl hid, h⟩
  | some exercise =>
    have hresolved : ∀ id ∈ attempt.id :: resolved, id ∈ resolved ∨ id = attempt.id :=
      fun id hid => (List.mem_cons.mp hid).symm
    -- a row that gets no verdict
    have hopen : ∀ (values : Attempt → Attempt) (output : Option GraderOutput) (summary' : RetrySummary),
        (∀ a, SameAttempt a (values a)) → (∀ a, (values a).isCorrect = a.isCorrect) →
        (∀ a, a.status = .gradingPending → (values a).status = .gradingPending ∨ (values a).status = .gradingFailed) →
        (do
          updateAttempt attempt.id values output
          ret (held, summary') : GradingHandler (RetrySession × RetrySummary)).Ensures CounterTbl (fun r locks' cur' =>
            ∃ held' summary' resolved', r = .ok (held', summary') ∧
              (∀ id ∈ resolved', id ∈ resolved ∨ id = attempt.id) ∧
              Resolving cat picked rows resolved' held' locks' cur') locks cur := by
      intro values output summary' hsame hcorrect hstatus
      have hungraded : ∀ a, a.status = .gradingPending → ((values a).status == .graded) = false := by
        intro a ha
        rcases hstatus a ha with hs | hs <;> rw [hs] <;> rfl
      refine ⟨held, summary', attempt.id :: resolved, rfl, hresolved, h.updated values hpicked hnew hcat hsame
        (fun a ha hc => ?_) rfl (fun a ha hc => ?_) (fun a ha hc => ?_) h.concepts h.stats (Set.subset_insert _ _)
        (Set.mem_insert _ _)⟩
      · rw [hcorrect, hc, hungraded a ha]
        rfl
      · rw [hcorrect, hc]
        rfl
      · have hnone : rowOutcome (values a) = none := by
          unfold rowOutcome
          rw [hcorrect, hc]
          rcases hstatus a ha with hs | hs <;> simp [hs]
        rw [hnone]
        exact .none _ _
    dsimp only
    cases hgrade : env.grade attempt.id with
    | invalid =>
      exact hopen _ none _ (fun a => ⟨rfl, rfl, rfl⟩) (fun a => rfl) fun a _ => .inr rfl
    | timeout =>
      dsimp only
      split
      · exact hopen _ none _ (fun a => ⟨rfl, rfl, rfl⟩) (fun a => rfl) fun a _ => .inr rfl
      · exact hopen id _ _ (fun a => ⟨rfl, rfl, rfl⟩) (fun a => rfl) fun a ha => .inl ha
    | graded isCorrect output =>
      -- the row, then its concept states and the stats
      let values : Attempt → Attempt := fun a =>
        { a with status := .graded, isCorrect := some isCorrect, gradedAt := some (env.clock attempt.id) }
      let outcome : ConceptOutcome := if isCorrect then .correct else .incorrect
      let cur₁ : GradingRows := { cur with
        user := { cur.user with attempts := cur.user.attempts.map fun a => if a.id = attempt.id then values a else a }
        graderOutput := Function.update cur.graderOutput attempt.id (some (.rubric output)) }
      let summary' : RetrySummary := { summary with resolved := summary.resolved + 1 }
      have hrest : (do
          let concepts ← updateConceptState held.concepts outcome (env.clock attempt.id) exercise.concepts
          let stats ← (updateHeldStats cfg held.stats exercise.type isCorrect).lift userPart
          ret (⟨some stats, concepts⟩, summary') : GradingHandler (RetrySession × RetrySummary)).Ensures CounterTbl
          (fun r _ cur' => ∃ st concepts states, r = .ok (⟨some (.loaded st), concepts⟩, summary') ∧
            cur' = { cur₁ with user := { cur₁.user with stats := some st }, conceptStates := states } ∧
            countersOf (some st) = (countersOf cur.user.stats).corrected exercise.type isCorrect ∧
            Holds concepts states ∧ Practised cur.conceptStates states (some outcome) exercise.concepts)
          (insert (.attemptRow attempt.id) locks) cur₁ := by
        have hheld₁ : Holds held.concepts cur₁.conceptStates := h.concepts
        refine ensures_bind ((updateConceptState_counts outcome _ exercise.concepts hheld₁).mono ?_)
        rintro r _ cur' ⟨concepts, states, rfl, rfl, hheld, hpract⟩
        have hstats₁ : HoldsStats held.stats cur₁.user.stats := h.stats
        have hstats : Ensures StatsTbl _ (updateHeldStats cfg held.stats exercise.type isCorrect) ∅ cur₁.user :=
          updateHeldStats_counts cfg exercise.type isCorrect hstats₁
        refine ensures_bind ((ensures_lift (P := userPart) counterTbl_user hstats).mono ?_)
        rintro r _ cur' ⟨user, rfl, st, rfl, rfl, hst⟩
        exact ⟨st, concepts, states, rfl, rfl, hst, hheld, hpract⟩
      refine (hrest.keeps).mono ?_
      rintro r locks' cur' ⟨hlocks, st, concepts, states, rfl, rfl, hst, hheld, hpract⟩
      refine ⟨_, _, attempt.id :: resolved, rfl, hresolved, h.updated values hpicked hnew hcat
        (fun a => ⟨rfl, rfl, rfl⟩) (fun a _ _ => rfl) rfl (fun a _ _ => hst) (fun a _ _ => ?_) hheld
        (fun o ho => ?_) ((Set.subset_insert _ _).trans hlocks) (hlocks (Set.mem_insert _ _))⟩
      · exact hpract
      · cases ho
        exact ⟨st, rfl, rfl⟩

/-- **What the job's loop ensures**, when the reads of the counters are current: each row it updates is counted once, if
it was pending. -/
theorem resolveAttempts_counts (cfg : Settings) (env : RetryEnv) {picked : List Attempt} {rows : GradingRows}
    (rest : List (Attempt × Option GraderOutput)) {resolved : List Nat} {held : RetrySession} (summary : RetrySummary)
    (h : Resolving cat picked rows resolved held locks cur) (hpicked : ∀ p ∈ rest, p.1 ∈ picked)
    (hnew : ∀ p ∈ rest, p.1.id ∉ resolved) (hdistinct : (rest.map fun p => p.1.id).Nodup) :
    (resolveAttempts cfg cat env held summary rest).Ensures CounterTbl (fun _ locks' cur' =>
      ∃ resolved' held', (∀ id ∈ resolved', id ∈ resolved ∨ ∃ p ∈ rest, id = p.1.id) ∧
        Resolving cat picked rows resolved' held' locks' cur') locks cur := by
  induction rest generalizing resolved held summary locks cur with
  | nil => exact ⟨resolved, held, fun id hid => .inl hid, h⟩
  | cons p rest ih =>
    obtain ⟨attempt, output⟩ := p
    rw [List.map_cons, List.nodup_cons] at hdistinct
    refine ensures_bind ((resolveAttempt_counts cfg env output summary h (hpicked _ List.mem_cons_self)
      (hnew _ List.mem_cons_self)).mono ?_)
    rintro r locks' cur' ⟨held', summary', resolved', rfl, hsub, h'⟩
    have hrest := ih summary' h' (fun p hp => hpicked p (List.mem_cons_of_mem _ hp)) (fun p hp hid => ?_) hdistinct.2
    · refine hrest.mono ?_
      rintro r locks'' cur'' ⟨resolved'', held'', hsub', h''⟩
      refine ⟨resolved'', held'', fun id hid => ?_, h''⟩
      rcases hsub' id hid with hid' | ⟨p, hp, he⟩
      · exact (hsub id hid').imp_right fun he => ⟨_, List.mem_cons_self, he⟩
      · exact .inr ⟨p, List.mem_cons_of_mem _ hp, he⟩
    · rcases hsub _ hid with hold | hsame
      · exact hnew p (List.mem_cons_of_mem _ hp) hold
      · exact hdistinct.1 (List.mem_map.mpr ⟨p, hp, hsame⟩)

theorem resolvePendingSummarizeGrades_eq (cfg : Settings) (cat : Catalog) (env : RetryEnv) :
    resolvePendingSummarizeGrades cfg cat env = .select (.user .attempts) (picked env) fun pending =>
      resolveAttempts cfg cat env ⟨none, []⟩ ⟨0, 0, 0⟩ pending >>= fun summary => .commit (.ret summary) := rfl

theorem mem_picked {env : RetryEnv} {rows : GradingRows} {p : Attempt × Option GraderOutput} (h : p ∈ picked env rows) :
    p.1 ∈ rows.user.attempts ∧ p.1.status = .gradingPending := by
  obtain ⟨a, ha, rfl⟩ := List.mem_map.mp h
  simpa using List.mem_filter.mp (env.selection.mem _ a ha)

theorem picked_distinct (env : RetryEnv) (rows : GradingRows) : ((picked env rows).map fun p => p.1.id).Nodup := by
  rw [picked, List.map_map]
  exact env.selection.distinct _

/-- The job before its first turn. -/
theorem Resolving.start (picked : List Attempt) (rows : GradingRows) (locks : Set GradingLock) :
    Resolving cat picked rows [] ⟨none, []⟩ locks rows where
  concepts _ _ hrow := nomatch hrow
  stats _ ho := nomatch ho
  locked _ hid := nomatch hid
  ids := rfl
  untouched _ ha _ := ha
  agrees hfound _ := hfound.agrees

/-! ### The rows of the user -/

theorem exec_recordConcepts (concepts : List String) (grade : Grade) (now : Int) (cur : GradingRows)
    (s : Store GradingApp) : ∃ states, (recordConcepts concepts grade now).exec cur s =
      ⟨.ok (), { cur with conceptStates := states }, s⟩ := by
  unfold recordConcepts
  cases conceptOutcome grade with
  | none => exact ⟨cur.conceptStates, rfl⟩
  | some outcome =>
    have hnone : Holds [] cur.conceptStates := fun c row hrow => nomatch hrow
    obtain ⟨held', states, hexec, -, -⟩ := exec_updateConceptState outcome now concepts [] cur s hnone
    refine ⟨states, ?_⟩
    dsimp only
    rw [exec_bind, hexec]
    rfl

/-- **A submission run alone** answers, and leaves the rows of the user, as in the model without concept states. -/
theorem storeAttempt_user (cfg : Settings) (env : SubmitEnv) (tx : Tx) (payload : AttemptRequest) (type : String)
    (concepts : List String) (grade : Grade) (output : String) (rows : GradingRows) (kv : Redis) :
    let r := (storeAttempt cfg env tx payload type concepts grade output).exec rows ⟨rows, kv⟩
    let r' := (CodeReader.storeAttempt cfg env tx payload type grade).exec rows.user ⟨rows.user, kv⟩
    r.res = r'.res ∧ r.store.db.user = r'.store.db ∧ r.store.kv = r'.store.kv := by
  intro r r'
  simp only [r, r']
  rw [storeAttempt_eq, CodeReader.storeAttempt_eq, attemptPart]
  simp only [lock_bind, exec_lock, select_bind, exec_select]
  split
  · exact ⟨rfl, rfl, rfl⟩
  · simp only [write_bind, exec_write, bind_assoc]
    rw [exec_bind]
    obtain ⟨states, hexec⟩ := exec_recordConcepts concepts grade env.now _ ⟨rows, kv⟩
    rw [hexec]
    simp only [andThen]
    rw [exec_bind, exec_lift (within_attemptBody writes_extends cfg env tx type grade), exec_bind]
    have hstore := Within.exec_store (within_attemptBody writes_extends cfg env tx type grade)
      { rows.user with attempts := rows.user.attempts ++ [env.attempt tx payload grade] } ⟨rows.user, kv⟩
    generalize hrun : (attemptBody cfg env tx type grade).exec
      { rows.user with attempts := rows.user.attempts ++ [env.attempt tx payload grade] } ⟨rows.user, kv⟩ = run at hstore
    obtain ⟨res, user, store⟩ := run
    dsimp only [userPart] at hrun ⊢
    rw [hrun]
    dsimp only at hstore
    subst hstore
    cases res <;> exact ⟨rfl, rfl, rfl⟩

end All

end CodeReader.Grading
