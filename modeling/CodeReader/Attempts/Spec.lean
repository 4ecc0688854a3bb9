import CodeReader.Attempts.Service
import CodeReader.Streak.Spec

/-!
# What a submission does when it runs alone

* `Counted`, `countSubmission` — the stats, the ledger rows and the answer of the streak step, as a function of the
  stats and the ledger;
* `submitted` — the rows and the response of the whole transaction;
* `exec_storeAttempt`, `exec_submitAttempt` — the programs compute them.
-/

namespace CodeReader

open Txn Prog

variable {cfg : Settings} {tx : Tx} {cur : UserRows} {s : Store App} {o : StatsObject}

/-! ## The streak step -/

/-- The outcome of the streak step: the stats, the rows it inserts, and its answer. -/
structure Counted where
  stats : UserStats
  rows : List NewEvent
  streak : Option StreakInfo

/-- A transition of the stats `st`, behind the rows of the freezes spent for it. -/
def Counted.transition (cfg : Settings) (st : UserStats) (spent : List NewEvent) (event : StreakEventKind)
    (toValue today : Int) : Counted :=
  let stats := transitionStats st toValue today
  let accrued := if event = .extended then accrueFreezeIfEarned cfg stats today else (stats, [])
  ⟨accrued.1, spent ++ [⟨event, st.currentStreak, toValue, today, none⟩] ++ accrued.2, some ⟨toValue, event⟩⟩

/-- An extension by one. -/
def Counted.extension (cfg : Settings) (st : UserStats) (spent : List NewEvent) (today : Int) : Counted :=
  .transition cfg st spent .extended (st.currentStreak + 1) today

/-- A submission on `today`, for the stats `st` and the ledger `events`. -/
def countSubmission (cfg : Settings) (events : List StreakEvent) (st : UserStats) (today : Int) : Counted :=
  let st := st.attempted
  match st.lastActiveLocalDate with
  | none => .extension cfg st [] today
  | some lastActive =>
    if lastActive = today then ⟨st, [], none⟩
    else if lastActive = today - 1 then .extension cfg st [] today
    else
      match coverGap cfg events st lastActive today with
      | some (st, spent) => .extension cfg st spent today
      | none => .transition cfg st [] .reset 1 today

/-- The run of a streak step alone: its rows, unless one of them is a second transition of its date. -/
def Counted.run (tx : Tx) (cur : UserRows) (s : Store App) (c : Counted) : Run App (Option StreakInfo) :=
  if clashes cur.events c.rows then ⟨.error secondTransition, { cur with stats := some c.stats }, s⟩
  else ⟨.ok c.streak, { cur with stats := some c.stats, events := cur.events ++ NewEvent.toRows tx c.rows }, s⟩

theorem Counted.run_stats (tx : Tx) (cur : UserRows) (st : Option UserStats) (s : Store App) (c : Counted) :
    c.run tx { cur with stats := st } s = c.run tx cur s := rfl

theorem exec_recordTransition (h : cur.stats = some o.flushed) (spent : List NewEvent) (event : StreakEventKind)
    {fromValue : Int} (hf : fromValue = o.current.currentStreak) (toValue today : Int) :
    (recordTransition cfg tx o spent event fromValue toValue today).exec cur s =
      (Counted.transition cfg o.current spent event toValue today).run tx cur s := by
  have hflush : ∀ st : UserStats, (flushUserStats { o with current := st }).exec cur s =
      ⟨.ok (.loaded st), { cur with stats := some st }, s⟩ := fun st => exec_flushUserStats (o := ⟨o.flushed, st⟩) h
  subst hf
  simp only [recordTransition]
  rw [exec_bind, hflush]
  simp only [andThen]
  rw [exec_bind, exec_insertStreakEvents]
  simp only [Counted.run, Counted.transition]
  split_ifs <;> rfl

theorem coverGap_currentStreak {events : List StreakEvent} {st st' : UserStats} {lastActive today : Int}
    {spent : List NewEvent} (h : coverGap cfg events st lastActive today = some (st', spent)) :
    st'.currentStreak = st.currentStreak := by
  simp only [coverGap] at h
  split at h
  · cases h
  · cases h
    rfl

/-- The streak step of a session that holds the row it read, or none. -/
theorem exec_updateStreakAndAttemptCount {held : Option StatsObject} {st : UserStats}
    (h : held = none ∧ st = cur.stats.getD (newUserStats cfg) ∨ held = some (.loaded st) ∧ cur.stats = some st)
    (today : Int) :
    (updateStreakAndAttemptCount cfg tx held today).exec cur s =
      (countSubmission cfg cur.events st today).run tx cur s := by
  have hget : (getOrCreateUserStats cfg held).exec cur s =
      ⟨.ok (.loaded st), { cur with stats := some st }, s⟩ := by
    rcases h with ⟨rfl, rfl⟩ | ⟨rfl, hst⟩
    · exact exec_getOrCreateUserStats_none
    · have hc : { cur with stats := some st } = cur := by rw [← hst]
      rw [hc]
      exact exec_getOrCreateUserStats_some
  unfold updateStreakAndAttemptCount
  rw [exec_bind, hget]
  simp only [andThen]
  rw [← Counted.run_stats tx cur (some st)]
  generalize hcur : { cur with stats := some st } = cur'
  have hev : cur'.events = cur.events := by rw [← hcur]
  have hst : cur'.stats = some st := by rw [← hcur]
  have hfrom : st.currentStreak = st.attempted.currentStreak := rfl
  simp only [countSubmission]
  rw [← hev]
  by_cases h₀ : st.attempted.lastActiveLocalDate = some today
  · rw [if_pos h₀, exec_bind, exec_flushUserStats hst]
    simp [h₀, andThen, Counted.run, clashes, NewEvent.toRows]
  · rw [if_neg h₀]
    cases hl : st.attempted.lastActiveLocalDate with
    | none => exact exec_recordTransition hst [] .extended hfrom _ _
    | some lastActive =>
      have h₁ : lastActive ≠ today := fun he => h₀ (by rw [← he]; exact hl)
      simp only [h₁, if_false]
      split
      · exact exec_recordTransition hst [] .extended hfrom _ _
      · obtain ⟨o', he, hc⟩ := exec_tryCoverGap (s := s) (o := ⟨st, st.attempted⟩) cfg hst lastActive today
        rw [exec_bind, he]
        simp only [andThen]
        cases hg : coverGap cfg cur'.events st.attempted lastActive today with
        | none =>
          simp only [hg, Option.map_none, Option.getD_none] at hc ⊢
          rw [← hc]
          exact exec_recordTransition rfl [] .reset (by rw [hc]) 1 today
        | some p =>
          simp only [hg, Option.map_some, Option.getD_some] at hc ⊢
          have hs : p.1.currentStreak = st.attempted.currentStreak := coverGap_currentStreak hg
          rw [← hc] at hs ⊢
          simp only [Counted.extension]
          rw [hs]
          exact exec_recordTransition rfl p.2 .extended hs.symm _ today

/-! ## The cases of the streak step -/

/-- The balance after paying for `n` days. -/
def UserStats.spend (st : UserStats) (n : Nat) : UserStats := { st with streakFreezes := st.streakFreezes - n }

/-- A submission on `today` keeps the streak, at the price of a freeze for each of `days`. -/
def Survives (cfg : Settings) (events : List StreakEvent) (st : UserStats) (today : Int) (days : List Int) : Prop :=
  (st.lastActiveLocalDate = none ∧ days = []) ∨ (st.lastActiveLocalDate = some (today - 1) ∧ days = []) ∨
    ∃ lastActive, st.lastActiveLocalDate = some lastActive ∧ lastActive < today - 1 ∧
      days = uncoveredDates events lastActive today ∧ (days.length : Int) ≤ min st.streakFreezes cfg.streakFreezeMax

/-- A submission on `today` resets the streak: the gap costs too much, or `today` is before the last active day. -/
def Resets (cfg : Settings) (events : List StreakEvent) (st : UserStats) (today : Int) : Prop :=
  ∃ lastActive, st.lastActiveLocalDate = some lastActive ∧ (today < lastActive ∨ lastActive < today - 1 ∧
    min st.streakFreezes cfg.streakFreezeMax < ((uncoveredDates events lastActive today).length : Int))

theorem missedDates_eq_nil {lastActive today : Int} : missedDates lastActive today = [] ↔ today ≤ lastActive + 1 := by
  simp only [missedDates, List.map_eq_nil_iff, List.range_eq_nil]
  omega

theorem mem_missedDates {lastActive today d : Int} : d ∈ missedDates lastActive today ↔ lastActive < d ∧ d < today := by
  simp only [missedDates, List.mem_map, List.mem_range]
  constructor
  · rintro ⟨k, hk, he⟩
    omega
  · intro h
    exact ⟨(d - lastActive - 1).toNat, by omega, by omega⟩

/-- **The streak step**: nothing on a day already counted, else an extension or a reset. -/
theorem countSubmission_cases (cfg : Settings) (events : List StreakEvent) (st : UserStats) (today : Int) :
    (st.lastActiveLocalDate = some today ∧ countSubmission cfg events st today = ⟨st.attempted, [], none⟩) ∨
    (∃ days, Survives cfg events st today days ∧ countSubmission cfg events st today =
      .extension cfg (st.attempted.spend days.length) (days.map (freezeSpentRow (st.attempted.spend days.length)))
        today) ∨
    (Resets cfg events st today ∧ countSubmission cfg events st today =
      .transition cfg st.attempted [] .reset 1 today) := by
  have hspend : st.attempted.spend 0 = st.attempted := by simp [UserStats.spend]
  have hlast : st.attempted.lastActiveLocalDate = st.lastActiveLocalDate := rfl
  have hfreezes : st.attempted.streakFreezes = st.streakFreezes := rfl
  simp only [countSubmission, hlast]
  cases hl : st.lastActiveLocalDate with
  | none => exact .inr (.inl ⟨[], .inl ⟨hl, rfl⟩, by simp [hspend]⟩)
  | some lastActive =>
    dsimp only
    by_cases h₀ : lastActive = today
    · exact .inl ⟨by rw [h₀], by rw [if_pos h₀]⟩
    · rw [if_neg h₀]
      by_cases h₁ : lastActive = today - 1
      · rw [if_pos h₁]
        exact .inr (.inl ⟨[], .inr (.inl ⟨by rw [hl, h₁], rfl⟩), by simp [hspend]⟩)
      · rw [if_neg h₁]
        -- the gap is paid for, or the streak is lost
        by_cases hc : missedDates lastActive today = [] ∨
            min st.streakFreezes cfg.streakFreezeMax < (uncoveredDates events lastActive today).length
        · refine .inr (.inr ⟨⟨lastActive, hl, ?_⟩, ?_⟩)
          · rw [missedDates_eq_nil] at hc
            omega
          · simp only [coverGap, hfreezes, hc, if_true]
        · refine .inr (.inl ⟨uncoveredDates events lastActive today, .inr (.inr ⟨lastActive, hl, ?_, rfl, ?_⟩), ?_⟩)
          · rw [missedDates_eq_nil] at hc
            omega
          · omega
          · simp only [coverGap, hfreezes, hc, if_false]
            rfl

/-! ### The transition row -/

/-- What an accrual grants: nothing, or one freeze with an `adjusted` row. -/
theorem accrueFreezeIfEarned_cases (cfg : Settings) (st : UserStats) (d : Int) :
    accrueFreezeIfEarned cfg st d = (st, []) ∨
      st.streakFreezes < cfg.streakFreezeMax ∧ ∃ note, accrueFreezeIfEarned cfg st d =
        ({ st with streakFreezes := st.streakFreezes + 1 }, [⟨.adjusted, st.currentStreak, st.currentStreak, d, note⟩]) := by
  simp only [accrueFreezeIfEarned]
  split
  · exact .inl rfl
  · split
    · exact .inl rfl
    · exact .inr ⟨by omega, _, rfl⟩

theorem accrued_filter (cfg : Settings) (st : UserStats) (d : Int) :
    (accrueFreezeIfEarned cfg st d).2.filter (·.event.isTransition) = [] := by
  simp only [accrueFreezeIfEarned]
  split
  · rfl
  · split <;> rfl

theorem spent_filter (st : UserStats) (days : List Int) :
    (days.map (freezeSpentRow st)).filter (·.event.isTransition) = [] := by
  rw [List.filter_eq_nil_iff]
  intro e he
  obtain ⟨d, -, rfl⟩ := List.mem_map.mp he
  exact Bool.false_ne_true

/-- A transition inserts one transition row, for its own day. -/
theorem Counted.transition_filter {st : UserStats} {spent : List NewEvent} {event : StreakEventKind}
    (hspent : spent.filter (·.event.isTransition) = []) (hevent : event.isTransition) (toValue today : Int) :
    (Counted.transition cfg st spent event toValue today).rows.filter (·.event.isTransition) =
      [⟨event, st.currentStreak, toValue, today, none⟩] := by
  have hacc : (if event = .extended then accrueFreezeIfEarned cfg (transitionStats st toValue today) today
      else (transitionStats st toValue today, [])).2.filter (·.event.isTransition) = [] := by
    split
    · exact accrued_filter _ _ _
    · rfl
  simp only [Counted.transition, List.filter_append, hspent, hacc, List.append_nil, List.nil_append]
  simp [hevent]

theorem Counted.transition_lastActive (cfg : Settings) (st : UserStats) (spent : List NewEvent)
    (event : StreakEventKind) (toValue today : Int) :
    (Counted.transition cfg st spent event toValue today).stats.lastActiveLocalDate = some today := by
  simp only [Counted.transition]
  split
  · simp only [accrueFreezeIfEarned]
    split
    · rfl
    · split <;> rfl
  · rfl

/-- The kinds of the rows of a transition: those of the freezes spent, its own, and perhaps an adjustment. -/
theorem Counted.transition_kinds {cfg : Settings} {st : UserStats} {days : List Int} {event kind : StreakEventKind}
    (stats : UserStats) (toValue today : Int) (hkind : kind ≠ .adjusted) :
    (∃ e ∈ (Counted.transition cfg st (days.map (freezeSpentRow stats)) event toValue today).rows, e.event = kind) ↔
      (days ≠ [] ∧ kind = .freezeUsed) ∨ event = kind := by
  have hacc : ∀ e ∈ (if event = .extended then accrueFreezeIfEarned cfg (transitionStats st toValue today) today
      else (transitionStats st toValue today, [])).2, e.event = .adjusted := by
    intro e he
    split at he
    · rcases accrueFreezeIfEarned_cases cfg (transitionStats st toValue today) today with h | ⟨-, note, h⟩
      · rw [h] at he
        cases he
      · rw [h, List.mem_singleton] at he
        rw [he]
    · cases he
  simp only [Counted.transition, List.mem_append, List.mem_singleton, List.mem_map]
  constructor
  · rintro ⟨e, (⟨d, hd, rfl⟩ | rfl) | he, hk⟩
    · exact .inl ⟨List.ne_nil_of_mem hd, hk.symm⟩
    · exact .inr hk
    · exact absurd (hk.symm.trans (hacc e he)) hkind
  · rintro (⟨hd, rfl⟩ | rfl)
    · obtain ⟨d, hd⟩ := List.exists_mem_of_ne_nil _ hd
      exact ⟨_, .inl (.inl ⟨d, hd, rfl⟩), rfl⟩
    · exact ⟨_, .inl (.inr rfl), rfl⟩

/-- The streak and the balance after a transition. -/
theorem Counted.transition_stats (cfg : Settings) (st : UserStats) (spent : List NewEvent) (event : StreakEventKind)
    (toValue today : Int) :
    (Counted.transition cfg st spent event toValue today).stats.currentStreak = toValue ∧
      st.streakFreezes ≤ (Counted.transition cfg st spent event toValue today).stats.streakFreezes := by
  simp only [Counted.transition]
  split
  · rcases accrueFreezeIfEarned_cases cfg (transitionStats st toValue today) today with h | ⟨-, note, h⟩
    · rw [h]
      exact ⟨rfl, Int.le_refl _⟩
    · rw [h]
      refine ⟨rfl, ?_⟩
      change st.streakFreezes ≤ st.streakFreezes + 1
      omega
  · exact ⟨rfl, Int.le_refl _⟩

/-- A transition counts no attempt. -/
theorem Counted.transition_totalAttempts (cfg : Settings) (st : UserStats) (spent : List NewEvent)
    (event : StreakEventKind) (toValue today : Int) :
    (Counted.transition cfg st spent event toValue today).stats.totalAttempts = st.totalAttempts := by
  simp only [Counted.transition]
  split
  · rcases accrueFreezeIfEarned_cases cfg (transitionStats st toValue today) today with h | ⟨-, note, h⟩ <;> rw [h] <;> rfl
  · rfl

/-- The transition rows that the streak step inserts: one, unless the day is already counted. -/
theorem countSubmission_filter (cfg : Settings) (events : List StreakEvent) (st : UserStats) (today : Int) :
    (st.lastActiveLocalDate = some today ∧ countSubmission cfg events st today = ⟨st.attempted, [], none⟩) ∨
    (st.lastActiveLocalDate ≠ some today ∧ ∃ row : NewEvent, row.event.isTransition ∧ row.localDate = today ∧
      (countSubmission cfg events st today).rows.filter (·.event.isTransition) = [row]) := by
  rcases countSubmission_cases cfg events st today with h | ⟨days, hs, h⟩ | ⟨hr, h⟩
  · exact .inl h
  · refine .inr ⟨?_, _, ?_, ?_, by rw [h]; exact Counted.transition_filter (spent_filter _ _) rfl _ _⟩
    · rcases hs with ⟨hl, -⟩ | ⟨hl, -⟩ | ⟨la, hl, hlt, -⟩
      · simp [hl]
      · rw [hl, ne_eq, Option.some.injEq]
        omega
      · rw [hl, ne_eq, Option.some.injEq]
        omega
    · rfl
    · rfl
  · refine .inr ⟨?_, _, ?_, ?_, by rw [h]; exact Counted.transition_filter rfl rfl _ _⟩
    · obtain ⟨la, hl, hlt⟩ := hr
      rw [hl, ne_eq, Option.some.injEq]
      omega
    · rfl
    · rfl

/-- After a submission the last active day is its day. -/
theorem countSubmission_lastActive (cfg : Settings) (events : List StreakEvent) (st : UserStats) (today : Int) :
    (countSubmission cfg events st today).stats.lastActiveLocalDate = some today := by
  rcases countSubmission_cases cfg events st today with ⟨hl, h⟩ | ⟨days, -, h⟩ | ⟨-, h⟩ <;> rw [h]
  · exact hl
  · exact Counted.transition_lastActive ..
  · exact Counted.transition_lastActive ..

/-- A submission counts one attempt. -/
theorem countSubmission_totalAttempts (cfg : Settings) (events : List StreakEvent) (st : UserStats) (today : Int) :
    (countSubmission cfg events st today).stats.totalAttempts = st.totalAttempts + 1 := by
  rcases countSubmission_cases cfg events st today with ⟨-, h⟩ | ⟨days, -, h⟩ | ⟨-, h⟩ <;> rw [h]
  · rfl
  · exact Counted.transition_totalAttempts ..
  · exact Counted.transition_totalAttempts ..

/-- A reset row of a submission is of its day, and of a submission that resets. -/
theorem countSubmission_reset {events : List StreakEvent} {st : UserStats} {today : Int} {e : NewEvent}
    (he : e ∈ (countSubmission cfg events st today).rows) (hr : e.event = .reset) :
    Resets cfg events st today ∧ e.localDate = today := by
  rcases countSubmission_cases cfg events st today with ⟨-, h⟩ | ⟨days, -, h⟩ | ⟨hres, h⟩ <;> rw [h] at he
  · cases he
  · rcases (Counted.transition_kinds _ _ _ (by decide)).mp ⟨e, he, hr⟩ with ⟨-, hk⟩ | hk <;> cases hk
  · refine ⟨hres, ?_⟩
    simp only [Counted.transition, reduceCtorEq, if_false, List.nil_append, List.append_nil, List.mem_singleton] at he
    rw [he]

theorem clashes_eq_filter (events : List StreakEvent) (evs : List NewEvent) :
    clashes events evs = (evs.filter (·.event.isTransition)).any fun e => transitionOn events e.localDate := by
  simp [clashes, List.any_filter]

/-- The unique index refuses a submission exactly when its day has a transition row and is not the last active
day. -/
theorem clashes_countSubmission (cfg : Settings) (events : List StreakEvent) (st : UserStats) (today : Int) :
    clashes events (countSubmission cfg events st today).rows = true ↔
      st.lastActiveLocalDate ≠ some today ∧ transitionOn events today = true := by
  rw [clashes_eq_filter]
  rcases countSubmission_filter cfg events st today with ⟨hl, h⟩ | ⟨hl, row, -, hd, h⟩
  · simp [h, hl]
  · simp [h, hl, hd]

/-! ## The transaction -/

/-- The correctness stats after a verdict. -/
def UserStats.corrected (st : UserStats) (type : String) (isCorrect : Bool) : UserStats :=
  { st with
    totalCorrect := if isCorrect then st.totalCorrect + 1 else st.totalCorrect
    accuracyByType := bumpAccuracy st.accuracyByType type isCorrect }

/-- The stats that the streak step of a submission starts from. -/
def gradedStats (cfg : Settings) (type : String) (grade : Grade) (stats : Option UserStats) : UserStats :=
  match grade.isCorrect with
  | some isCorrect => (stats.getD (newUserStats cfg)).corrected type isCorrect
  | none => stats.getD (newUserStats cfg)

theorem exec_updateCorrectnessStats (type : String) (isCorrect : Bool) :
    let st := (cur.stats.getD (newUserStats cfg)).corrected type isCorrect
    (updateCorrectnessStats cfg type isCorrect).exec cur s =
      ⟨.ok (.loaded st), { cur with stats := some st }, s⟩ := by
  intro st
  unfold updateCorrectnessStats
  rw [exec_bind, exec_getOrCreateUserStats_none]
  exact exec_flushUserStats (o := ⟨cur.stats.getD (newUserStats cfg), st⟩) rfl

/-- The slots that have no attempt. -/
def remainingOf (today : Int) (slots : List SessionSlot) (attempts : List Attempt) : Int :=
  if slots = [] then 0 else
    max 0 ((slots.length : Int) - slots.countP fun s =>
      attempts.any fun a => a.sessionDate == today && a.exerciseId == s.exerciseId)

theorem exec_remainingCount (today : Int) (slots : List SessionSlot) :
    (remainingCount today slots).exec cur s = ⟨.ok (remainingOf today slots cur.attempts), cur, s⟩ := by
  unfold remainingCount remainingOf
  split <;> rfl

/-- The sessions once nothing remains of today's, and whether it is the first that is complete. -/
def completedSessions (today now remaining : Int) (sessions : List DailySession) : List DailySession × Bool :=
  if remaining = 0 then
    match sessions.find? (·.sessionDate == today) with
    | some ⟨_, none⟩ =>
      let sessions := sessions.map fun s => if s.sessionDate = today then { s with completedAt := some now } else s
      (sessions, sessions.countP (·.completedAt.isSome) == 1)
    | _ => (sessions, false)
  else (sessions, false)

theorem exec_completeSession (today now remaining : Int) :
    (completeSession today now remaining).exec cur s =
      ⟨.ok (completedSessions today now remaining cur.sessions).2,
        { cur with sessions := (completedSessions today now remaining cur.sessions).1 }, s⟩ := by
  unfold completeSession completedSessions
  split
  · simp only [query_bind, exec_select]
    cases hf : cur.sessions.find? (·.sessionDate == today) with
    | none => rfl
    | some row =>
      obtain ⟨d, at_⟩ := row
      cases at_ <;> rfl
  · rfl

/-- An attempt for the exercise on this day exists. -/
def attemptedOn (attempts : List Attempt) (exerciseId : ExerciseId) (d : Int) : Bool :=
  attempts.any fun a => a.exerciseId == exerciseId && a.sessionDate == d

def alreadyAttempted : Err := .api 409 "already_attempted" "You already submitted this exercise today."

section Submitted

variable (cfg : Settings) (env : SubmitEnv) (tx : Tx) (payload : AttemptRequest) (type : String) (grade : Grade)

/-- The streak step of a submission on the rows of the user. -/
def counted (rows : UserRows) : Counted :=
  countSubmission cfg rows.events (gradedStats cfg type grade rows.stats) env.today

/-- The rows that a submission leaves. -/
def submittedRows (rows : UserRows) : UserRows :=
  let attempts := rows.attempts ++ [env.attempt tx payload grade]
  { rows with
    stats := some (counted cfg env type grade rows).stats
    events := rows.events ++ NewEvent.toRows tx (counted cfg env type grade rows).rows
    attempts := attempts
    sessions := (completedSessions env.today env.now (remainingOf env.today env.slots attempts) rows.sessions).1 }

/-- The response of a submission. -/
def submittedResponse (rows : UserRows) : AttemptResponse :=
  let remaining := remainingOf env.today env.slots (rows.attempts ++ [env.attempt tx payload grade])
  ⟨tx.attemptId, grade.status, grade.isCorrect, (counted cfg env type grade rows).streak, remaining == 0, remaining,
    (completedSessions env.today env.now remaining rows.sessions).2, env.detail⟩

variable {cfg env tx payload type grade}

/-- The stats object that the correctness step leaves in the session, and its update. -/
theorem exec_recordVerdict (cfg : Settings) (type : String) (grade : Grade) (cur : UserRows) (s : Store App) :
    ∃ held cur', (recordVerdict cfg type grade).exec cur s = ⟨.ok held, cur', s⟩ ∧
      (∃ st, cur' = { cur with stats := st }) ∧
      (held = none ∧ gradedStats cfg type grade cur.stats = cur'.stats.getD (newUserStats cfg) ∨
        held = some (.loaded (gradedStats cfg type grade cur.stats)) ∧
          cur'.stats = some (gradedStats cfg type grade cur.stats)) := by
  unfold recordVerdict gradedStats
  cases hg : grade.isCorrect with
  | none => exact ⟨none, cur, rfl, ⟨cur.stats, rfl⟩, .inl ⟨rfl, rfl⟩⟩
  | some b =>
    refine ⟨some (.loaded ((cur.stats.getD (newUserStats cfg)).corrected type b)),
      { cur with stats := some ((cur.stats.getD (newUserStats cfg)).corrected type b) }, ?_, ⟨_, rfl⟩,
      .inr ⟨rfl, rfl⟩⟩
    dsimp only
    rw [exec_bind, exec_updateCorrectnessStats]
    rfl

/-- A submission run alone on the rows of the user. -/
theorem exec_storeAttempt (rows : UserRows) (kv : Redis) :
    (storeAttempt cfg env tx payload type grade).exec rows ⟨rows, kv⟩ =
      if attemptedOn rows.attempts payload.exerciseId env.today then ⟨.error alreadyAttempted, rows, ⟨rows, kv⟩⟩
      else
        let cur := { rows with attempts := rows.attempts ++ [env.attempt tx payload grade] }
        if clashes rows.events (counted cfg env type grade rows).rows then
          ⟨.error secondTransition, { cur with stats := some (counted cfg env type grade rows).stats }, ⟨rows, kv⟩⟩
        else
          ⟨.ok (submittedResponse cfg env tx payload type grade rows),
            submittedRows cfg env tx payload type grade rows,
            ⟨submittedRows cfg env tx payload type grade rows, kv⟩⟩ := by
  unfold storeAttempt
  simp only [lockOn_bind, exec_lock, query_bind, exec_select, attemptedOn]
  split
  · rfl
  · simp only [update_bind, exec_write]
    generalize hcur : { rows with attempts := rows.attempts ++ [env.attempt tx payload grade] } = cur
    obtain ⟨held, cur', he, ⟨st, rfl⟩, hheld⟩ :=
      exec_recordVerdict cfg type grade cur ⟨rows, kv⟩
    rw [exec_bind, he]
    simp only [andThen]
    rw [exec_bind, exec_updateStreakAndAttemptCount hheld, Counted.run_stats]
    have hc : countSubmission cfg cur.events (gradedStats cfg type grade cur.stats) env.today =
        counted cfg env type grade rows := by rw [← hcur]; rfl
    have hev : cur.events = rows.events := by rw [← hcur]
    rw [hc, Counted.run, hev]
    split
    · rw [← hcur]
      rfl
    · simp only [andThen]
      rw [exec_bind, exec_remainingCount]
      simp only [andThen]
      rw [exec_bind, exec_completeSession, ← hcur]
      rfl

/-- The exercise's type and the grade of a request that passes its checks. -/
def checked (env : SubmitEnv) (payload : AttemptRequest) : Option (String × Grade) :=
  if env.slots.any (fun s => s.exerciseId == payload.exerciseId && s.version == payload.exerciseVersion) then
    match env.exercise with
    | some ⟨type, .ok grade⟩ => some (type, grade)
    | _ => none
  else none

/-- The checks raise or return; they make no statement. -/
theorem checkRequest_cases (env : SubmitEnv) (payload : AttemptRequest) :
    (checked env payload = none ∧ ∃ e, checkRequest env payload = raise e ∧ e ≠ secondTransition) ∨
      ∃ p, checked env payload = some p ∧ checkRequest env payload = ret p := by
  unfold checkRequest checked
  split
  · cases env.exercise with
    | none => exact .inl ⟨rfl, _, rfl, by decide⟩
    | some row =>
      obtain ⟨type, grading⟩ := row
      cases grading with
      | error message => exact .inl ⟨rfl, _, rfl, by simp [secondTransition]⟩
      | ok grade => exact .inr ⟨_, rfl, rfl⟩
  · exact .inl ⟨rfl, _, rfl, by decide⟩

/-- The request is recorded: it passes its checks and its rows are accepted. -/
def Records (cfg : Settings) (env : SubmitEnv) (payload : AttemptRequest) (type : String) (grade : Grade)
    (rows : UserRows) : Prop :=
  checked env payload = some (type, grade) ∧ attemptedOn rows.attempts payload.exerciseId env.today = false ∧
    clashes rows.events (counted cfg env type grade rows).rows = false

/-- The request fails on the unique index of the transitions. -/
def Violates (cfg : Settings) (env : SubmitEnv) (payload : AttemptRequest) (rows : UserRows) : Prop :=
  ∃ type grade, checked env payload = some (type, grade) ∧
    attemptedOn rows.attempts payload.exerciseId env.today = false ∧
    clashes rows.events (counted cfg env type grade rows).rows = true

/-- What a submission on `rows` may come to: the rows of the submission and a fresh answer, or nothing. -/
inductive Submitted (cfg : Settings) (env : SubmitEnv) (tx : Tx) (payload : AttemptRequest) (rows : UserRows) :
    Except Err AttemptOutcome → UserRows → Prop
  | recorded {type : String} {grade : Grade} : Records cfg env payload type grade rows →
      Submitted cfg env tx payload rows
        (.ok ⟨200, .attempt (submittedResponse cfg env tx payload type grade rows), false⟩)
        (submittedRows cfg env tx payload type grade rows)
  | replayed {status : Nat} {body : Body} : Submitted cfg env tx payload rows (.ok ⟨status, body, true⟩) rows
  | violated : Violates cfg env payload rows → Submitted cfg env tx payload rows (.error secondTransition) rows
  | refused {e : Err} : e ≠ secondTransition → Submitted cfg env tx payload rows (.error e) rows

theorem exec_waitForCached (ns key : String) (n : Nat) (cur : UserRows) (s : Store App) :
    (waitForCached ns key n).exec cur s = ⟨.ok (s.kv.records (idemKey ns key)), cur, s⟩ := by
  induction n with
  | zero => rfl
  | succ n ih =>
    simp only [waitForCached, getCached, cmd_bind, exec_kv]
    cases hr : s.kv.records (idemKey ns key) with
    | none => exact ih.trans (by rw [hr])
    | some r => rfl

/-- The fresh path run alone. -/
theorem exec_fresh (cfg : Settings) (env : SubmitEnv) (tx : Tx) (payload : AttemptRequest) (key : String) (hash : String) (rows : UserRows) (kv : Redis) :
    Submitted cfg env tx payload rows ((fresh cfg env tx key payload hash).exec rows ⟨rows, kv⟩).res
      ((fresh cfg env tx key payload hash).exec rows ⟨rows, kv⟩).store.db := by
  unfold fresh buildAndStoreAttempt
  rcases checkRequest_cases env payload with ⟨-, e, he, hne⟩ | ⟨p, hc, he⟩
  · rw [he]
    exact .refused hne
  · obtain ⟨type, grade⟩ := p
    rw [he, ret_bind, exec_bind]
    dsimp only
    rw [exec_bind, exec_storeAttempt]
    by_cases ha : attemptedOn rows.attempts payload.exerciseId env.today = true
    · rw [if_pos ha]
      exact .refused (by decide)
    · rw [if_neg ha]
      by_cases hv : clashes rows.events (counted cfg env type grade rows).rows = true
      · simp only [hv, if_true]
        exact .violated ⟨type, grade, hc, by simpa using ha, hv⟩
      · simp only [hv]
        exact .recorded ⟨hc, by simpa using ha, by simpa using hv⟩

theorem exec_replay (hash : String) (record : IdempotencyRecord) (rows : UserRows) (kv : Redis) :
    Submitted cfg env tx payload rows ((replay hash record).exec rows ⟨rows, kv⟩).res
      ((replay hash record).exec rows ⟨rows, kv⟩).store.db := by
  unfold replay
  split
  · exact .refused (by decide)
  · exact .replayed

/-- **A submission run alone** records its rows and answers afresh, or leaves the rows as they are. -/
theorem exec_submitAttempt (cfg : Settings) (env : SubmitEnv) (tx : Tx) (payload : AttemptRequest)
    (requestHash : AttemptRequest → String) (key : String) (rows : UserRows) (kv : Redis) :
    let r := (submitAttempt cfg requestHash env tx key payload).exec rows ⟨rows, kv⟩
    Submitted cfg env tx payload rows r.res r.store.db := by
  intro r
  simp only [r, submitAttempt]
  split
  · exact .refused (by decide)
  · simp only [getCached, cmd_bind, exec_kv]
    cases hr : kv.records (idemKey attemptsNamespace key) with
    | some record => exact exec_replay _ _ _ _
    | none =>
      simp only [acquireReservation, cmd_bind, exec_kv]
      split
      · rw [exec_andFinally]
        have hf := exec_fresh cfg env tx payload key (requestHash payload) rows
          { kv with reservations := Function.update kv.reservations (reservationKey attemptsNamespace key) true }
        generalize (fresh cfg env tx key payload (requestHash payload)).exec rows _ = run at hf ⊢
        obtain ⟨res, cur, store⟩ := run
        cases res <;> exact hf
      · rw [exec_bind, exec_waitForCached]
        simp only [andThen]
        split
        · exact exec_replay _ _ _ _
        · exact exec_fresh _ _ _ _ _ _ _ _

end Submitted

end CodeReader
