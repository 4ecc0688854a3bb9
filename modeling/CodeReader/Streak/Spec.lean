import CodeReader.Streak.Recon

/-!
# What the streak programs do when they run alone

Each program of the service equals, from any tables, a function of the rows it reads: `coverGap` for
`tryCoverGap`, `repaired` for `repairStreak`, `reconciled` for the reconciliation.  Later proofs use these
equations and do not open the programs again.
-/

namespace CodeReader

open Txn Prog

variable {cfg : Settings} {tz : TzDb} {tx : Tx} {cur : UserRows} {s : Store App} {o : StatsObject}

/-! ## Stats -/

theorem exec_flushUserStats (h : cur.stats = some o.flushed) :
    (flushUserStats o).exec cur s = ⟨.ok (.loaded o.current), { cur with stats := some o.current }, s⟩ := by
  unfold flushUserStats
  split
  · rename_i he
    have ho : o = .loaded o.current := congrArg (StatsObject.mk · o.current) he.symm
    have hc : { cur with stats := some o.current } = cur := by rw [he, ← h]
    rw [hc, ← ho]
    rfl
  · simp [h]

theorem exec_getUserStats_none :
    (getUserStats none).exec cur s = ⟨.ok (cur.stats.map .loaded), cur, s⟩ := rfl

theorem exec_getOrCreateUserStats_none :
    (getOrCreateUserStats cfg none).exec cur s =
      ⟨.ok (.loaded (cur.stats.getD (newUserStats cfg))),
        { cur with stats := some (cur.stats.getD (newUserStats cfg)) }, s⟩ := by
  unfold getOrCreateUserStats getUserStats insertUserStats
  cases h : cur.stats with
  | none => simp [h]
  | some st =>
    have hc : { cur with stats := some st } = cur := by rw [← h]
    simp [h, hc]

theorem exec_getOrCreateUserStats_some :
    (getOrCreateUserStats cfg (some o)).exec cur s = ⟨.ok o, cur, s⟩ := rfl

/-! ## Ledger -/

/-- Some of the rows would be a second transition row of its date. -/
def clashes (events : List StreakEvent) (evs : List NewEvent) : Bool :=
  evs.any fun e => e.event.isTransition && transitionOn events e.localDate

/-- The violation of `uq_streak_events_one_transition_per_day`. -/
def secondTransition : Err := .integrity "uq_streak_events_one_transition_per_day"

theorem mem_toRows {tx : Tx} {evs : List NewEvent} {r : StreakEvent} :
    r ∈ NewEvent.toRows tx evs ↔ ∃ k, ∃ h : k < evs.length, r = evs[k].toRow tx k := by
  simp only [NewEvent.toRows, List.mem_mapIdx]
  constructor
  · rintro ⟨k, h, he⟩
    exact ⟨k, h, he.symm⟩
  · rintro ⟨k, h, he⟩
    exact ⟨k, h, he.symm⟩

theorem exec_insertStreakEvents (evs : List NewEvent) :
    (insertStreakEvents tx evs).exec cur s =
      if clashes cur.events evs then ⟨.error secondTransition, cur, s⟩
      else ⟨.ok (), { cur with events := cur.events ++ NewEvent.toRows tx evs }, s⟩ := by
  change Prog.exec (if clashes cur.events evs then raise secondTransition else
    update fun rows : UserRows => { rows with events := rows.events ++ NewEvent.toRows tx evs } : Handler Unit)
    cur s = _
  split <;> rfl

/-! ## Gaps -/

/-- The missed dates that no freeze row covers. -/
def uncoveredDates (events : List StreakEvent) (lastActive today : Int) : List Int :=
  (missedDates lastActive today).filter fun d => !freezeUsedOn events d

/-- What a gap comes to over a ledger: the stats and the rows once it is paid for, or `none`. -/
def coverGap (cfg : Settings) (events : List StreakEvent) (stats : UserStats) (lastActive today : Int) :
    Option (UserStats × List NewEvent) :=
  let uncovered := uncoveredDates events lastActive today
  if missedDates lastActive today = [] ∨ min stats.streakFreezes cfg.streakFreezeMax < uncovered.length then none
  else
    let stats := { stats with streakFreezes := stats.streakFreezes - uncovered.length }
    some (stats, uncovered.map (freezeSpentRow stats))

theorem missedDates_filter_notMem (events : List StreakEvent) (lastActive today : Int) :
    ((missedDates lastActive today).filter fun d =>
      d ∉ (missedDates lastActive today).filter (freezeUsedOn events)) =
      uncoveredDates events lastActive today := by
  refine List.filter_congr fun d hd => ?_
  cases h : freezeUsedOn events d <;> simp [h, hd]

theorem exec_coveredDates {dates : List Int} (h : cur.stats = some o.flushed) (hd : dates ≠ []) :
    (coveredDates o dates).exec cur s =
      ⟨.ok (.loaded o.current, dates.filter (freezeUsedOn cur.events)), { cur with stats := some o.current }, s⟩ := by
  unfold coveredDates
  rw [if_neg hd, exec_bind, exec_flushUserStats h]
  rfl

theorem exec_tryCoverGap (cfg : Settings) (h : cur.stats = some o.flushed) (lastActive today : Int) :
    ∃ o' : StatsObject,
      (tryCoverGap cfg o lastActive today).exec cur s =
        ⟨.ok (o', (coverGap cfg cur.events o.current lastActive today).map (·.2)),
          { cur with stats := some o'.flushed }, s⟩ ∧
      o'.current = ((coverGap cfg cur.events o.current lastActive today).map (·.1)).getD o.current := by
  by_cases hm : missedDates lastActive today = []
  · exact ⟨o, by simp [tryCoverGap, coverGap, hm, ← h], by simp [coverGap, hm]⟩
  · simp only [tryCoverGap, hm, if_false]
    rw [exec_bind, exec_coveredDates h hm]
    simp only [andThen, missedDates_filter_notMem, StatsObject.loaded]
    by_cases hp : min o.current.streakFreezes cfg.streakFreezeMax <
        (uncoveredDates cur.events lastActive today).length
    · exact ⟨.loaded o.current, by simp only [coverGap, hp, or_true, if_true]; rfl,
        by simp only [coverGap, hp, or_true, if_true]; rfl⟩
    · simp only [coverGap, hm, hp, or_self, if_false]
      exact ⟨_, rfl, rfl⟩

/-! ## Outages -/

/-- The rows after `outage_freeze`. -/
def fillOutage (tx : Tx) (localDate : Int) (rows : UserRows) : UserRows :=
  match rows.stats with
  | none => rows
  | some us =>
    if us.lastActiveLocalDate = none ∨ freezeUsedOn rows.events localDate then rows
    else
      { rows with events := rows.events ++
          NewEvent.toRows tx [⟨.freezeUsed, us.currentStreak, us.currentStreak, localDate, some "outage"⟩] }

theorem exec_outageFreeze (d : Int) :
    (outageFreeze tx d).exec cur s = ⟨.ok (), fillOutage tx d cur, ⟨fillOutage tx d cur, s.kv⟩⟩ := by
  have hfill : fillOutage tx d cur =
      { cur with events := cur.events ++ NewEvent.toRows tx (outageFills d cur) } := by
    obtain ⟨timezone, stats, events, attempts, sessions⟩ := cur
    have hnil : events = events ++ NewEvent.toRows tx [] := (List.append_nil _).symm
    cases stats with
    | none => exact congrArg (UserRows.mk timezone none · attempts sessions) hnil
    | some us =>
      simp only [fillOutage, outageFills]
      by_cases h : us.lastActiveLocalDate = none ∨ freezeUsedOn events d = true
      · rw [if_pos h, if_pos h]
        exact congrArg (UserRows.mk timezone (some us) · attempts sessions) hnil
      · rw [if_neg h, if_neg h]
  rw [hfill]
  rfl

/-! ## Repair -/

/-- The rows after a repair. -/
def repairedRows (cfg : Settings) (tz : TzDb) (tx : Tx) (now : Int) (rows : UserRows) (st : UserStats)
    (r : RestorableReset) : UserRows :=
  { rows with
    stats := some { st with
      currentStreak := r.restoresTo
      longestStreak := max st.longestStreak r.restoresTo }
    events := rows.events ++
      NewEvent.toRows tx [repairRow cfg r st.currentStreak (localDateFor tz rows.timezone now)] }

/-- What a repair has to work on: the restorable reset and the stats, when it beats the current streak. -/
def repairable (cfg : Settings) (now : Int) (rows : UserRows) : Option (RestorableReset × UserStats) :=
  match restorable (now - hours cfg.streakRepairWindowH) rows.events, rows.stats with
  | some r, some st => if r.restoresTo ≤ st.currentStreak then none else some (r, st)
  | _, _ => none

theorem repairable_eq_some {now : Int} {rows : UserRows} {r : RestorableReset} {st : UserStats} :
    repairable cfg now rows = some (r, st) ↔
      restorable (now - hours cfg.streakRepairWindowH) rows.events = some r ∧ rows.stats = some st ∧
        st.currentStreak < r.restoresTo := by
  unfold repairable
  cases restorable (now - hours cfg.streakRepairWindowH) rows.events with
  | none => simp
  | some r' =>
    cases rows.stats with
    | none => simp
    | some st' =>
      dsimp only
      split
      · constructor
        · intro h
          cases h
        · rintro ⟨hr, hst, hlt⟩
          cases hr
          cases hst
          omega
      · constructor
        · intro h
          cases h
          exact ⟨rfl, rfl, by omega⟩
        · rintro ⟨hr, hst, -⟩
          cases hr
          cases hst
          rfl

theorem exec_repairStreak (now : Int) :
    (repairStreak cfg tz tx cur.timezone now).exec cur s =
      match repairable cfg now cur with
      | none => ⟨.error notRepairable, cur, s⟩
      | some (r, st) => ⟨.ok (.repair r.restoresTo), repairedRows cfg tz tx now cur st r, s⟩ := by
  unfold repairStreak loadRestorable repairable
  simp only [lockOn_bind, exec_lock, query_bind, exec_select]
  cases hr : restorable (now - hours cfg.streakRepairWindowH) cur.events with
  | none => rfl
  | some r =>
    rw [exec_bind, exec_getUserStats_none]
    cases hs : cur.stats with
    | none => rfl
    | some st =>
      simp only [andThen, Option.map_some, StatsObject.loaded]
      split
      · rfl
      · rw [exec_bind, exec_flushUserStats hs]
        simp only [andThen]
        rw [exec_bind, exec_insertStreakEvents]
        rfl

/-- The offer of `restorable_value` is what a repair would restore. -/
theorem exec_restorableValue (now : Int) (hs : cur.stats.isSome) :
    (restorableValue cfg now).exec cur s =
      ⟨.ok ((repairable cfg now cur).map fun p => p.1.restoresTo), cur, s⟩ := by
  obtain ⟨st, hst⟩ := Option.isSome_iff_exists.mp hs
  unfold restorableValue loadRestorable repairable
  simp only [query_bind, exec_select]
  cases hr : restorable (now - hours cfg.streakRepairWindowH) cur.events with
  | none => rfl
  | some r =>
    rw [exec_bind, exec_getUserStats_none]
    simp only [andThen, hst, Option.map_some, Option.getD_some, StatsObject.loaded]
    split <;> rfl

/-! ## Reconciliation -/

/-- The rows after a reconciliation with the new zone's "today". -/
def reconciled (tx : Tx) (newTimezone : String) (newToday : Int) (rows : UserRows) : UserRows :=
  if newTimezone = rows.timezone then rows else
  match rows.stats with
  | none => rows
  | some st =>
    match st.lastActiveLocalDate with
    | none => rows
    | some previous =>
      if previous ≤ newToday then rows
      else
        { rows with
          stats := some { st with lastActiveLocalDate := some newToday }
          events := rows.events ++
            NewEvent.toRows tx [reconcileRow st.currentStreak rows.timezone newTimezone previous newToday] }

theorem exec_reconcile (newTimezone : String) (now : Int) :
    (reconcileStreakForTimezoneChange tz tx cur.timezone newTimezone now).exec cur s =
      ⟨.ok (), reconciled tx newTimezone (localDateFor tz newTimezone now) cur, s⟩ := by
  unfold reconcileStreakForTimezoneChange reconciled
  by_cases htz : newTimezone = cur.timezone
  · simp only [htz, if_true, exec_ret]
  · simp only [htz, if_false]
    rw [exec_bind, exec_getUserStats_none]
    cases hs : cur.stats with
    | none => rfl
    | some st =>
      simp only [andThen, Option.map_some, StatsObject.loaded]
      cases hl : st.lastActiveLocalDate with
      | none => rfl
      | some previous =>
        dsimp only
        split
        · rfl
        · rw [exec_bind, exec_flushUserStats hs]
          simp only [andThen]
          rw [exec_insertStreakEvents]
          rfl

end CodeReader
