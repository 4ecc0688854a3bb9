import CodeReader.Runs.Serial

/-!
# What a call does to the stats and the ledger

`LedgerStep` lists, operation by operation, the stats that a call leaves and the rows it appends to the ledger;
`Call.ledgerStep` is the inversion that the invariants of runs are read from.
-/

namespace CodeReader

open Txn Prog

variable {D : Deployment} {c : Call} {rows : UserRows}

/-- `user_stats.last_active_local_date`, null without a row. -/
def lastActive (stats : Option UserStats) : Option Int := stats.bind (·.lastActiveLocalDate)

@[simp] theorem lastActive_some (st : UserStats) : lastActive (some st) = st.lastActiveLocalDate := rfl

theorem gradedStats_lastActive (cfg : Settings) (type : String) (grade : Grade) (stats : Option UserStats) :
    (gradedStats cfg type grade stats).lastActiveLocalDate = lastActive stats := by
  unfold gradedStats
  cases grade.isCorrect <;> cases stats <;> rfl

/-- The day that a submission made by the call would count. -/
def Call.today (D : Deployment) (c : Call) (rows : UserRows) : Int := localDateFor D.tz rows.timezone c.time

/-- The stats after a call on `rows`, and the ledger rows it appends. -/
inductive LedgerStep (D : Deployment) (c : Call) (rows : UserRows) : Option UserStats → List NewEvent → Prop
  | unchanged : LedgerStep D c rows rows.stats []
  | recorded {e : SubmitEnv} {key : String} {payload : AttemptRequest} {type : String} {grade : Grade}
      (hop : c.op = .submit e key payload)
      (hr : Records D.cfg (c.env D rows.timezone e) payload type grade rows) :
      LedgerStep D c rows (some (counted D.cfg (c.env D rows.timezone e) type grade rows).stats)
        (counted D.cfg (c.env D rows.timezone e) type grade rows).rows
  | reconciled {name : String} {st : UserStats} {previous : Int} (hop : c.op = .changeTimezone name)
      (hst : rows.stats = some st) (hlast : st.lastActiveLocalDate = some previous)
      (hback : localDateFor D.tz name c.time < previous) :
      LedgerStep D c rows (some { st with lastActiveLocalDate := some (localDateFor D.tz name c.time) })
        [reconcileRow st.currentStreak rows.timezone name previous (localDateFor D.tz name c.time)]
  | filled {d : Int} {st : UserStats} (hop : c.op = .outageFreeze d) (hst : rows.stats = some st)
      (hlast : st.lastActiveLocalDate ≠ none) (hnew : freezeUsedOn rows.events d = false) :
      LedgerStep D c rows (some st) [⟨.freezeUsed, st.currentStreak, st.currentStreak, d, some "outage"⟩]
  | granted {d : Int} {st : UserStats} {note : Option String} (hop : c.op = .grantInitialFreezes d)
      (hst : rows.stats = some st)
      (hlow : st.streakFreezes < min D.cfg.streakFreezeStart D.cfg.streakFreezeMax) :
      LedgerStep D c rows
        (some { st with streakFreezes := min D.cfg.streakFreezeStart D.cfg.streakFreezeMax })
        [⟨.adjusted, st.currentStreak, st.currentStreak, d, note⟩]
  | accrued {d : Int} {st : UserStats} (hop : c.op = .accrueFreeze d) (hst : rows.stats = some st) :
      LedgerStep D c rows (some (accrueFreezeIfEarned D.cfg st d).1) (accrueFreezeIfEarned D.cfg st d).2
  | repaired {r : RestorableReset} {st : UserStats} (hop : c.op = .repair)
      (hr : repairable D.cfg c.time rows = some (r, st)) :
      LedgerStep D c rows
        (some { st with currentStreak := r.restoresTo, longestStreak := max st.longestStreak r.restoresTo })
        [repairRow D.cfg r st.currentStreak (localDateFor D.tz rows.timezone c.time)]

theorem reconciled_ledgerStep {name : String} (hop : c.op = .changeTimezone name) :
    ∃ evs, (reconciled c.tx name (localDateFor D.tz name c.time) rows).events =
        rows.events ++ NewEvent.toRows c.tx evs ∧
      LedgerStep D c rows (reconciled c.tx name (localDateFor D.tz name c.time) rows).stats evs := by
  have hun : ∃ evs, rows.events = rows.events ++ NewEvent.toRows c.tx evs ∧ LedgerStep D c rows rows.stats evs :=
    ⟨[], by simp [NewEvent.toRows], .unchanged⟩
  unfold reconciled
  split
  · exact hun
  · split
    · exact hun
    · rename_i st hst
      split
      · exact hun
      · rename_i previous hlast
        split
        · exact hun
        · exact ⟨_, rfl, .reconciled hop hst hlast (by omega)⟩

theorem fillOutage_ledgerStep {d : Int} (hop : c.op = .outageFreeze d) :
    ∃ evs, (fillOutage c.tx d rows).events = rows.events ++ NewEvent.toRows c.tx evs ∧
      LedgerStep D c rows (fillOutage c.tx d rows).stats evs := by
  have hun : ∃ evs, rows.events = rows.events ++ NewEvent.toRows c.tx evs ∧ LedgerStep D c rows rows.stats evs :=
    ⟨[], by simp [NewEvent.toRows], .unchanged⟩
  unfold fillOutage
  split
  · exact hun
  · rename_i st hst
    split
    · exact hun
    · rename_i hn
      rw [not_or] at hn
      refine ⟨_, rfl, ?_⟩
      dsimp only
      rw [hst]
      exact .filled hop hst hn.1 (by simpa using hn.2)

theorem grantFreezes_ledgerStep {d : Int} (hop : c.op = .grantInitialFreezes d) :
    ∃ evs, (grantFreezes c.tx (min D.cfg.streakFreezeStart D.cfg.streakFreezeMax) d rows).events =
        rows.events ++ NewEvent.toRows c.tx evs ∧
      LedgerStep D c rows
        (grantFreezes c.tx (min D.cfg.streakFreezeStart D.cfg.streakFreezeMax) d rows).stats evs := by
  have hun : ∃ evs, rows.events = rows.events ++ NewEvent.toRows c.tx evs ∧ LedgerStep D c rows rows.stats evs :=
    ⟨[], by simp [NewEvent.toRows], .unchanged⟩
  unfold grantFreezes
  split
  · exact hun
  · rename_i st hst
    split
    · rename_i hg
      exact ⟨_, rfl, .granted hop hst hg.1⟩
    · exact hun

/-- **Inversion**: a call appends rows to the ledger, and they and the stats after it are one of the listed steps. -/
theorem Call.ledgerStep (D : Deployment) (c : Call) (rows : UserRows) :
    ∃ evs, (c.after D rows).events = rows.events ++ NewEvent.toRows c.tx evs ∧
      LedgerStep D c rows (c.after D rows).stats evs := by
  have hun : ∃ evs, rows.events = rows.events ++ NewEvent.toRows c.tx evs ∧ LedgerStep D c rows rows.stats evs :=
    ⟨[], by simp [NewEvent.toRows], .unchanged⟩
  cases hop : c.op with
  | submit e key payload =>
    obtain ⟨res, hs, -⟩ := after_submit (D := D) rows hop
    generalize c.after D rows = rows' at hs ⊢
    cases hs with
    | recorded hr => exact ⟨_, rfl, .recorded hop hr⟩
    | replayed => exact hun
    | violated h => exact hun
    | refused h => exact hun
  | changeTimezone name =>
    rw [(after_changeTimezone hop).1]
    exact reconciled_ledgerStep hop
  | outageFreeze d =>
    rw [(after_outageFreeze hop).1]
    exact fillOutage_ledgerStep hop
  | grantInitialFreezes d =>
    rw [(after_grantInitialFreezes hop).1]
    exact grantFreezes_ledgerStep hop
  | accrueFreeze d =>
    rw [(after_accrueFreeze hop).1]
    unfold accruedRows
    split
    · exact hun
    · rename_i st hst
      exact ⟨_, rfl, .accrued hop hst⟩
  | repair =>
    have h := after_repair (D := D) rows hop
    split at h
    · rw [h.1]
      exact hun
    · rename_i r st hr
      rw [h.1]
      exact ⟨_, rfl, .repaired hop hr⟩

/-! ## The rows of a step -/

/-- How a row of each kind moves the streak: an extension by one, a reset to 1, a repair anyhow, the others not. -/
def Shaped (event : StreakEventKind) (fromValue toValue : Int) : Prop :=
  match event with
  | .extended => toValue = fromValue + 1
  | .reset => toValue = 1
  | .freezeUsed | .adjusted => toValue = fromValue
  | .repaired => True

theorem accrued_shaped {cfg : Settings} {st : UserStats} {d : Int} {e : NewEvent}
    (h : e ∈ (accrueFreezeIfEarned cfg st d).2) : e.event = .adjusted ∧ e.toValue = e.fromValue := by
  rcases accrueFreezeIfEarned_cases cfg st d with hc | ⟨-, note, hc⟩
  · rw [hc] at h
    cases h
  · rw [hc, List.mem_singleton] at h
    rw [h]
    exact ⟨rfl, rfl⟩

theorem Counted.transition_shaped {cfg : Settings} {st stats : UserStats} {days : List Int}
    {event : StreakEventKind} {toValue today : Int} (hs : Shaped event st.currentStreak toValue)
    (hev : event ≠ .repaired) {e : NewEvent}
    (h : e ∈ (Counted.transition cfg st (days.map (freezeSpentRow stats)) event toValue today).rows) :
    Shaped e.event e.fromValue e.toValue ∧ e.event ≠ .repaired := by
  simp only [Counted.transition, List.mem_append, List.mem_singleton, List.mem_map] at h
  rcases h with (⟨d, -, rfl⟩ | rfl) | h
  · exact ⟨rfl, StreakEventKind.noConfusion⟩
  · exact ⟨hs, hev⟩
  · split at h
    · obtain ⟨he, ht⟩ := accrued_shaped h
      rw [he]
      exact ⟨ht, by decide⟩
    · cases h

theorem countSubmission_shaped {cfg : Settings} {events : List StreakEvent} {st : UserStats} {today : Int}
    {e : NewEvent} (h : e ∈ (countSubmission cfg events st today).rows) :
    Shaped e.event e.fromValue e.toValue ∧ e.event ≠ .repaired := by
  rcases countSubmission_cases cfg events st today with ⟨-, hc⟩ | ⟨days, -, hc⟩ | ⟨-, hc⟩
  · rw [hc] at h
    cases h
  · have hs : Shaped .extended (st.attempted.spend days.length).currentStreak
        ((st.attempted.spend days.length).currentStreak + 1) := rfl
    rw [hc] at h
    exact Counted.transition_shaped hs (by decide) h
  · have hs : Shaped .reset st.attempted.currentStreak 1 := rfl
    rw [hc, ← List.map_nil (f := freezeSpentRow st)] at h
    exact Counted.transition_shaped hs (by decide) h

/-- Every row of a step has the shape of its kind. -/
theorem LedgerStep.shaped {stats' : Option UserStats} {evs : List NewEvent} (h : LedgerStep D c rows stats' evs)
    {e : NewEvent} (he : e ∈ evs) : Shaped e.event e.fromValue e.toValue := by
  cases h with
  | unchanged => cases he
  | recorded hop hr => exact (countSubmission_shaped he).1
  | reconciled hop hst hlast hback =>
    rw [List.mem_singleton] at he
    rw [he]
    trivial
  | filled hop hst hlast hnew =>
    rw [List.mem_singleton] at he
    rw [he]
    rfl
  | granted hop hst hlow =>
    rw [List.mem_singleton] at he
    rw [he]
    rfl
  | accrued hop hst =>
    obtain ⟨hk, ht⟩ := accrued_shaped he
    rw [hk]
    exact ht
  | repaired hop hr =>
    rw [List.mem_singleton] at he
    rw [he]
    trivial

/-- In a fixed zone only repairs write `repaired` rows. -/
theorem LedgerStep.repairRow_of {stats' : Option UserStats} {evs : List NewEvent}
    (h : LedgerStep D c rows stats' evs) (hzone : ∀ name, c.op ≠ .changeTimezone name) {e : NewEvent} (he : e ∈ evs)
    (hk : e.event = .repaired) : ∃ r st, repairable D.cfg c.time rows = some (r, st) ∧
      e = repairRow D.cfg r st.currentStreak (localDateFor D.tz rows.timezone c.time) ∧ evs = [e] := by
  cases h with
  | unchanged => cases he
  | recorded hop hr => exact absurd hk (countSubmission_shaped he).2
  | reconciled hop hst hlast hback => exact absurd hop (hzone _)
  | filled hop hst hlast hnew =>
    rw [List.mem_singleton] at he
    rw [he] at hk
    cases hk
  | granted hop hst hlow =>
    rw [List.mem_singleton] at he
    rw [he] at hk
    cases hk
  | accrued hop hst =>
    rw [(accrued_shaped he).1] at hk
    cases hk
  | repaired hop hr =>
    rw [List.mem_singleton] at he
    exact ⟨_, _, hr, he, by rw [he]⟩

/-- In a fixed zone a step counts no day, or today, which was not the last active one. -/
theorem LedgerStep.transitions {stats' : Option UserStats} {evs : List NewEvent}
    (h : LedgerStep D c rows stats' evs) (hzone : ∀ name, c.op ≠ .changeTimezone name) :
    (evs.filter (·.event.isTransition) = [] ∧ lastActive stats' = lastActive rows.stats) ∨
    (lastActive rows.stats ≠ some (c.today D rows) ∧ lastActive stats' = some (c.today D rows) ∧
      (∃ e key payload, c.op = .submit e key payload) ∧ ∃ row : NewEvent,
        row.event.isTransition ∧ row.localDate = c.today D rows ∧ evs.filter (·.event.isTransition) = [row]) := by
  cases h with
  | unchanged => exact .inl ⟨rfl, rfl⟩
  | @recorded e key payload type grade hop hr =>
    have hcases := countSubmission_filter D.cfg rows.events (gradedStats D.cfg type grade rows.stats)
      (c.env D rows.timezone e).today
    rw [gradedStats_lastActive] at hcases
    rcases hcases with ⟨hl, hc⟩ | ⟨hl, row, hk, hd, hf⟩
    · refine .inl ⟨by rw [counted, hc]; rfl, ?_⟩
      rw [hl]
      exact countSubmission_lastActive ..
    · exact .inr ⟨hl, countSubmission_lastActive .., ⟨_, _, _, hop⟩, row, hk, hd, hf⟩
  | reconciled hop hst hlast hback => exact absurd hop (hzone _)
  | filled hop hst hlast hnew => exact .inl ⟨rfl, by rw [hst]⟩
  | granted hop hst hlow => exact .inl ⟨rfl, by rw [hst]; rfl⟩
  | @accrued d st hop hst =>
    refine .inl ⟨accrued_filter .., ?_⟩
    rw [hst]
    rcases accrueFreezeIfEarned_cases D.cfg st d with hc | ⟨-, note, hc⟩ <;> simp [hc]
  | repaired hop hr =>
    obtain ⟨-, hst, -⟩ := repairable_eq_some.mp hr
    exact .inl ⟨rfl, by rw [hst]; rfl⟩

end CodeReader
