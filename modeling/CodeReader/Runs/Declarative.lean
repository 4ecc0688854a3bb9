import CodeReader.Ledger.Suffix
import CodeReader.Runs.Eastward
import CodeReader.Runs.SingleZone

/-!
# The streak as a definition over the history

The service keeps a counter and a last active date, and decides at the returning submission whether a gap is
covered.  Over the whole history that counter is the number of days in the longest suffix of the active days whose
gaps were covered when they were closed.

* `ActiveDay`, `activeDays` — the days with a submission, each with the ledger its first submission committed;
* `Linked` — every date between two days had a freeze row when the later one was first submitted on;
* `StreakInv` — the counter is the length of the longest linked suffix; `StreakInv.step` keeps it;
* `streak_eq_suffix` — **the result**, and when a submission resets.
-/

namespace CodeReader

open Txn Prog Ledger

/-! ## The history -/

/-- A day with a submission, and the ledger as the first one of the day committed it. -/
structure ActiveDay where
  day : Int
  ledger : List StreakEvent

/-- The rows and the active days after one more call. -/
def History.next (D : Deployment) (h : UserRows × List ActiveDay) (c : Call) : UserRows × List ActiveDay :=
  (c.after D h.1,
    if Recorded D c h.1 ∧ c.today D h.1 ∉ h.2.map (·.day) then
      h.2 ++ [⟨c.today D h.1, (c.after D h.1).events⟩]
    else h.2)

/-- The active days of a run of the calls from `start`, in their order. -/
def activeDays (D : Deployment) (start : UserRows) (calls : List Call) : List ActiveDay :=
  (calls.foldl (History.next D) (start, [])).2

/-- Every date strictly between the two days had a freeze row when the later one's first submission committed. -/
def Linked (a b : ActiveDay) : Prop := ∀ d, a.day < d → d < b.day → freezeUsedOn b.ledger d = true

/-- A submission, an outage fill or an accrual. -/
def Plays (c : Call) : Prop :=
  (∃ e key payload, c.op = .submit e key payload) ∨ (∃ d, c.op = .outageFreeze d) ∨ ∃ d, c.op = .accrueFreeze d

theorem Plays.stays {c : Call} (h : Plays c) : Stays c := by
  intro name hop
  rcases h with ⟨e, key, payload, h⟩ | ⟨d, h⟩ | ⟨d, h⟩ <;> rw [h] at hop <;> cases hop

section History

variable {D : Deployment} {start rows : UserRows} {calls : List Call} {c : Call}

theorem Run.foldl_eq {P : UserRows → Call → Prop} (h : Run D P start calls rows) :
    (calls.foldl (History.next D) (start, [])).1 = rows := by
  induction h with
  | nil => rfl
  | call _ _ _ _ ih => rw [List.foldl_append, List.foldl_cons, List.foldl_nil, History.next, ih]

theorem Run.activeDays_append {P : UserRows → Call → Prop} (h : Run D P start calls rows) (c : Call) :
    activeDays D start (calls ++ [c]) =
      if Recorded D c rows ∧ c.today D rows ∉ (activeDays D start calls).map (·.day) then
        activeDays D start calls ++ [⟨c.today D rows, (c.after D rows).events⟩]
      else activeDays D start calls := by
  rw [activeDays, List.foldl_append, List.foldl_cons, List.foldl_nil, History.next, h.foldl_eq]
  rfl

end History

/-! ## What the calls do to the counter -/

section Step

variable {D : Deployment} {rows : UserRows} {c : Call}

/-- A submission that is not recorded leaves the rows as they are. -/
theorem after_of_not_recorded {e : SubmitEnv} {key : String} {payload : AttemptRequest}
    (hop : c.op = .submit e key payload) (h : ¬ Recorded D c rows) : c.after D rows = rows := by
  obtain ⟨res, hs, hres⟩ := after_submit (D := D) rows hop
  unfold Recorded at h
  rw [hres] at h
  generalize c.after D rows = rows' at hs ⊢
  cases hs with
  | recorded hr => exact absurd ⟨_, rfl⟩ h
  | replayed => rfl
  | violated => rfl
  | refused => rfl

/-- Only submissions are recorded. -/
theorem Recorded.not_other (h : Recorded D c rows) (hno : ∀ e key payload, c.op ≠ .submit e key payload) : False := by
  obtain ⟨e, key, payload, type, grade, hop, -⟩ := h.submitted
  exact hno e key payload hop

theorem freezeUsedOn_append (events : List StreakEvent) (tx : Tx) (evs : List NewEvent) (d : Int) :
    freezeUsedOn (events ++ NewEvent.toRows tx evs) d =
      (freezeUsedOn events d || evs.any fun e => e.event == .freezeUsed && e.localDate == d) := by
  unfold freezeUsedOn
  rw [List.any_append]
  congr 1
  rw [Bool.eq_iff_iff, List.any_eq_true, List.any_eq_true]
  constructor
  · rintro ⟨r, hr, h⟩
    obtain ⟨k, hk, rfl⟩ := mem_toRows.mp hr
    exact ⟨evs[k], List.getElem_mem hk, h⟩
  · rintro ⟨e, he, h⟩
    obtain ⟨k, hk, rfl⟩ := List.mem_iff_getElem.mp he
    exact ⟨_, mem_toRows.mpr ⟨k, hk, rfl⟩, h⟩

/-- The freeze rows of a transition are those of the days it pays for. -/
theorem Counted.transition_freezes {cfg : Settings} {st : UserStats} {days : List Int} {event : StreakEventKind}
    (hev : event.isTransition = true) (stats : UserStats) (toValue today d : Int) :
    ((Counted.transition cfg st (days.map (freezeSpentRow stats)) event toValue today).rows.any fun e =>
      e.event == .freezeUsed && e.localDate == d) = decide (d ∈ days) := by
  have hne : (event == .freezeUsed) = false := by
    cases event <;> first | rfl | cases hev
  have hacc : ∀ x : UserStats × List NewEvent, (∀ e ∈ x.2, e.event = .adjusted) →
      (x.2.any fun e => e.event == .freezeUsed && e.localDate == d) = false := by
    intro x hx
    rw [List.any_eq_false]
    intro e he
    rw [hx e he]
    simp
  have hacc' := hacc (if event = .extended then accrueFreezeIfEarned cfg (transitionStats st toValue today) today
    else (transitionStats st toValue today, [])) (by
      intro e he
      split at he
      · exact (accrued_shaped he).1
      · cases he)
  simp only [Counted.transition, List.any_append, List.any_cons, List.any_nil, hne, hacc', Bool.false_and,
    Bool.or_false, List.any_map]
  rw [Bool.eq_iff_iff, List.any_eq_true, decide_eq_true_eq]
  constructor
  · rintro ⟨x, hx, h⟩
    simp only [freezeSpentRow, Function.comp, beq_self_eq_true, Bool.true_and, beq_iff_eq] at h
    exact h ▸ hx
  · intro hd
    exact ⟨d, hd, by simp [freezeSpentRow]⟩

theorem fillOutage_stats (tx : Tx) (d : Int) (rows : UserRows) : (fillOutage tx d rows).stats = rows.stats := by
  unfold fillOutage
  split
  · rfl
  · split <;> rfl

theorem accruedRows_stats (cfg : Settings) (tx : Tx) (d : Int) (rows : UserRows) :
    currentStreak (accruedRows cfg tx d rows).stats = currentStreak rows.stats ∧
      lastActive (accruedRows cfg tx d rows).stats = lastActive rows.stats ∧
      freezeBalance cfg rows.stats ≤ freezeBalance cfg (accruedRows cfg tx d rows).stats := by
  unfold accruedRows
  split
  · exact ⟨rfl, rfl, Int.le_refl _⟩
  · rename_i st hst
    rw [hst]
    rcases accrueFreezeIfEarned_cases cfg st d with h | ⟨-, note, h⟩
    · rw [h]
      exact ⟨rfl, rfl, Int.le_refl _⟩
    · rw [h]
      refine ⟨rfl, rfl, ?_⟩
      change st.streakFreezes ≤ st.streakFreezes + 1
      omega

end Step

/-! ## The invariant -/

/-- The counter against the history. -/
structure StreakInv (D : Deployment) (rows : UserRows) (days : List ActiveDay) : Prop where
  last : days.getLast?.map (·.day) = lastActive rows.stats
  increasing : (days.map (·.day)).Pairwise (· < ·)
  suffix : ∃ s, LongestSuffix Linked days s ∧ currentStreak rows.stats = s.length
  balance : 0 ≤ freezeBalance D.cfg rows.stats

namespace StreakInv

variable {D : Deployment} {rows : UserRows} {days : List ActiveDay} {c : Call}

/-- The stats that matter are the same, and the balance is no smaller. -/
theorem of_stats {rows' : UserRows} (h : StreakInv D rows days)
    (hc : currentStreak rows'.stats = currentStreak rows.stats) (hl : lastActive rows'.stats = lastActive rows.stats)
    (hb : freezeBalance D.cfg rows.stats ≤ freezeBalance D.cfg rows'.stats) : StreakInv D rows' days where
  last := h.last.trans hl.symm
  increasing := h.increasing
  suffix := by
    obtain ⟨s, hs, hlen⟩ := h.suffix
    exact ⟨s, hs, hc.trans hlen⟩
  balance := Int.le_trans h.balance hb

/-- No active day is after the last active one. -/
theorem day_le (h : StreakInv D rows days) {a : ActiveDay} (ha : a ∈ days) :
    ∃ la, lastActive rows.stats = some la ∧ a.day ≤ la := by
  obtain ⟨l, b, rfl⟩ : ∃ l b, days = l ++ [b] := by
    rcases List.eq_nil_or_concat days with rfl | ⟨l, b, rfl⟩
    · cases ha
    · exact ⟨l, b, List.concat_eq_append⟩
  refine ⟨b.day, by rw [← h.last]; simp, ?_⟩
  have hinc := h.increasing
  rw [List.map_append, List.pairwise_append] at hinc
  rcases List.mem_append.mp ha with ha | ha
  · have hlt := hinc.2.2 a.day (List.mem_map_of_mem ha) b.day (by simp)
    omega
  · rw [List.mem_singleton] at ha
    subst ha
    exact Int.le_refl _

/-- A day after the last active one joins the history, and the counter follows its longest suffix. -/
theorem append {rows' : UserRows} {today : Int} {ledger : List StreakEvent} (h : StreakInv D rows days)
    (hlt : ∀ la, lastActive rows.stats = some la → la < today) (hl : lastActive rows'.stats = some today)
    (hb : 0 ≤ freezeBalance D.cfg rows'.stats)
    (hstep : (∀ a, days.getLast? = some a → Linked a ⟨today, ledger⟩) ∧
        currentStreak rows'.stats = currentStreak rows.stats + 1 ∨
      (∃ a, days.getLast? = some a ∧ ¬ Linked a ⟨today, ledger⟩) ∧ currentStreak rows'.stats = 1) :
    StreakInv D rows' (days ++ [⟨today, ledger⟩]) where
  last := by simp [hl]
  increasing := by
    rw [List.map_append]
    refine List.pairwise_append.mpr ⟨h.increasing, List.pairwise_singleton _ _, fun d hd d' hd' => ?_⟩
    rw [List.map_singleton, List.mem_singleton] at hd'
    obtain ⟨a, ha, rfl⟩ := List.mem_map.mp hd
    obtain ⟨la, hla, hle⟩ := h.day_le ha
    have hla' := hlt la hla
    rw [hd']
    dsimp only
    omega
  suffix := by
    obtain ⟨s, hs, hlen⟩ := h.suffix
    rcases hstep with ⟨hlink, hc⟩ | ⟨⟨a, ha, hno⟩, hc⟩
    · exact ⟨_, hs.extend hlink, by rw [hc, hlen]; simp⟩
    · exact ⟨_, LongestSuffix.restart ha hno, by rw [hc]; rfl⟩
  balance := hb

/-- A gap that is paid for, or was never there, is covered in the ledger that is committed. -/
theorem linked_of_survives {cfg : Settings} {st : UserStats} {today : Int} {paid : List Int} (tx : Tx) (a : ActiveDay)
    (hs : Survives cfg rows.events st today paid) (ha : st.lastActiveLocalDate = some a.day) :
    Linked a ⟨today, rows.events ++ NewEvent.toRows tx (Counted.extension cfg (st.attempted.spend paid.length)
      (paid.map (freezeSpentRow (st.attempted.spend paid.length))) today).rows⟩ := by
  intro d hd hd'
  dsimp only at hd' ⊢
  rcases hs with ⟨hl, -⟩ | ⟨hl, -⟩ | ⟨la, hl, hlt, hpaid, -⟩
  · rw [hl] at ha
    cases ha
  · rw [hl, Option.some.injEq] at ha
    omega
  · rw [hl, Option.some.injEq] at ha
    rw [freezeUsedOn_append, Counted.extension, Counted.transition_freezes rfl, Bool.or_eq_true, decide_eq_true_eq]
    cases hc : freezeUsedOn rows.events d with
    | true => exact .inl rfl
    | false =>
      refine .inr ?_
      rw [hpaid, uncoveredDates, List.mem_filter, mem_missedDates]
      exact ⟨by omega, by rw [hc]; rfl⟩

/-- A gap that resets the streak has a date that stays uncovered, when the payable balance is not negative. -/
theorem not_linked_of_resets {cfg : Settings} {st : UserStats} {today : Int} (tx : Tx) (a : ActiveDay)
    (hr : Resets cfg rows.events st today) (ha : st.lastActiveLocalDate = some a.day) (hle : a.day ≤ today)
    (hpos : 0 ≤ min st.streakFreezes cfg.streakFreezeMax) :
    ¬ Linked a ⟨today, rows.events ++
      NewEvent.toRows tx (Counted.transition cfg st.attempted [] .reset 1 today).rows⟩ := by
  obtain ⟨la, hl, hgap⟩ := hr
  rw [hl, Option.some.injEq] at ha
  have hlen : (uncoveredDates rows.events la today).length ≠ 0 := by omega
  obtain ⟨d, hd⟩ := List.exists_mem_of_length_pos (Nat.pos_of_ne_zero hlen)
  rw [uncoveredDates, List.mem_filter, mem_missedDates] at hd
  intro hlink
  have hcov := hlink d (by omega) hd.1.2
  dsimp only at hcov
  rw [freezeUsedOn_append, ← List.map_nil (f := freezeSpentRow st), Counted.transition_freezes rfl] at hcov
  simp only [List.not_mem_nil, decide_false, Bool.or_false] at hcov
  rw [hcov] at hd
  exact Bool.noConfusion hd.2

/-- A recorded submission. -/
theorem recorded (h : StreakInv D rows days) (hmax : 0 ≤ D.cfg.streakFreezeMax)
    (hle : ∀ la, lastActive rows.stats = some la → la ≤ c.today D rows) (hr : Recorded D c rows) :
    StreakInv D (c.after D rows)
      (if c.today D rows ∉ days.map (·.day) then days ++ [⟨c.today D rows, (c.after D rows).events⟩] else days) := by
  obtain ⟨e, key, payload, type, grade, -, -, hrows⟩ := hr.submitted
  have hevents : (c.after D rows).events = rows.events ++ NewEvent.toRows c.tx
      (countSubmission D.cfg rows.events (gradedStats D.cfg type grade rows.stats) (c.today D rows)).rows := by
    rw [hrows]
    rfl
  have hstats : (c.after D rows).stats = some
      (countSubmission D.cfg rows.events (gradedStats D.cfg type grade rows.stats) (c.today D rows)).stats := by
    rw [hrows]
    rfl
  have hcur : (gradedStats D.cfg type grade rows.stats).currentStreak = currentStreak rows.stats :=
    gradedStats_current ..
  have hlast : (gradedStats D.cfg type grade rows.stats).lastActiveLocalDate = lastActive rows.stats :=
    gradedStats_lastActive ..
  have hbal : (gradedStats D.cfg type grade rows.stats).streakFreezes = freezeBalance D.cfg rows.stats := by
    unfold gradedStats
    cases grade.isCorrect <;> rfl
  have hbefore := h.balance
  -- the day is new unless it is the last active one
  have hnew : lastActive rows.stats ≠ some (c.today D rows) → c.today D rows ∉ days.map (·.day) ∧
      ∀ la, lastActive rows.stats = some la → la < c.today D rows := by
    intro hne
    have hlt : ∀ la, lastActive rows.stats = some la → la < c.today D rows := by
      intro la hla
      have hle' := hle la hla
      rw [hla, ne_eq, Option.some.injEq] at hne
      omega
    refine ⟨fun hm => ?_, hlt⟩
    obtain ⟨a, ha, hday⟩ := List.mem_map.mp hm
    obtain ⟨la, hla, hle'⟩ := h.day_le ha
    have hlt' := hlt la hla
    omega
  have hprev : ∀ a, days.getLast? = some a →
      (gradedStats D.cfg type grade rows.stats).lastActiveLocalDate = some a.day := by
    intro a ha
    rw [hlast, ← h.last, ha]
    rfl
  generalize gradedStats D.cfg type grade rows.stats = st at hevents hstats hcur hlast hbal hprev
  rcases countSubmission_cases D.cfg rows.events st (c.today D rows) with ⟨hl, hc⟩ | ⟨paid, hs, hc⟩ | ⟨hres, hc⟩
  · have hmem : c.today D rows ∈ days.map (·.day) := by
      have hday : days.getLast?.map (·.day) = some (c.today D rows) := by rw [h.last, ← hlast, hl]
      obtain ⟨a, ha, hd⟩ := Option.map_eq_some_iff.mp hday
      exact List.mem_map.mpr ⟨a, List.mem_of_getLast? ha, hd⟩
    rw [if_neg (not_not.mpr hmem)]
    rw [hc] at hstats
    refine h.of_stats ?_ ?_ ?_ <;> rw [hstats]
    · exact hcur
    · exact hlast
    · rw [← hbal]
      exact Int.le_refl _
  · obtain ⟨hcur', hbal'⟩ := Counted.transition_stats D.cfg (st.attempted.spend paid.length)
      (paid.map (freezeSpentRow (st.attempted.spend paid.length))) .extended
      ((st.attempted.spend paid.length).currentStreak + 1) (c.today D rows)
    have hne : lastActive rows.stats ≠ some (c.today D rows) := by
      rw [← hlast]
      rcases hs with ⟨hl, -⟩ | ⟨hl, -⟩ | ⟨la, hl, hlt, -⟩ <;> rw [hl, ne_eq]
      · intro hn
        cases hn
      · rw [Option.some.injEq]
        omega
      · rw [Option.some.injEq]
        omega
    obtain ⟨hnot, hlt⟩ := hnew hne
    rw [if_pos hnot]
    rw [hc] at hstats hevents
    refine h.append hlt ?_ ?_ (.inl ⟨fun a ha => ?_, ?_⟩)
    · rw [hstats]
      exact Counted.transition_lastActive ..
    · have hpaid : (paid.length : Int) ≤ st.streakFreezes ∨ paid.length = 0 := by
        rcases hs with ⟨-, rfl⟩ | ⟨-, rfl⟩ | ⟨la, -, -, -, hle'⟩
        · exact .inr rfl
        · exact .inr rfl
        · exact .inl (by omega)
      have hspend : (st.attempted.spend paid.length).streakFreezes = st.streakFreezes - paid.length := rfl
      rw [hstats]
      refine Int.le_trans ?_ hbal'
      omega
    · rw [hevents]
      exact linked_of_survives c.tx a hs (hprev a ha)
    · rw [hstats, ← hcur]
      exact hcur'
  · obtain ⟨hcur', hbal'⟩ := Counted.transition_stats D.cfg st.attempted [] .reset 1 (c.today D rows)
    have hres' := hres
    obtain ⟨la, hl, hgap⟩ := hres'
    have hle' := hle la (hlast ▸ hl)
    have hne : lastActive rows.stats ≠ some (c.today D rows) := by
      rw [← hlast, hl, ne_eq, Option.some.injEq]
      omega
    obtain ⟨hnot, hlt⟩ := hnew hne
    rw [if_pos hnot]
    rw [hc] at hstats hevents
    obtain ⟨a, ha, hday⟩ := Option.map_eq_some_iff.mp (h.last.trans (hlast.symm.trans hl))
    refine h.append hlt ?_ ?_ (.inr ⟨⟨a, ha, ?_⟩, ?_⟩)
    · rw [hstats]
      exact Counted.transition_lastActive ..
    · have hsame : st.attempted.streakFreezes = st.streakFreezes := rfl
      rw [hstats]
      refine Int.le_trans ?_ hbal'
      omega
    · rw [hevents]
      exact not_linked_of_resets c.tx a hres (hprev a ha) (by omega) (by omega)
    · rw [hstats]
      exact hcur'

theorem start (D : Deployment) (timezone : String) (hstart : 0 ≤ D.cfg.streakFreezeStart) :
    StreakInv D (.created timezone) [] where
  last := rfl
  increasing := List.Pairwise.nil
  suffix := ⟨[], .nil Linked, rfl⟩
  balance := hstart

end StreakInv

/-! ## Runs -/

section Runs

variable {D : Deployment} {timezone : String} {calls : List Call} {rows : UserRows}

/-- A call that is not recorded leaves the active days alone. -/
theorem Run.activeDays_of_not_recorded {P : UserRows → Call → Prop} {start : UserRows}
    (h : Run D P start calls rows) {c : Call} (hr : ¬ Recorded D c rows) :
    activeDays D start (calls ++ [c]) = activeDays D start calls := by
  rw [h.activeDays_append, if_neg (not_and_of_not_left _ hr)]

theorem Run.streakInv (hstart : 0 ≤ D.cfg.streakFreezeStart) (hmax : 0 ≤ D.cfg.streakFreezeMax)
    (h : Run D (fun _ c => Plays c) (.created timezone) calls rows) (hd : OnDates D timezone calls) :
    StreakInv D rows (activeDays D (.created timezone) calls) := by
  induction h with
  | nil => exact .start D timezone hstart
  | @call calls rows c hrun _ _ hp ih =>
    have hpre : OnDates D timezone calls := (List.pairwise_append.mp hd).1
    have hzone := hrun.zoneInv (fun _ _ hs => hs.stays) hpre
    have hinv := ih hpre
    rcases hp with ⟨e, key, payload, hop⟩ | ⟨d, hop⟩ | ⟨d, hop⟩
    · by_cases hr : Recorded D c rows
      · have hle : ∀ la, lastActive rows.stats = some la → la ≤ c.today D rows := by
          intro la hla
          rw [Call.today, hzone.timezone_eq]
          exact hzone.lastActive_le hd hla
        rw [hrun.activeDays_append]
        simp only [hr, true_and]
        exact hinv.recorded hmax hle hr
      · rw [hrun.activeDays_of_not_recorded hr, after_of_not_recorded hop hr]
        exact hinv
    · have hr : ¬ Recorded D c rows := fun hr => hr.not_other (by simp [hop])
      rw [hrun.activeDays_of_not_recorded hr, (after_outageFreeze hop).1]
      have hst := fillOutage_stats c.tx d rows
      exact hinv.of_stats (congrArg currentStreak hst) (congrArg lastActive hst) (Int.le_of_eq (by rw [hst]))
    · have hr : ¬ Recorded D c rows := fun hr => hr.not_other (by simp [hop])
      rw [hrun.activeDays_of_not_recorded hr, (after_accrueFreeze hop).1]
      obtain ⟨hc, hl, hb⟩ := accruedRows_stats D.cfg c.tx d rows
      exact hinv.of_stats hc hl hb

/-- The active days are the days of the attempts. -/
theorem Run.mem_activeDays (h : Run D (fun _ c => Plays c) (.created timezone) calls rows) (d : Int) :
    d ∈ (activeDays D (.created timezone) calls).map (·.day) ↔ ∃ a ∈ rows.attempts, a.sessionDate = d := by
  induction h with
  | nil => simp [activeDays, UserRows.created]
  | @call calls rows c hrun _ _ hp ih =>
    by_cases hr : Recorded D c rows
    · obtain ⟨e, key, payload, type, grade, -, -, hrows⟩ := hr.submitted
      have hattempts : (c.after D rows).attempts =
          rows.attempts ++ [(c.env D rows.timezone e).attempt c.tx payload grade] := by
        rw [hrows]
        rfl
      have hday : ((c.env D rows.timezone e).attempt c.tx payload grade).sessionDate = c.today D rows := rfl
      rw [hrun.activeDays_append, hattempts]
      simp only [hr, true_and, List.mem_append, List.mem_singleton, or_and_right, exists_or, exists_eq_left, hday]
      rw [← ih]
      split
      · simp [eq_comm]
      · rename_i hm
        rw [not_not] at hm
        constructor
        · exact .inl
        · rintro (hd | rfl)
          · exact hd
          · exact hm
    · have hattempts : (c.after D rows).attempts = rows.attempts := by
        rcases hp with ⟨e, key, payload, hop⟩ | ⟨d, hop⟩ | ⟨d, hop⟩
        · rw [after_of_not_recorded hop hr]
        · rw [(after_outageFreeze hop).1, fillOutage]
          split
          · rfl
          · split <;> rfl
        · rw [(after_accrueFreeze hop).1, accruedRows]
          split <;> rfl
      rw [hrun.activeDays_of_not_recorded hr, hattempts]
      exact ih

end Runs

/-- When a recorded submission resets. -/
theorem Recorded.writesReset_iff {D : Deployment} {c : Call} {rows : UserRows} (h : Recorded D c rows)
    (hle : ∀ la, lastActive rows.stats = some la → la ≤ c.today D rows) :
    WritesReset D c rows ↔ ∃ la, lastActive rows.stats = some la ∧ missedDates la (c.today D rows) ≠ [] ∧
      min (freezeBalance D.cfg rows.stats) D.cfg.streakFreezeMax <
        ((uncoveredDates rows.events la (c.today D rows)).length : Int) := by
  obtain ⟨st, hst, hfr, hrows⟩ := h.newRows_eq
  have hfr' : st.streakFreezes = freezeBalance D.cfg rows.stats := hfr
  rw [WritesReset, hrows, exists_toRows, ← hst, ← hfr']
  rw [← hst] at hle
  simp only [ne_eq, missedDates_eq_nil]
  rcases countSubmission_cases D.cfg rows.events st (c.today D rows) with ⟨hl, hc⟩ | ⟨paid, hs, hc⟩ | ⟨hr, hc⟩
  · rw [hc, hl]
    constructor
    · rintro ⟨e, he, -⟩
      cases he
    · rintro ⟨la, hla, hgap, -⟩
      rw [Option.some.injEq] at hla
      omega
  · rw [hc, Counted.extension, Counted.transition_kinds _ _ _ (by decide)]
    constructor
    · rintro (⟨-, hk⟩ | hk) <;> cases hk
    · rintro ⟨la, hla, hgap, hcost⟩
      rcases hs with ⟨hl, -⟩ | ⟨hl, -⟩ | ⟨la', hl, -, hpaid, hpay⟩
      · rw [hl] at hla
        cases hla
      · rw [hl, Option.some.injEq] at hla
        omega
      · rw [hl, Option.some.injEq] at hla
        rw [hpaid, hla] at hpay
        omega
  · rw [hc, ← List.map_nil (f := freezeSpentRow st), Counted.transition_kinds _ _ _ (by decide)]
    obtain ⟨la, hl, hgap⟩ := hr
    have hle' := hle la hl
    constructor
    · intro _
      exact ⟨la, hl, by omega, by omega⟩
    · intro _
      exact .inr rfl

/-- **The counter is the declarative streak.**  With settings that are not negative, in every run of submissions on
dates that do not decrease, outage fills and accruals: the active days are those with an attempt, in their order, and
`current_streak` is the number of days in their longest suffix in which every date between two days had a freeze row
when the later one was first submitted on.  A recorded submission resets exactly when it missed a date and the missed
dates without a freeze row are more than the payable balance; so a gap that freeze rows cover never resets. -/
theorem streak_eq_suffix (D : Deployment) (timezone : String) (hstart : 0 ≤ D.cfg.streakFreezeStart)
    (hmax : 0 ≤ D.cfg.streakFreezeMax) {calls : List Call} {rows : UserRows}
    (h : Run D (fun _ c => Plays c) (.created timezone) calls rows) (hd : OnDates D timezone calls) :
    ((activeDays D (.created timezone) calls).map (·.day)).Pairwise (· < ·) ∧
    (∀ d, d ∈ (activeDays D (.created timezone) calls).map (·.day) ↔ ∃ a ∈ rows.attempts, a.sessionDate = d) ∧
    (∃ s, LongestSuffix Linked (activeDays D (.created timezone) calls) s ∧ currentStreak rows.stats = s.length) ∧
    ∀ c : Call, OnDates D timezone (calls ++ [c]) → Recorded D c rows →
      (WritesReset D c rows ↔ ∃ la, lastActive rows.stats = some la ∧ missedDates la (c.today D rows) ≠ [] ∧
        min (freezeBalance D.cfg rows.stats) D.cfg.streakFreezeMax <
          ((uncoveredDates rows.events la (c.today D rows)).length : Int)) ∧
      ((∀ la, lastActive rows.stats = some la → ∀ d ∈ missedDates la (c.today D rows),
        freezeUsedOn rows.events d = true) → ¬ WritesReset D c rows) := by
  have hzone := h.zoneInv (fun _ _ hs => hs.stays) hd
  have hinv := h.streakInv hstart hmax hd
  refine ⟨hinv.increasing, h.mem_activeDays, hinv.suffix, fun c hdc hr => ?_⟩
  have hle : ∀ la, lastActive rows.stats = some la → la ≤ c.today D rows := by
    intro la hla
    rw [Call.today, hzone.timezone_eq]
    exact hzone.lastActive_le hdc hla
  have hiff := hr.writesReset_iff hle
  refine ⟨hiff, fun hcov hw => ?_⟩
  obtain ⟨la, hla, -, hcost⟩ := hiff.mp hw
  have hnil : uncoveredDates rows.events la (c.today D rows) = [] := by
    rw [uncoveredDates, List.filter_eq_nil_iff]
    intro d hm
    rw [hcov la hla d hm]
    exact Bool.false_ne_true
  have hpos := hinv.balance
  rw [hnil, List.length_nil] at hcost
  omega

/-! ### A gap filled by an outage -/

/-- Day 0, an outage on day 1, and day 2. -/
def outageRun : List Call :=
  [Call.smallSubmit 1 0, Call.small 2 microsPerDay (.outageFreeze 1), Call.smallSubmit 3 (2 * microsPerDay)]

def outageRows (D : Deployment) : UserRows := outageRun.foldl (fun rows c => c.after D rows) (.created "UTC")

/-- The settings with a cap below zero. -/
def Deployment.negativeCap : Deployment := { Deployment.small (fun _ => 0) with cfg := ⟨2, -1, 10, 48⟩ }

theorem outageRun_plays : ∀ c ∈ outageRun, (∀ j k, j < k → c.eventId j < c.eventId k) ∧
    ∀ _ : UserRows, Plays c := by
  simp only [outageRun, List.forall_mem_cons]
  exact ⟨⟨Call.small_increasing _ _ _, fun _ => .inl ⟨_, _, _, rfl⟩⟩,
    ⟨Call.small_increasing _ _ _, fun _ => .inr (.inl ⟨_, rfl⟩)⟩,
    ⟨Call.small_increasing _ _ _, fun _ => .inl ⟨_, _, _, rfl⟩⟩, by simp⟩

/-- With a negative cap a gap that an outage covers resets the streak. -/
theorem covered_gap_resets :
    ¬ ∀ (D : Deployment) (timezone : String) (calls : List Call) (rows : UserRows),
      Run D (fun _ c => Plays c) (.created timezone) calls rows → OnDates D timezone calls →
        ∃ s, LongestSuffix Linked (activeDays D (.created timezone) calls) s ∧
          currentStreak rows.stats = s.length := by
  intro h
  have hrun : Run .negativeCap (fun _ c => Plays c) (.created "UTC") outageRun (outageRows .negativeCap) :=
    Run.of_runnable .nil outageRun_plays (by decide +kernel)
  obtain ⟨s, hs, hlen⟩ := h _ _ _ _ hrun (hrun.onDates (TzDb.forward_fixed _ _))
  have hcur : currentStreak (outageRows .negativeCap).stats = 1 := by decide +kernel
  have hdays : (activeDays .negativeCap (.created "UTC") outageRun).map (·.day) = [0, 2] := by decide +kernel
  have hcov : (activeDays .negativeCap (.created "UTC") outageRun).all fun a =>
      a.day == 0 || freezeUsedOn a.ledger 1 := by decide +kernel
  have htwo : (activeDays .negativeCap (.created "UTC") outageRun).length = 2 := by
    rw [← List.length_map (fun a : ActiveDay => a.day), hdays]
    rfl
  -- both days are linked, so the whole list is a chain
  have hchain : (activeDays .negativeCap (.created "UTC") outageRun).IsChain Linked := by
    obtain ⟨a, b, hab⟩ := List.length_eq_two.mp htwo
    rw [hab] at hdays hcov ⊢
    simp only [List.map_cons, List.map_nil, List.cons.injEq, and_true] at hdays
    refine List.isChain_pair.mpr fun d hd hd' => ?_
    have hd₁ : d = 1 := by omega
    simp only [List.all_cons, hdays, List.all_nil] at hcov
    rw [hd₁]
    simpa using hcov
  have hle := hs.longest _ (List.suffix_refl _) hchain
  rw [hcur] at hlen
  omega

/-- With the default settings the outage keeps the streak of two. -/
theorem streak_eq_suffix_outage : ∃ s, LongestSuffix Linked
    (activeDays (.small fun _ => 0) (.created "UTC") outageRun) s ∧
      currentStreak (outageRows (.small fun _ => 0)).stats = s.length := by
  have hrun : Run (.small fun _ => 0) (fun _ c => Plays c) (.created "UTC") outageRun
      (outageRows (.small fun _ => 0)) := Run.of_runnable .nil outageRun_plays (by decide +kernel)
  obtain ⟨-, -, hs, -⟩ := streak_eq_suffix (.small fun _ => 0) "UTC" (by decide) (by decide) hrun
    (hrun.onDates (TzDb.forward_fixed _ _))
  exact hs

end CodeReader
