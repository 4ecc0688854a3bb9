import CodeReader.Runs.Timezone

/-!
# A time zone change between two submissions

The last submission before a change from zone `A` to zone `B`, and the first one after it.  A change that moves the
date forward leaves `last_active_local_date` at its date under `A`, so the next submission can find a gap of days
that the user never had.

* `Quiet` — the operations allowed in between: all but submissions and zone changes;
* `lastActive_after_change` — the date that the second submission is compared with;
* `unbroken_after_change` — **exactly when the second submission costs nothing**.
-/

namespace CodeReader

open Txn Prog

/-- Neither a submission nor a zone change. -/
def Quiet (c : Call) : Prop :=
  (∀ e key payload, c.op ≠ .submit e key payload) ∧ ∀ name, c.op ≠ .changeTimezone name

/-- The submission is recorded: the call answers afresh. -/
def Recorded (D : Deployment) (c : Call) (rows : UserRows) : Prop :=
  ∃ response, c.result D rows = .ok (some ⟨200, .attempt response, false⟩)

/-- The ledger rows that a call writes. -/
def newRows (D : Deployment) (c : Call) (rows : UserRows) : List StreakEvent :=
  (c.after D rows).events.drop rows.events.length

/-- The call writes a reset row. -/
def WritesReset (D : Deployment) (c : Call) (rows : UserRows) : Prop :=
  ∃ e ∈ newRows D c rows, e.event = .reset

/-- The call writes the row of a spent freeze. -/
def SpendsFreeze (D : Deployment) (c : Call) (rows : UserRows) : Prop :=
  ∃ e ∈ newRows D c rows, e.event = .freezeUsed

section Step

variable {D : Deployment} {c : Call} {rows : UserRows}

/-- The outcome of a recorded submission. -/
def isFresh : Except Err (Option AttemptOutcome) → Bool
  | .ok (some ⟨200, .attempt _, false⟩) => true
  | _ => false

theorem recorded_iff : Recorded D c rows ↔ isFresh (c.result D rows) = true := by
  constructor
  · rintro ⟨response, h⟩
    rw [h]
    rfl
  · intro h
    unfold isFresh at h
    split at h
    · rename_i response hres
      exact ⟨response, hres⟩
    · cases h

instance : Decidable (Recorded D c rows) := decidable_of_iff _ recorded_iff.symm

instance : Decidable (SpendsFreeze D c rows) := inferInstanceAs (Decidable (∃ e ∈ newRows D c rows, _))

theorem Recorded.submitted (h : Recorded D c rows) : ∃ e key payload type grade, c.op = .submit e key payload ∧
    Records D.cfg (c.env D rows.timezone e) payload type grade rows ∧
    c.after D rows = submittedRows D.cfg (c.env D rows.timezone e) c.tx payload type grade rows := by
  obtain ⟨response, hres⟩ := h
  cases hop : c.op with
  | submit e key payload =>
    obtain ⟨res, hs, hr⟩ := after_submit (D := D) rows hop
    rw [hr] at hres
    generalize c.after D rows = rows' at hs ⊢
    cases hs with
    | recorded hrec => exact ⟨e, key, payload, _, _, rfl, hrec, rfl⟩
    | replayed => simp [Except.map] at hres
    | violated => simp [Except.map] at hres
    | refused => simp [Except.map] at hres
  | changeTimezone name =>
    rw [(after_changeTimezone hop).2] at hres
    cases hres
  | outageFreeze d =>
    rw [(after_outageFreeze hop).2] at hres
    cases hres
  | grantInitialFreezes d =>
    rw [(after_grantInitialFreezes hop).2] at hres
    cases hres
  | accrueFreeze d =>
    rw [(after_accrueFreeze hop).2] at hres
    cases hres
  | repair =>
    have h := after_repair (D := D) rows hop
    split at h <;> rw [h.2] at hres <;> cases hres

/-- A recorded submission leaves its day as the last active one, and the zone alone. -/
theorem Recorded.lastActive_eq (h : Recorded D c rows) :
    lastActive (c.after D rows).stats = some (c.today D rows) ∧ (c.after D rows).timezone = rows.timezone := by
  obtain ⟨e, key, payload, type, grade, -, -, hrows⟩ := h.submitted
  rw [hrows]
  exact ⟨countSubmission_lastActive .., rfl⟩

/-- The rows that a recorded submission writes are those of the streak step. -/
theorem Recorded.newRows_eq (h : Recorded D c rows) : ∃ st, st.lastActiveLocalDate = lastActive rows.stats ∧
    st.streakFreezes = (rows.stats.getD (newUserStats D.cfg)).streakFreezes ∧
    newRows D c rows = NewEvent.toRows c.tx (countSubmission D.cfg rows.events st (c.today D rows)).rows := by
  obtain ⟨e, key, payload, type, grade, -, -, hrows⟩ := h.submitted
  refine ⟨gradedStats D.cfg type grade rows.stats, gradedStats_lastActive .., ?_, ?_⟩
  · unfold gradedStats
    cases grade.isCorrect <;> rfl
  · rw [newRows, hrows]
    exact List.drop_left

/-- Quiet operations leave the last active day and the zone alone. -/
theorem Quiet.lastActive_eq (h : Quiet c) : lastActive (c.after D rows).stats = lastActive rows.stats ∧
    (c.after D rows).timezone = rows.timezone := by
  cases hop : c.op with
  | submit e key payload => exact absurd hop (h.1 e key payload)
  | changeTimezone name => exact absurd hop (h.2 name)
  | outageFreeze d =>
    rw [(after_outageFreeze hop).1, fillOutage]
    split
    · exact ⟨rfl, rfl⟩
    · split <;> exact ⟨rfl, rfl⟩
  | grantInitialFreezes d =>
    rw [(after_grantInitialFreezes hop).1, grantFreezes]
    split
    · exact ⟨rfl, rfl⟩
    · rename_i st hst
      split
      · rw [hst]
        exact ⟨rfl, rfl⟩
      · exact ⟨rfl, rfl⟩
  | accrueFreeze d =>
    rw [(after_accrueFreeze hop).1, accruedRows]
    split
    · exact ⟨rfl, rfl⟩
    · rename_i st hst
      rw [hst]
      rcases accrueFreezeIfEarned_cases D.cfg st d with h | ⟨-, note, h⟩ <;> rw [h] <;> exact ⟨rfl, rfl⟩
  | repair =>
    have h := after_repair (D := D) rows hop
    split at h
    · rw [h.1]
      exact ⟨rfl, rfl⟩
    · rename_i r st hr
      rw [h.1]
      obtain ⟨-, hst, -⟩ := repairable_eq_some.mp hr
      rw [hst]
      exact ⟨rfl, rfl⟩

theorem Run.quiet {start : UserRows} {calls : List Call} (h : Run D (fun _ c => Quiet c) start calls rows) :
    lastActive rows.stats = lastActive start.stats ∧ rows.timezone = start.timezone := by
  induction h with
  | nil => exact ⟨rfl, rfl⟩
  | call _ _ _ hq ih =>
    obtain ⟨h₁, h₂⟩ := hq.lastActive_eq
    exact ⟨h₁.trans ih.1, h₂.trans ih.2⟩

end Step

/-! ## What a submission costs -/

section Cost

variable {D : Deployment} {c : Call} {rows : UserRows}

/-- The freeze balance, that of a new row when there is none. -/
def freezeBalance (cfg : Settings) (stats : Option UserStats) : Int :=
  (stats.getD (newUserStats cfg)).streakFreezes

theorem exists_toRows {tx : Tx} {evs : List NewEvent} (kind : StreakEventKind) :
    (∃ r ∈ NewEvent.toRows tx evs, r.event = kind) ↔ ∃ e ∈ evs, e.event = kind := by
  simp only [NewEvent.toRows, List.mem_mapIdx]
  constructor
  · rintro ⟨r, ⟨k, hk, rfl⟩, hr⟩
    exact ⟨evs[k], List.getElem_mem hk, hr⟩
  · rintro ⟨e, he, hr⟩
    obtain ⟨k, hk, rfl⟩ := List.mem_iff_getElem.mp he
    exact ⟨_, ⟨k, hk, rfl⟩, hr⟩

/-- A submission on the last active day or later neither resets nor spends exactly when no date was missed, or every
missed date has a freeze row already. -/
theorem Recorded.costs_nothing_iff (h : Recorded D c rows) {la : Int} (hla : lastActive rows.stats = some la)
    (hle : la ≤ c.today D rows) :
    (¬ WritesReset D c rows ∧ ¬ SpendsFreeze D c rows) ↔
      (c.today D rows ≤ la + 1 ∨
        (∀ d, la < d → d < c.today D rows → freezeUsedOn rows.events d = true) ∧
          0 ≤ min (freezeBalance D.cfg rows.stats) D.cfg.streakFreezeMax) := by
  obtain ⟨st, hst, hfr, hrows⟩ := h.newRows_eq
  rw [hla] at hst
  have hfr' : st.streakFreezes = freezeBalance D.cfg rows.stats := hfr
  have hunc : (∀ d, la < d → d < c.today D rows → freezeUsedOn rows.events d = true) ↔
      uncoveredDates rows.events la (c.today D rows) = [] := by
    rw [uncoveredDates, List.filter_eq_nil_iff]
    simp [mem_missedDates]
  rw [WritesReset, SpendsFreeze, hrows, exists_toRows, exists_toRows, hunc]
  rcases countSubmission_cases D.cfg rows.events st (c.today D rows) with ⟨hl, hc⟩ | ⟨days, hs, hc⟩ | ⟨hr, hc⟩
  · rw [hst, Option.some.injEq] at hl
    rw [hc]
    simp
    omega
  · rw [hc, Counted.extension, Counted.transition_kinds _ _ _ (by decide),
      Counted.transition_kinds _ _ _ (by decide)]
    rcases hs with ⟨hl, rfl⟩ | ⟨hl, rfl⟩ | ⟨la', hl, hlt, rfl, hpay⟩
    · rw [hst] at hl
      cases hl
    · rw [hst, Option.some.injEq] at hl
      simp
      omega
    · rw [hst, Option.some.injEq] at hl
      subst hl
      rw [hfr'] at hpay
      by_cases hd : uncoveredDates rows.events la (c.today D rows) = []
      · simp only [hd, List.length_nil] at hpay
        simp only [hd]
        simp
        omega
      · simp [hd]
        omega
  · obtain ⟨la', hl, hres⟩ := hr
    rw [hst, Option.some.injEq] at hl
    subst hl
    rw [hfr'] at hres
    rw [hc]
    have hreset : ∃ e ∈ (Counted.transition D.cfg st.attempted ([].map (freezeSpentRow st)) .reset 1
        (c.today D rows)).rows, e.event = .reset :=
      (Counted.transition_kinds st 1 (c.today D rows) (by decide)).mpr (.inr rfl)
    constructor
    · intro hno
      exact absurd hreset hno.1
    · rintro (hle' | ⟨hd, hpos⟩)
      · omega
      · rw [hd] at hres
        simp only [List.length_nil] at hres
        omega

end Cost

/-! ## A change between two submissions -/

section Change

variable {D : Deployment}

/-- After the change the last active day is the earlier of what it was and "today" in the new zone. -/
theorem lastActive_after_change {c : Call} {rows : UserRows} {name : String} {la : Int}
    (hop : c.op = .changeTimezone name) (hla : lastActive rows.stats = some la) (hle : la ≤ c.today D rows) :
    lastActive (c.after D rows).stats = some (min la (localDateFor D.tz name c.time)) ∧
      (c.after D rows).timezone = name := by
  rw [(after_changeTimezone hop).1]
  refine ⟨?_, rfl⟩
  dsimp only
  unfold reconciled
  split
  · -- the zone stays, and with it the date
    rename_i hname
    rw [hla, hname]
    have : localDateFor D.tz rows.timezone c.time = c.today D rows := rfl
    rw [Option.some.injEq]
    omega
  · split
    · rename_i hst
      simp [lastActive, hst] at hla
    · rename_i st hst
      rw [hst, lastActive_some] at hla
      split
      · rename_i hl
        rw [hl] at hla
        cases hla
      · rename_i previous hl
        rw [hl, Option.some.injEq] at hla
        subst hla
        split
        · rename_i hprev
          rw [hst, lastActive_some, hl, Option.some.injEq]
          omega
        · rw [lastActive_some, Option.some.injEq]
          omega

/-- `c₁` is the last submission before the change `c` to the zone `name`, and `c₂` the first one after it; `before`
and `later` are the rows that `c` and `c₂` find. -/
structure ChangeBetween (D : Deployment) (c₁ c c₂ : Call) (name : String) (rows before later : UserRows) :
    Prop where
  first : Recorded D c₁ rows
  quiet : ∃ calls, Run D (fun _ b => Quiet b) (c₁.after D rows) calls before
  change : c.op = .changeTimezone name
  quiet' : ∃ calls, Run D (fun _ b => Quiet b) (c.after D before) calls later
  second : Recorded D c₂ later
  le : c₁.time ≤ c.time
  le' : c.time ≤ c₂.time

/-- **A time zone change between two submissions.**  In zones of fixed offsets, when the dates of the two submissions
are equal or consecutive in the new zone, the second one neither resets the streak nor spends a freeze exactly when
its date in the new zone is at most one past the first one's date in the old zone, or every date between these two
already has a freeze row (and the payable balance is not negative). -/
theorem unbroken_after_change {offset : String → Int} (htz : ∀ name t, D.tz.utcoffset name t = offset name)
    {c₁ c c₂ : Call} {name : String} {rows before later : UserRows}
    (h : ChangeBetween D c₁ c c₂ name rows before later)
    (hnew : localDateFor D.tz name c₂.time = localDateFor D.tz name c₁.time ∨
      localDateFor D.tz name c₂.time = localDateFor D.tz name c₁.time + 1) :
    (¬ WritesReset D c₂ later ∧ ¬ SpendsFreeze D c₂ later) ↔
      (localDateFor D.tz name c₂.time ≤ localDateFor D.tz rows.timezone c₁.time + 1 ∨
        (∀ d, localDateFor D.tz rows.timezone c₁.time < d → d < localDateFor D.tz name c₂.time →
          freezeUsedOn later.events d = true) ∧
          0 ≤ min (freezeBalance D.cfg later.stats) D.cfg.streakFreezeMax) := by
  have hfwd : ∀ tzName, D.tz.Forward tzName := fun tzName => TzDb.forward_of_const (htz tzName)
  obtain ⟨hla₁, htz₁⟩ := h.first.lastActive_eq
  obtain ⟨calls, hrun⟩ := h.quiet
  obtain ⟨hla₂, htz₂⟩ := hrun.quiet
  have hold : localDateFor D.tz rows.timezone c₁.time ≤ c.today D before := by
    rw [Call.today, htz₂, htz₁]
    exact hfwd _ _ _ h.le
  obtain ⟨hla₃, htz₃⟩ := lastActive_after_change h.change (hla₂.trans hla₁) hold
  obtain ⟨calls', hrun'⟩ := h.quiet'
  obtain ⟨hla₄, htz₄⟩ := hrun'.quiet
  have htoday : c₂.today D later = localDateFor D.tz name c₂.time := by
    rw [Call.today, htz₄, htz₃]
  have h₁ : localDateFor D.tz name c₁.time ≤ localDateFor D.tz name c.time := hfwd _ _ _ h.le
  have h₂ : localDateFor D.tz name c.time ≤ localDateFor D.tz name c₂.time := hfwd _ _ _ h.le'
  have hd : c₁.today D rows = localDateFor D.tz rows.timezone c₁.time := rfl
  rw [hd] at hla₁ hla₃
  rw [h.second.costs_nothing_iff (hla₄.trans hla₃) (by rw [htoday]; omega), htoday]
  by_cases hback : localDateFor D.tz name c.time < localDateFor D.tz rows.timezone c₁.time
  · -- moved back: the second submission is at most a day after the clamped date
    constructor
    · intro _
      exact .inl (by omega)
    · intro _
      exact .inl (by omega)
  · rw [Int.min_eq_left (by omega)]

end Change

/-! ### Eastward across the date line -/

/-- Half past eleven in the evening of day 100 at UTC-11. -/
def lateEvening : Int := 101 * microsPerDay + hours 10 + hours 1 / 2

/-- A submission, and the rows it leaves. -/
def eveningRows : UserRows := (Call.smallSubmit 1 lateEvening).after (.small dateLine) (.created "Pacific/Midway")

/-- The change to UTC+14 a minute later. -/
def eastward : Call := Call.small 2 (lateEvening + hours 1 / 60) (.changeTimezone "Pacific/Kiritimati")

/-- A submission another minute later, on day 102 of the new zone. -/
def afterEastward : Call := Call.smallSubmit 3 (lateEvening + hours 1 / 30)

theorem eastward_between : ChangeBetween (.small dateLine) (Call.smallSubmit 1 lateEvening) eastward afterEastward
    "Pacific/Kiritimati" (.created "Pacific/Midway") eveningRows (eastward.after (.small dateLine) eveningRows) where
  first := by decide +kernel
  quiet := ⟨[], .nil⟩
  change := rfl
  quiet' := ⟨[], .nil⟩
  second := by decide +kernel
  le := by decide +kernel
  le' := by decide +kernel

/-- A change of zone between two submissions on the same date of either zone costs a freeze. -/
theorem eastward_spends_freeze :
    ¬ ∀ (D : Deployment) (offset : String → Int), (∀ name t, D.tz.utcoffset name t = offset name) →
      ∀ (timezone : String) (calls : List Call) (rows : UserRows),
      Run D (fun _ _ => True) (.created timezone) calls rows →
      ∀ (c₁ c c₂ : Call) (name : String) (before later : UserRows),
      ChangeBetween D c₁ c c₂ name rows before later →
      (localDateFor D.tz rows.timezone c₂.time = localDateFor D.tz rows.timezone c₁.time ∨
        localDateFor D.tz rows.timezone c₂.time = localDateFor D.tz rows.timezone c₁.time + 1) →
      (localDateFor D.tz name c₂.time = localDateFor D.tz name c₁.time ∨
        localDateFor D.tz name c₂.time = localDateFor D.tz name c₁.time + 1) →
      ¬ WritesReset D c₂ later ∧ ¬ SpendsFreeze D c₂ later := by
  intro h
  refine (h (.small dateLine) dateLine (fun _ _ => rfl) _ _ _ .nil _ _ _ _ _ _ eastward_between ?_ ?_).2 ?_
  · exact .inl (by decide +kernel)
  · exact .inl (by decide +kernel)
  · decide +kernel

/-- The second submission of that change is two days past the first one's date, with no freeze row between them. -/
theorem unbroken_after_change_eastward :
    ¬ (¬ WritesReset (.small dateLine) afterEastward (eastward.after (.small dateLine) eveningRows) ∧
      ¬ SpendsFreeze (.small dateLine) afterEastward (eastward.after (.small dateLine) eveningRows)) := by
  rw [unbroken_after_change (fun _ _ => rfl) eastward_between (.inl (by decide +kernel))]
  rintro (h | ⟨h, -⟩)
  · exact absurd h (by decide +kernel)
  · exact absurd (h 101 (by decide +kernel) (by decide +kernel)) (by decide +kernel)

end CodeReader
