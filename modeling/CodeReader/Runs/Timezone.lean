import CodeReader.Runs.LedgerStep

/-!
# Time zone changes and the once-per-day index

A submission counts its day unless the day is `last_active_local_date`; the reconciliation moves that date back
without touching the ledger.  So a day can be counted, rewound past, and counted again, which the unique index on
the transition rows refuses.

* `Rewound` — a day that was counted and then rewound past;
* `Covers` — every counted day is at most the last active one, or rewound: the invariant of the runs;
* `one_transition_per_day` — **the index fires only on rewound days**, and in zones whose date never runs back it
  fires on every one of them.
-/

namespace CodeReader

open Txn Prog

/-- The day was counted, and a later reconciliation moved the boundary back before it. -/
def Rewound (events : List StreakEvent) (d : Int) : Prop :=
  ∃ t r, [t, r].Sublist events ∧ t.event.isTransition ∧ t.localDate = d ∧ r.event = .repaired ∧ r.localDate < d

theorem Rewound.append {events : List StreakEvent} {d : Int} (h : Rewound events d) (new : List StreakEvent) :
    Rewound (events ++ new) d := by
  obtain ⟨t, r, hs, h⟩ := h
  exact ⟨t, r, hs.trans (List.sublist_append_left _ _), h⟩

theorem Rewound.transitionOn {events : List StreakEvent} {d : Int} (h : Rewound events d) :
    transitionOn events d = true := by
  obtain ⟨t, r, hs, ht, hd, -⟩ := h
  rw [CodeReader.transitionOn, List.any_eq_true]
  exact ⟨t, hs.subset (by simp), by simp [ht, hd]⟩

/-- Every day with a transition row is at most the last active day, or rewound. -/
def Covers (rows : UserRows) : Prop :=
  ∀ t ∈ rows.events, t.event.isTransition →
    (∃ la, lastActive rows.stats = some la ∧ t.localDate ≤ la) ∨ Rewound rows.events t.localDate

/-- The operations of the runs: submissions and time zone changes. -/
def SubmitsOrMoves (c : Call) : Prop :=
  (∃ e key payload, c.op = .submit e key payload) ∨ ∃ name, c.op = .changeTimezone name

section Step

variable {D : Deployment} {c : Call} {rows : UserRows}

theorem mem_toRows_isTransition {tx : Tx} {evs : List NewEvent} {t : StreakEvent}
    (h : t ∈ NewEvent.toRows tx evs) (ht : t.event.isTransition) :
    ∃ e ∈ evs.filter (·.event.isTransition), t.localDate = e.localDate := by
  simp only [NewEvent.toRows, List.mem_mapIdx] at h
  obtain ⟨k, hk, rfl⟩ := h
  exact ⟨evs[k], List.mem_filter.mpr ⟨List.getElem_mem hk, ht⟩, rfl⟩

/-- One call: a submission keeps the invariant when its day is not before the last active one. -/
theorem Covers.step (h : Covers rows) (hop : SubmitsOrMoves c)
    (hle : ∀ e key payload, c.op = .submit e key payload →
      ∀ la, lastActive rows.stats = some la → la ≤ c.today D rows) : Covers (c.after D rows) := by
  obtain ⟨evs, hev, hstep⟩ := c.ledgerStep D rows
  -- an older transition row stays covered when the last active day does not move back
  have hold : (∀ la, lastActive rows.stats = some la → ∃ la', lastActive (c.after D rows).stats = some la' ∧ la ≤ la') →
      ∀ t ∈ rows.events, t.event.isTransition →
        (∃ la, lastActive (c.after D rows).stats = some la ∧ t.localDate ≤ la) ∨
          Rewound (c.after D rows).events t.localDate := by
    intro hmono t ht htr
    rcases h t ht htr with ⟨la, hla, htla⟩ | hr
    · obtain ⟨la', hla', hle'⟩ := hmono la hla
      exact .inl ⟨la', hla', by omega⟩
    · rw [hev]
      exact .inr (hr.append _)
  intro t ht htr
  rw [hev, List.mem_append] at ht
  generalize hst : (c.after D rows).stats = stats' at hstep hold ⊢
  cases hstep with
  | unchanged =>
    rcases ht with ht | ht
    · exact hold (fun la hla => ⟨la, hla, Int.le_refl la⟩) t ht htr
    · simp [NewEvent.toRows] at ht
  | @recorded e key payload type grade hop' hr =>
    have hla' : (counted D.cfg (c.env D rows.timezone e) type grade rows).stats.lastActiveLocalDate =
        some (c.today D rows) := countSubmission_lastActive _ _ _ _
    rcases ht with ht | ht
    · exact hold (fun la hla => ⟨_, hla', hle _ _ _ hop' la hla⟩) t ht htr
    · obtain ⟨row, hrow, htd⟩ := mem_toRows_isTransition ht htr
      refine .inl ⟨_, hla', ?_⟩
      rcases countSubmission_filter D.cfg rows.events (gradedStats D.cfg type grade rows.stats)
        (c.env D rows.timezone e).today with ⟨-, hc⟩ | ⟨-, row', -, hd, hf⟩
      · rw [counted, hc] at hrow
        simp at hrow
      · rw [counted, hf, List.mem_singleton] at hrow
        rw [htd, hrow, hd]
        exact Int.le_refl _
  | @reconciled name st previous hop' hs hl hback =>
    rcases ht with ht | ht
    · by_cases hlt : localDateFor D.tz name c.time < t.localDate
      · -- rewound past: the new row comes after the transition row
        let row := reconcileRow st.currentStreak rows.timezone name previous (localDateFor D.tz name c.time)
        refine .inr ⟨t, row.toRow c.tx 0, ?_, htr, rfl, rfl, hlt⟩
        rw [hev]
        exact List.Sublist.append (List.singleton_sublist.mpr ht) (List.Sublist.refl _)
      · exact .inl ⟨localDateFor D.tz name c.time, rfl, by omega⟩
    · obtain ⟨row, hrow, -⟩ := mem_toRows_isTransition ht htr
      simp [reconcileRow, StreakEventKind.isTransition] at hrow
  | filled hop' =>
    rcases hop with ⟨e, key, payload, h⟩ | ⟨name, h⟩ <;> rw [h] at hop' <;> cases hop'
  | granted hop' =>
    rcases hop with ⟨e, key, payload, h⟩ | ⟨name, h⟩ <;> rw [h] at hop' <;> cases hop'
  | accrued hop' =>
    rcases hop with ⟨e, key, payload, h⟩ | ⟨name, h⟩ <;> rw [h] at hop' <;> cases hop'
  | repaired hop' =>
    rcases hop with ⟨e, key, payload, h⟩ | ⟨name, h⟩ <;> rw [h] at hop' <;> cases hop'

theorem clashes_counted (rows : UserRows) (e : SubmitEnv) (type : String) (grade : Grade) :
    clashes rows.events (counted D.cfg (c.env D rows.timezone e) type grade rows).rows = true ↔
      lastActive rows.stats ≠ some (c.today D rows) ∧ transitionOn rows.events (c.today D rows) = true := by
  rw [counted, clashes_countSubmission, gradedStats_lastActive]
  exact Iff.rfl

/-- Only a submission whose transition row clashes fails on the index. -/
theorem result_secondTransition (hop : SubmitsOrMoves c) (h : c.result D rows = .error secondTransition) :
    ∃ e key payload, c.op = .submit e key payload ∧
      lastActive rows.stats ≠ some (c.today D rows) ∧ transitionOn rows.events (c.today D rows) = true := by
  rcases hop with ⟨e, key, payload, hop⟩ | ⟨name, hop⟩
  · obtain ⟨res, hs, hres⟩ := after_submit (D := D) rows hop
    rw [hres] at h
    generalize c.after D rows = rows' at hs
    cases hs with
    | recorded => cases h
    | replayed => cases h
    | violated hv =>
      obtain ⟨type, grade, -, -, hc⟩ := hv
      exact ⟨e, key, payload, hop, (clashes_counted rows e type grade).mp hc⟩
    | refused hne =>
      simp only [Except.map, Except.error.injEq] at h
      exact absurd h hne
  · rw [(after_changeTimezone hop).2] at h
    cases h

/-- **When the index does not fire**: the submission falls on the last active day, or on a later day that was not
rewound past. -/
def Unrewound (D : Deployment) (rows : UserRows) (c : Call) : Prop :=
  ∀ e key payload, c.op = .submit e key payload → lastActive rows.stats = some (c.today D rows) ∨
    (∀ la, lastActive rows.stats = some la → la ≤ c.today D rows) ∧ ¬ Rewound rows.events (c.today D rows)

theorem Unrewound.le (h : Unrewound D rows c) (e : SubmitEnv) (key : String) (payload : AttemptRequest)
    (hop : c.op = .submit e key payload) (la : Int) (hla : lastActive rows.stats = some la) :
    la ≤ c.today D rows := by
  rcases h e key payload hop with ht | ⟨hle, -⟩
  · rw [hla, Option.some.injEq] at ht
    omega
  · exact hle la hla

/-- A counted day that is not the last active one was rewound past, when it is not before the last active one. -/
theorem Covers.rewound (h : Covers rows) {d : Int} (hle : ∀ la, lastActive rows.stats = some la → la ≤ d)
    (hne : lastActive rows.stats ≠ some d) (ht : transitionOn rows.events d = true) : Rewound rows.events d := by
  obtain ⟨t, hmem, htd⟩ := List.any_eq_true.mp ht
  simp only [Bool.and_eq_true, beq_iff_eq] at htd
  obtain ⟨htr, rfl⟩ := htd
  rcases h t hmem htr with ⟨la, hla, hlt⟩ | hr
  · have hle' := hle la hla
    exact absurd (by rw [hla, Option.some.injEq]; omega) hne
  · exact hr

end Step

/-! ## Runs -/

section Runs

variable {D : Deployment} {start rows : UserRows} {calls : List Call}

theorem Run.covers (h : Run D (fun rows c => SubmitsOrMoves c ∧ Unrewound D rows c) start calls rows)
    (h₀ : Covers start) : Covers rows := by
  induction h with
  | nil => exact h₀
  | call _ _ _ hp ih => exact ih.step hp.1 hp.2.le

/-- In zones whose date never runs back, no later submission falls before the last active day. -/
def NotAhead (D : Deployment) (calls : List Call) (rows : UserRows) : Prop :=
  ∀ t, (∀ b ∈ calls, b.time ≤ t) → ∀ la, lastActive rows.stats = some la → la ≤ localDateFor D.tz rows.timezone t

theorem NotAhead.step {c : Call} (hfwd : ∀ name, D.tz.Forward name) (h : NotAhead D calls rows)
    (hop : SubmitsOrMoves c) : NotAhead D (calls ++ [c]) (c.after D rows) := by
  intro t hle la hla
  have hct : c.time ≤ t := hle c (by simp)
  have hbt : ∀ b ∈ calls, b.time ≤ t := fun b hb => hle b (by simp [hb])
  rcases hop with ⟨e, key, payload, hop⟩ | ⟨name, hop⟩
  · obtain ⟨res, hs, -⟩ := after_submit (D := D) rows hop
    generalize c.after D rows = rows' at hs hla ⊢
    cases hs with
    | @recorded type grade hr =>
      have hd : some (localDateFor D.tz rows.timezone c.time) = some la :=
        (countSubmission_lastActive ..).symm.trans hla
      rw [Option.some.injEq] at hd
      rw [← hd]
      exact hfwd _ _ _ hct
    | replayed => exact h t hbt la hla
    | violated => exact h t hbt la hla
    | refused => exact h t hbt la hla
  · rw [(after_changeTimezone hop).1] at hla ⊢
    have hnew : localDateFor D.tz name c.time ≤ localDateFor D.tz name t := hfwd _ _ _ hct
    dsimp only at hla ⊢
    unfold reconciled at hla
    split at hla
    · -- the same zone: nothing moves
      rename_i hname
      rw [hname]
      exact h t hbt la hla
    · split at hla
      · rename_i hst
        simp [lastActive, hst] at hla
      · rename_i st hst
        split at hla
        · rename_i hl
          simp [lastActive, hst, hl] at hla
        · rename_i previous hl
          split at hla
          · rename_i hprev
            have hp : previous = la := by
              rw [hst, lastActive_some, hl, Option.some.injEq] at hla
              exact hla
            omega
          · simp only [lastActive_some, Option.some.injEq] at hla
            omega

/-- In such zones every run keeps the invariant. -/
theorem Run.covers_of_forward (hfwd : ∀ name, D.tz.Forward name)
    (h : Run D (fun _ c => SubmitsOrMoves c) start calls rows) (h₀ : Covers start) (hn : NotAhead D [] start) :
    Covers rows ∧ NotAhead D calls rows := by
  induction h with
  | nil => exact ⟨h₀, hn⟩
  | call _ htime _ hop ih =>
    obtain ⟨hc, ha⟩ := ih
    exact ⟨hc.step hop fun _ _ _ _ la hla => ha _ htime la hla, ha.step hfwd hop⟩

end Runs

theorem covers_created (timezone : String) : Covers (.created timezone) := by
  intro t ht
  simp [UserRows.created] at ht

/-- **The unique index and time zones.**  In every run of submissions and time zone changes whose submissions fall
on the last active day, or on a later day not rewound past, the index over the transition rows never fires.  And in
zones whose local date never runs back it would fire on every other submission: the streak step of a submission
inserts a second transition row of its day exactly when that condition fails. -/
theorem one_transition_per_day (D : Deployment) (timezone : String) :
    (∀ calls rows c, Run D (fun rows c => SubmitsOrMoves c ∧ Unrewound D rows c) (.created timezone) calls rows →
      SubmitsOrMoves c → Unrewound D rows c → c.result D rows ≠ .error secondTransition) ∧
    ((∀ name, D.tz.Forward name) →
      ∀ calls rows c e key payload, Run D (fun _ c => SubmitsOrMoves c) (.created timezone) calls rows →
        (∀ b ∈ calls, b.time ≤ c.time) → c.op = .submit e key payload → ∀ type grade,
          (clashes rows.events (counted D.cfg (c.env D rows.timezone e) type grade rows).rows = true ↔
            ¬ Unrewound D rows c)) := by
  constructor
  · intro calls rows c hrun hop hun hres
    obtain ⟨e, key, payload, hsub, hne, ht⟩ := result_secondTransition hop hres
    have hcov := hrun.covers (covers_created timezone)
    rcases hun e key payload hsub with hl | ⟨hle, hr⟩
    · exact hne hl
    · exact hr (hcov.rewound hle hne ht)
  · intro hfwd calls rows c e key payload hrun ht hop type grade
    have hn₀ : NotAhead D [] (.created timezone) := by
      intro t _ la hla
      cases hla
    obtain ⟨hcov, hn⟩ := hrun.covers_of_forward hfwd (covers_created timezone) hn₀
    have hle : ∀ la, lastActive rows.stats = some la → la ≤ c.today D rows := hn c.time ht
    rw [clashes_counted]
    constructor
    · rintro ⟨hne, hd⟩ hun
      rcases hun e key payload hop with hl | ⟨-, hr⟩
      · exact hne hl
      · exact hr (hcov.rewound hle hne hd)
    · intro hun
      by_contra hnot
      refine hun fun e' key' payload' _ => ?_
      by_cases hl : lastActive rows.stats = some (c.today D rows)
      · exact .inl hl
      · exact .inr ⟨hle, fun hr => hnot ⟨hl, hr.transitionOn⟩⟩

/-! ### Across the date line -/

/-- The zones on the two sides of the date line, at UTC+14 and UTC-11. -/
def dateLine (name : String) : Int :=
  if name = "Pacific/Kiritimati" then hours 14 else if name = "Pacific/Midway" then hours (-11) else 0

/-- Day 101 counted on the eastern side, the zone changed to the western side where day 100 is not over, and a
submission there a day later. -/
def crossing : List Call :=
  [Call.smallSubmit 1 (100 * microsPerDay + hours 12),
    Call.small 2 (100 * microsPerDay + hours 13) (.changeTimezone "Pacific/Midway")]

def crossed : UserRows :=
  crossing.foldl (fun rows c => c.after (.small dateLine) rows) (.created "Pacific/Kiritimati")

def afterCrossing : Call := Call.smallSubmit 3 (101 * microsPerDay + hours 12)

theorem crossing_run : Run (.small dateLine) (fun _ c => SubmitsOrMoves c) (.created "Pacific/Kiritimati")
    crossing crossed := by
  have hops : ∀ c ∈ crossing, (∀ j k, j < k → c.eventId j < c.eventId k) ∧ ∀ _ : UserRows, SubmitsOrMoves c := by
    simp only [crossing, List.forall_mem_cons]
    exact ⟨⟨Call.small_increasing _ _ _, fun _ => .inl ⟨_, _, _, rfl⟩⟩,
      ⟨Call.small_increasing _ _ _, fun _ => .inr ⟨_, rfl⟩⟩, by simp⟩
  exact Run.of_runnable .nil hops (by decide +kernel)

/-- The index fires on a submission of a day that a time zone change had rewound past. -/
theorem second_transition_after_crossing :
    ¬ ∀ (D : Deployment) (timezone : String) (calls : List Call) (rows : UserRows) (c : Call),
      Run D (fun _ c => SubmitsOrMoves c) (.created timezone) calls rows → (∀ b ∈ calls, b.time ≤ c.time) →
        c.Fresh rows → SubmitsOrMoves c → c.result D rows ≠ .error secondTransition := by
  intro h
  refine h _ _ crossing crossed afterCrossing crossing_run (by decide +kernel) ?_ (.inl ⟨_, _, _, rfl⟩) ?_
  · exact ⟨Call.small_increasing _ _ _, by decide +kernel, by decide +kernel⟩
  · decide +kernel

/-- After the crossing the next submission is on a rewound day; a user who stays in one zone is not. -/
theorem one_transition_per_day_crossing :
    ¬ Unrewound (.small dateLine) crossed afterCrossing ∧
      (Call.smallSubmit 2 microsPerDay).result (.small dateLine)
        ((Call.smallSubmit 1 0).after (.small dateLine) (.created "UTC")) ≠ .error secondTransition := by
  have hfwd : ∀ name, (Deployment.small dateLine).tz.Forward name := TzDb.forward_fixed dateLine
  have h₀ : Unrewound (.small dateLine) (.created "UTC") (Call.smallSubmit 1 0) := by
    intro e key payload hop
    refine .inr ⟨fun la hla => (by cases hla), ?_⟩
    rintro ⟨t, r, hs, -⟩
    cases hs
  have h₁ : Run (.small dateLine) (fun rows c => SubmitsOrMoves c ∧ Unrewound (.small dateLine) rows c)
      (.created "UTC") [Call.smallSubmit 1 0] _ :=
    .call .nil (by simp) ⟨Call.small_increasing _ _ _, by decide +kernel, by decide +kernel⟩
      ⟨.inl ⟨_, _, _, rfl⟩, h₀⟩
  constructor
  · exact ((one_transition_per_day (.small dateLine) "Pacific/Kiritimati").2 hfwd crossing crossed afterCrossing
      _ _ _ crossing_run (by decide +kernel) rfl "trace" .skip).mp (by decide +kernel)
  · refine (one_transition_per_day (.small dateLine) "UTC").1 _ _ _ h₁ (.inl ⟨_, _, _, rfl⟩) ?_
    intro e key payload hop
    refine .inr ⟨?_, fun hr => absurd hr.transitionOn (by decide +kernel)⟩
    intro la hla
    have h : lastActive ((Call.smallSubmit 1 0).after (.small dateLine) (.created "UTC")).stats = some 0 := by
      decide +kernel
    rw [h, Option.some.injEq] at hla
    rw [← hla]
    decide +kernel

end CodeReader
