import CodeReader.Runs.Chain

/-!
# Runs in one time zone

A user who keeps the time zone, and calls whose local dates do not decrease: every day is counted once, in the
order of the days, and `last_active_local_date` never runs ahead of the calls.

* `Stays` — the calls that leave the zone alone;
* `transitionDays` — the days with a transition row, in the order of the ledger;
* `ZoneInv` — the invariant; `ZoneInv.step` keeps it, `Run.zoneInv` is the induction.
-/

namespace CodeReader

open Txn Prog

/-- The call does not change the time zone. -/
def Stays (c : Call) : Prop := ∀ name, c.op ≠ .changeTimezone name

/-- The days of the transition rows, in the order of the ledger. -/
def transitionDays (events : List StreakEvent) : List Int :=
  (events.filter (·.event.isTransition)).map (·.localDate)

/-- The local dates of the calls do not decrease. -/
def OnDates (D : Deployment) (timezone : String) (calls : List Call) : Prop :=
  calls.Pairwise fun b c => localDateFor D.tz timezone b.time ≤ localDateFor D.tz timezone c.time

/-- In a zone whose date never runs back, the dates of a run do not. -/
theorem Run.onDates {D : Deployment} {timezone : String} {P : UserRows → Call → Prop} {start rows : UserRows}
    {calls : List Call} (hfwd : D.tz.Forward timezone) (h : Run D P start calls rows) : OnDates D timezone calls := by
  induction h with
  | nil => exact List.Pairwise.nil
  | @call calls rows c _ ht _ _ ih =>
    refine List.pairwise_append.mpr ⟨ih, List.pairwise_singleton _ _, fun b hb c' hc' => ?_⟩
    rw [List.mem_singleton] at hc'
    rw [hc']
    exact hfwd _ _ (ht b hb)

section Step

variable {D : Deployment} {c : Call} {rows : UserRows}

/-- Only zone changes write the zone. -/
theorem Stays.timezone_eq (h : Stays c) : (c.after D rows).timezone = rows.timezone := by
  cases hop : c.op with
  | submit e key payload =>
    obtain ⟨res, hs, -⟩ := after_submit (D := D) rows hop
    generalize c.after D rows = rows' at hs ⊢
    cases hs <;> rfl
  | changeTimezone name => exact absurd hop (h name)
  | outageFreeze d =>
    rw [(after_outageFreeze hop).1, fillOutage]
    split
    · rfl
    · split <;> rfl
  | grantInitialFreezes d =>
    rw [(after_grantInitialFreezes hop).1, grantFreezes]
    split
    · rfl
    · split <;> rfl
  | accrueFreeze d =>
    rw [(after_accrueFreeze hop).1, accruedRows]
    split <;> rfl
  | repair =>
    have hr := after_repair (D := D) rows hop
    split at hr
    · rw [hr.1]
    · rw [hr.1]
      rfl

/-- A step that writes rows has written the stats, or found them. -/
theorem LedgerStep.stats_eq_none {stats' : Option UserStats} {evs : List NewEvent}
    (h : LedgerStep D c rows stats' evs) (hn : stats' = none) : evs = [] ∧ rows.stats = none := by
  cases h with
  | unchanged => exact ⟨rfl, hn⟩
  | recorded hop hr => cases hn
  | reconciled hop hst hlast hback => cases hn
  | filled hop hst hlast hnew => cases hn
  | granted hop hst hlow => cases hn
  | accrued hop hst => cases hn
  | repaired hop hr => cases hn

end Step

/-! ## The new rows -/

/-- What the new rows keep of the values they are made of: a filter on the kind and a field beside the id. -/
theorem toRows_filter_map {β : Type} (tx : Tx) (p : StreakEventKind → Bool) (f : StreakEvent → β) (g : NewEvent → β)
    (hfg : ∀ k e, f (NewEvent.toRow tx k e) = g e) (evs : List NewEvent) :
    ((NewEvent.toRows tx evs).filter fun r => p r.event).map f = (evs.filter fun e => p e.event).map g := by
  have hgen : ∀ (row : Nat → NewEvent → StreakEvent), (∀ k e, (row k e).event = e.event) →
      (∀ k e, f (row k e) = g e) →
      ((evs.mapIdx row).filter fun r => p r.event).map f = (evs.filter fun e => p e.event).map g := by
    induction evs with
    | nil => intro row _ _; rfl
    | cons e evs ih =>
      intro row hk hrow
      rw [List.mapIdx_cons, List.filter_cons, List.filter_cons, hk]
      have ih' := ih (fun k => row (k + 1)) (fun k => hk (k + 1)) fun k => hrow (k + 1)
      split
      · rw [List.map_cons, List.map_cons, hrow, ih']
      · exact ih'
  exact hgen _ (fun _ _ => rfl) hfg

theorem transitionDays_append (events : List StreakEvent) (tx : Tx) (evs : List NewEvent) :
    transitionDays (events ++ NewEvent.toRows tx evs) =
      transitionDays events ++ (evs.filter (·.event.isTransition)).map (·.localDate) := by
  unfold transitionDays
  rw [List.filter_append, List.map_append]
  congr 1
  exact toRows_filter_map tx StreakEventKind.isTransition _ _ (fun _ _ => rfl) evs

theorem createdAt_of_mem_toRows {tx : Tx} {evs : List NewEvent} {r : StreakEvent} (h : r ∈ NewEvent.toRows tx evs) :
    r.createdAt = tx.startedAt := by
  obtain ⟨k, hk, rfl⟩ := mem_toRows.mp h
  rfl

/-! ## The invariant -/

/-- What runs in one time zone keep. -/
structure ZoneInv (D : Deployment) (timezone : String) (calls : List Call) (rows : UserRows) : Prop where
  timezone_eq : rows.timezone = timezone
  days : (transitionDays rows.events).Pairwise (· < ·)
  active : ∀ d ∈ transitionDays rows.events, ∃ la, lastActive rows.stats = some la ∧ d ≤ la
  called : ∀ la, lastActive rows.stats = some la → ∃ b ∈ calls, la = localDateFor D.tz timezone b.time
  created : rows.events.Pairwise (·.createdAt ≤ ·.createdAt)
  createdAt : ∀ e ∈ rows.events, ∃ b ∈ calls, e.createdAt = b.time
  stats : rows.stats = none → rows.events = []

namespace ZoneInv

variable {D : Deployment} {timezone : String} {calls : List Call} {rows : UserRows} {c : Call}

theorem start (D : Deployment) (timezone : String) : ZoneInv D timezone [] (.created timezone) where
  timezone_eq := rfl
  days := List.Pairwise.nil
  active d hd := by cases hd
  called la hla := by cases hla
  created := List.Pairwise.nil
  createdAt e he := by cases he
  stats _ := rfl

/-- The last active day is not after a call that the others precede. -/
theorem lastActive_le (h : ZoneInv D timezone calls rows) (hd : OnDates D timezone (calls ++ [c])) {la : Int}
    (hla : lastActive rows.stats = some la) : la ≤ localDateFor D.tz timezone c.time := by
  obtain ⟨b, hb, rfl⟩ := h.called la hla
  exact (List.pairwise_append.mp hd).2.2 b hb c (by simp)

theorem step (h : ZoneInv D timezone calls rows) (ht : ∀ b ∈ calls, b.time ≤ c.time)
    (hd : OnDates D timezone (calls ++ [c])) (hstay : Stays c) :
    ZoneInv D timezone (calls ++ [c]) (c.after D rows) := by
  obtain ⟨evs, hev, hstep⟩ := c.ledgerStep D rows
  have hnew : ∀ r ∈ NewEvent.toRows c.tx evs, r.createdAt = c.time := fun r hr => createdAt_of_mem_toRows hr
  have hdays : transitionDays (c.after D rows).events =
      transitionDays rows.events ++ (evs.filter (·.event.isTransition)).map (·.localDate) := by
    rw [hev]
    exact transitionDays_append _ _ _
  have htoday : c.today D rows = localDateFor D.tz timezone c.time := by rw [Call.today, h.timezone_eq]
  refine ⟨hstay.timezone_eq.trans h.timezone_eq, ?_, ?_, ?_, ?_, ?_, ?_⟩
  · rw [hdays]
    rcases hstep.transitions hstay with ⟨hf, -⟩ | ⟨hne, -, -, row, -, hrow, hf⟩
    · rw [hf, List.map_nil, List.append_nil]
      exact h.days
    · -- the new day is after the last active one, and so after all that are counted
      rw [hf]
      refine List.pairwise_append.mpr ⟨h.days, List.pairwise_singleton _ _, fun d hdm d' hd' => ?_⟩
      rw [List.map_singleton, List.mem_singleton] at hd'
      obtain ⟨la, hla, hle⟩ := h.active d hdm
      have hla' := h.lastActive_le hd hla
      rw [hla, ne_eq, Option.some.injEq] at hne
      omega
  · intro d hdm
    rw [hdays, List.mem_append] at hdm
    rcases hstep.transitions hstay with ⟨hf, hl⟩ | ⟨-, hl, -, row, -, hrow, hf⟩
    · rw [hf] at hdm
      rw [hl]
      exact h.active d (by simpa using hdm)
    · refine ⟨_, hl, ?_⟩
      rcases hdm with hdm | hdm
      · obtain ⟨la, hla, hle⟩ := h.active d hdm
        have hla' := h.lastActive_le hd hla
        omega
      · rw [hf, List.map_singleton, List.mem_singleton] at hdm
        omega
  · intro la hla
    rcases hstep.transitions hstay with ⟨-, hl⟩ | ⟨-, hl, -⟩
    · rw [hl] at hla
      obtain ⟨b, hb, he⟩ := h.called la hla
      exact ⟨b, by simp [hb], he⟩
    · rw [hl, Option.some.injEq] at hla
      exact ⟨c, by simp, by omega⟩
  · rw [hev]
    refine List.pairwise_append.mpr ⟨h.created, ?_, fun e he r hr => ?_⟩
    · refine List.pairwise_of_forall_mem_list fun r hr r' hr' => ?_
      have h₁ := hnew r hr
      have h₂ := hnew r' hr'
      omega
    · obtain ⟨b, hb, hbe⟩ := h.createdAt e he
      rw [hnew r hr, hbe]
      exact ht b hb
  · intro e he
    rw [hev, List.mem_append] at he
    rcases he with he | he
    · obtain ⟨b, hb, hbe⟩ := h.createdAt e he
      exact ⟨b, by simp [hb], hbe⟩
    · exact ⟨c, by simp, hnew e he⟩
  · intro hn
    obtain ⟨hevs, hst⟩ := hstep.stats_eq_none hn
    rw [hev, hevs, h.stats hst]
    rfl

end ZoneInv

theorem Run.zoneInv {D : Deployment} {timezone : String} {P : UserRows → Call → Prop} {calls : List Call}
    {rows : UserRows} (hP : ∀ rows c, P rows c → Stays c) (h : Run D P (.created timezone) calls rows)
    (hd : OnDates D timezone calls) : ZoneInv D timezone calls rows := by
  induction h with
  | nil => exact .start D timezone
  | call _ ht _ hp ih => exact (ih (List.pairwise_append.mp hd).1).step ht hd (hP _ _ hp)

/-- The shape of the rows of a ledger. -/
theorem Run.shaped {D : Deployment} {timezone : String} {P : UserRows → Call → Prop} {calls : List Call}
    {rows : UserRows} (h : Run D P (.created timezone) calls rows) :
    ∀ e ∈ rows.events, Shaped e.event e.fromValue e.toValue := by
  induction h with
  | nil => intro e he; cases he
  | @call calls rows c _ _ _ _ ih =>
    intro e he
    obtain ⟨evs, hev, hstep⟩ := c.ledgerStep D rows
    rw [hev, List.mem_append] at he
    rcases he with he | he
    · exact ih e he
    · obtain ⟨k, hk, rfl⟩ := mem_toRows.mp he
      exact hstep.shaped (List.getElem_mem hk)

end CodeReader
