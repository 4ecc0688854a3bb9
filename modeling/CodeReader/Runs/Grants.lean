import CodeReader.Runs.Freezes

/-!
# The grant of the starting balance

A stats row is born with the starting balance, which no ledger row says; the one-time grant skips a user by the
marker of its own row.  So the grant does not see that a user with a row of after the change was given the balance.

* `accrueFreezeIfEarned_unmarked`, `LedgerStep.unmarked` — only the grant writes its marker;
* `Throughout` — what every call of a run meets on the rows it finds;
* `initial_grant_once` — **exactly when no call of a run grants again**.
-/

namespace CodeReader

open Txn Prog

/-! ## The marker -/

/-- Some row has the marker of the grant. -/
def hasGrantRow (events : List StreakEvent) : Bool :=
  events.any fun se => se.event == .adjusted && noteContains se.note backfillMarker

theorem bracket_notMem_repr (n : Int) : '[' ∉ n.repr.toList := by
  have hnat : ∀ m : Nat, '[' ∉ m.repr.toList := by
    intro m h
    rw [Nat.toList_repr] at h
    exact absurd (Nat.isDigit_of_mem_toDigits (by decide) (by decide) h) (by decide)
  cases n with
  | ofNat m => exact hnat m
  | negSucc m =>
    intro h
    have hm : '[' ∈ ("-" ++ (m + 1).repr).toList := h
    rw [String.toList_append, List.mem_append] at hm
    rcases hm with hm | hm
    · exact absurd hm (by decide)
    · exact hnat _ hm

/-- The row of an accrual does not have the marker. -/
theorem accrueFreezeIfEarned_unmarked {cfg : Settings} {st : UserStats} {d : Int} {e : NewEvent}
    (h : e ∈ (accrueFreezeIfEarned cfg st d).2) : noteContains e.note backfillMarker = false := by
  have hbracket : '[' ∈ backfillMarker.toList := by decide
  simp only [accrueFreezeIfEarned] at h
  split at h
  · cases h
  · split at h
    · cases h
    · rw [List.mem_singleton] at h
      subst h
      simp only [noteContains, decide_eq_false_iff_not]
      intro hinfix
      have hmem := hinfix.subset hbracket
      simp only [toString, String.toList_append, List.mem_append, bracket_notMem_repr, or_false] at hmem
      revert hmem
      decide

theorem countSubmission_unmarked {cfg : Settings} {events : List StreakEvent} {st : UserStats} {today : Int}
    {e : NewEvent} (h : e ∈ (countSubmission cfg events st today).rows) (hk : e.event = .adjusted) :
    noteContains e.note backfillMarker = false := by
  have htransition : ∀ (st stats : UserStats) (days : List Int) (event : StreakEventKind) (toValue : Int),
      event ≠ .adjusted → e ∈ (Counted.transition cfg st (days.map (freezeSpentRow stats)) event toValue today).rows →
      noteContains e.note backfillMarker = false := by
    intro st stats days event toValue hne he
    simp only [Counted.transition, List.mem_append, List.mem_singleton, List.mem_map] at he
    rcases he with (⟨d, -, rfl⟩ | rfl) | he
    · cases hk
    · exact absurd hk hne
    · split at he
      · exact accrueFreezeIfEarned_unmarked he
      · cases he
  rcases countSubmission_cases cfg events st today with ⟨-, hc⟩ | ⟨days, -, hc⟩ | ⟨-, hc⟩ <;> rw [hc] at h
  · cases h
  · exact htransition _ _ days .extended _ (by decide) h
  · exact htransition _ st [] .reset _ (by decide) h

section Step

variable {D : Deployment} {c : Call} {rows : UserRows}

/-- A step that is no grant writes no row with the marker. -/
theorem LedgerStep.unmarked {stats' : Option UserStats} {evs : List NewEvent} (h : LedgerStep D c rows stats' evs)
    (hop : ∀ d, c.op ≠ .grantInitialFreezes d) {e : NewEvent} (he : e ∈ evs) (hk : e.event = .adjusted) :
    noteContains e.note backfillMarker = false := by
  cases h with
  | unchanged => cases he
  | recorded => exact countSubmission_unmarked he hk
  | reconciled =>
    rw [List.mem_singleton] at he
    rw [he] at hk
    cases hk
  | filled =>
    rw [List.mem_singleton] at he
    rw [he] at hk
    cases hk
  | granted hgrant => exact absurd hgrant (hop _)
  | accrued => exact accrueFreezeIfEarned_unmarked he
  | repaired =>
    rw [List.mem_singleton] at he
    rw [he] at hk
    cases hk

theorem hasGrantRow_after (hop : ∀ d, c.op ≠ .grantInitialFreezes d) :
    hasGrantRow (c.after D rows).events = hasGrantRow rows.events := by
  obtain ⟨evs, hev, hstep⟩ := c.ledgerStep D rows
  have hnew : hasGrantRow (NewEvent.toRows c.tx evs) = false := by
    rw [hasGrantRow, List.any_eq_false]
    intro r hr
    obtain ⟨k, hk, rfl⟩ := mem_toRows.mp hr
    rw [Bool.and_eq_true, not_and, beq_iff_eq, Bool.not_eq_true]
    exact hstep.unmarked hop (List.getElem_mem hk)
  rw [hev, hasGrantRow, List.any_append]
  exact (congrArg (_ || ·) hnew).trans (Bool.or_false _)

/-- The grant raises the balance of a user whose stats row was created with the starting balance, and who has spent
of it. -/
def Regrants (D : Deployment) (c : Call) (rows : UserRows) : Prop :=
  (∃ d, c.op = .grantInitialFreezes d) ∧ 0 < spentFreezes rows.events ∧
    freezeBalance D.cfg rows.stats < freezeBalance D.cfg (c.after D rows).stats

/-- A grant finds no stats row, or one with what it would grant. -/
def FindsAllowance (D : Deployment) (rows : UserRows) (c : Call) : Prop :=
  ∀ d st, c.op = .grantInitialFreezes d → rows.stats = some st →
    min D.cfg.streakFreezeStart D.cfg.streakFreezeMax ≤ st.streakFreezes

/-- A grant that finds the allowance leaves the rows as they are. -/
theorem FindsAllowance.after_eq (h : FindsAllowance D rows c) {d : Int} (hop : c.op = .grantInitialFreezes d) :
    c.after D rows = rows := by
  rw [(after_grantInitialFreezes hop).1, grantFreezes]
  split
  · rfl
  · rename_i st hst
    rw [if_neg]
    intro hlow
    have := h d st hop hst
    omega

theorem FindsAllowance.hasGrantRow_eq (h : FindsAllowance D rows c) :
    hasGrantRow (c.after D rows).events = hasGrantRow rows.events := by
  by_cases hop : ∃ d, c.op = .grantInitialFreezes d
  · obtain ⟨d, hd⟩ := hop
    rw [h.after_eq hd]
  · exact hasGrantRow_after fun d hd => hop ⟨d, hd⟩

/-- Over a ledger without the marker a grant raises whoever does not have the allowance. -/
theorem findsAllowance_of_not_raised (hmark : hasGrantRow rows.events = false)
    (h : ∀ d, c.op = .grantInitialFreezes d →
      ¬ freezeBalance D.cfg rows.stats < freezeBalance D.cfg (c.after D rows).stats) : FindsAllowance D rows c := by
  intro d st hop hst
  by_contra hlow
  have hguard : st.streakFreezes < min D.cfg.streakFreezeStart D.cfg.streakFreezeMax ∧
      ¬ (rows.events.any fun se => se.event == .adjusted && noteContains se.note backfillMarker) = true :=
    ⟨by omega, by rw [Bool.not_eq_true]; exact hmark⟩
  refine h d hop ?_
  rw [(after_grantInitialFreezes hop).1, grantFreezes, hst]
  dsimp only
  rw [if_pos hguard]
  exact hguard.1

end Step

/-! ## Runs -/

/-- Every call of the run from `rows` meets `P` on the rows it finds. -/
def Throughout (D : Deployment) (P : UserRows → Call → Prop) : List Call → UserRows → Prop
  | [], _ => True
  | c :: calls, rows => P rows c ∧ Throughout D P calls (c.after D rows)

theorem throughout_append {D : Deployment} {P : UserRows → Call → Prop} {calls : List Call} {c : Call}
    {start : UserRows} : Throughout D P (calls ++ [c]) start ↔
      Throughout D P calls start ∧ P (calls.foldl (fun rows c => c.after D rows) start) c := by
  induction calls generalizing start with
  | nil => exact and_comm
  | cons b calls ih =>
    rw [List.cons_append, Throughout, Throughout, ih, List.foldl_cons, and_assoc]

/-- While every grant finds the allowance, no row has the marker. -/
theorem Run.unmarked {D : Deployment} {P : UserRows → Call → Prop} {timezone : String} {calls : List Call}
    {rows : UserRows} (h : Run D P (.created timezone) calls rows)
    (hall : Throughout D (FindsAllowance D) calls (.created timezone)) : hasGrantRow rows.events = false := by
  induction h with
  | nil => rfl
  | call hrun _ _ _ ih =>
    rw [throughout_append, ← hrun.rows_eq] at hall
    rw [hall.2.hasGrantRow_eq]
    exact ih hall.1

/-- **Exactly when no call of a run grants again.**  In a run from the creation of the user no grant raises a balance
that was spent from, if and only if every grant finds no stats row or one with the allowance. -/
theorem initial_grant_once {D : Deployment} {timezone : String} {calls : List Call} {rows : UserRows}
    (h : Run D (fun _ _ => True) (.created timezone) calls rows) :
    Throughout D (fun rows c => ¬ Regrants D c rows) calls (.created timezone) ↔
      Throughout D (FindsAllowance D) calls (.created timezone) := by
  induction h with
  | nil => exact Iff.rfl
  | @call calls rows c hrun _ _ _ ih =>
    rw [throughout_append, throughout_append, ← hrun.rows_eq, ih]
    refine and_congr_right fun hall => ⟨fun hno => ?_, fun hfinds => ?_⟩
    · -- whoever is below the allowance has spent of it, and no marker keeps the grant away
      refine findsAllowance_of_not_raised (hrun.unmarked hall) fun d hop hraised => hno ⟨⟨d, hop⟩, ?_, hraised⟩
      have hacc := hrun.freezeAccount
      have hbalance := hacc.balance
      have hadded := hacc.added
      have hlow : freezeBalance D.cfg rows.stats < min D.cfg.streakFreezeStart D.cfg.streakFreezeMax := by
        rw [(after_grantInitialFreezes hop).1, grantFreezes] at hraised
        split at hraised
        · exact absurd hraised (Int.lt_irrefl _)
        · split at hraised
          · exact hraised
          · exact absurd hraised (Int.lt_irrefl _)
      omega
    · rintro ⟨⟨d, hop⟩, -, hraised⟩
      rw [hfinds.after_eq hop] at hraised
      exact Int.lt_irrefl _ hraised

/-- A submission, one two days late that spends both freezes, and the grant. -/
def spentThenGrant : List Call :=
  [Call.smallSubmit 1 0, Call.smallSubmit 2 (3 * microsPerDay), Call.small 3 (3 * microsPerDay) (.grantInitialFreezes 3)]

theorem spentThenGrant_runs {calls : List Call} (hc : calls ⊆ spentThenGrant)
    (hr : runnable (.small fun _ => 0) [] (.created "UTC") calls = true) :
    Run (.small fun _ => 0) (fun _ _ => True) (.created "UTC") calls
      (calls.foldl (fun rows c => c.after (.small fun _ => 0) rows) (.created "UTC")) := by
  refine Run.of_runnable .nil (fun c hmem => ⟨?_, fun _ => trivial⟩) hr
  have hin := hc hmem
  simp only [spentThenGrant, List.mem_cons, List.not_mem_nil, or_false] at hin
  rcases hin with rfl | rfl | rfl <;> exact Call.small_increasing _ _ _

/-- A user born with the starting balance, who spent it, is granted it again. -/
theorem grant_raises_spent :
    ¬ ∀ (D : Deployment) (timezone : String) (calls : List Call) (rows : UserRows),
      Run D (fun _ _ => True) (.created timezone) calls rows →
      Throughout D (fun rows c => ¬ Regrants D c rows) calls (.created timezone) := by
  intro hall
  have hrun := spentThenGrant_runs (List.Subset.refl spentThenGrant) (by decide +kernel)
  obtain ⟨-, -, hno, -⟩ := hall _ _ _ _ hrun
  exact hno ⟨⟨3, rfl⟩, by decide +kernel, by decide +kernel⟩

/-- A grant before the freezes are spent. -/
theorem initial_grant_once_unspent :
    let D := Deployment.small fun _ => 0
    let calls := [Call.smallSubmit 1 0, Call.small 3 (3 * microsPerDay) (.grantInitialFreezes 3)]
    Run D (fun _ _ => True) (.created "UTC") calls (calls.foldl (fun rows c => c.after D rows) (.created "UTC")) ∧
      Throughout D (fun rows c => ¬ Regrants D c rows) calls (.created "UTC") := by
  intro D calls
  have hsub : calls ⊆ spentThenGrant := by simp [calls, spentThenGrant]
  have hrun := spentThenGrant_runs hsub (by decide +kernel)
  have hbalance : ((Call.smallSubmit 1 0).after D (.created "UTC")).stats.map (·.streakFreezes) = some 2 := by
    decide +kernel
  refine ⟨hrun, (initial_grant_once hrun).mpr ⟨fun d st hop => absurd hop Op.noConfusion, fun d st _ hst => ?_, trivial⟩⟩
  rw [hst, Option.map_some, Option.some.injEq] at hbalance
  rw [hbalance]
  decide

end CodeReader
