import CodeReader.Runs.Eastward
import Mathlib.Data.List.Nodup

/-!
# The account of the freezes

What comes into the balance (`Call.added`: accruals and the grant), what goes out of it (`spentFreezes`: the
`freeze_used` rows that are not outage rows), and the dates with a row.

* `countSubmission_freezes`, `countSubmission_covers` — the account of a submission;
* `LedgerStep.freezes`, `LedgerStep.covers` — the account of a call;
* `FreezeAccount`, `freezes_conserved` — **the account of a run**.
-/

namespace CodeReader

open Txn Prog

/-! ## Counting rows -/

theorem countP_toRows (tx : Tx) (evs : List NewEvent) {p : StreakEvent → Bool} {q : NewEvent → Bool}
    (h : ∀ k e, p (e.toRow tx k) = q e) : (NewEvent.toRows tx evs).countP p = evs.countP q := by
  rw [NewEvent.toRows, List.mapIdx_eq_zipIdx_map, List.countP_map]
  have hp : (p ∘ fun x : NewEvent × Nat => x.1.toRow tx x.2) = q ∘ Prod.fst := funext fun x => h x.2 x.1
  rw [hp, ← List.countP_map, List.zipIdx_map_fst]

/-- How many freezes the ledger says were spent: its `freeze_used` rows that are not outage rows. -/
def spentFreezes (events : List StreakEvent) : Nat :=
  events.countP fun e => e.event == .freezeUsed && e.note != some "outage"

/-- How many `freeze_used` rows a date has. -/
def freezeRows (events : List StreakEvent) (d : Int) : Nat :=
  events.countP fun e => e.event == .freezeUsed && e.localDate == d

/-- The rows to insert that spend a freeze. -/
def newlySpent (evs : List NewEvent) : Nat := evs.countP fun e => e.event == .freezeUsed && e.note != some "outage"

/-- The rows to insert that cover a date. -/
def newlyCovered (evs : List NewEvent) (d : Int) : Nat :=
  evs.countP fun e => e.event == .freezeUsed && e.localDate == d

/-- The rows to insert that adjust the balance. -/
def newlyEarned (evs : List NewEvent) : Nat := evs.countP fun e => e.event == .adjusted

theorem spentFreezes_append (tx : Tx) (events : List StreakEvent) (evs : List NewEvent) :
    spentFreezes (events ++ NewEvent.toRows tx evs) = spentFreezes events + newlySpent evs := by
  rw [spentFreezes, List.countP_append]
  exact congrArg (_ + ·) (countP_toRows tx evs (q := fun e => e.event == .freezeUsed && e.note != some "outage") fun _ _ => rfl)

theorem freezeRows_append (tx : Tx) (events : List StreakEvent) (evs : List NewEvent) (d : Int) :
    freezeRows (events ++ NewEvent.toRows tx evs) d = freezeRows events d + newlyCovered evs d := by
  rw [freezeRows, List.countP_append]
  exact congrArg (_ + ·) (countP_toRows tx evs (q := fun e => e.event == .freezeUsed && e.localDate == d) fun _ _ => rfl)

theorem freezeRows_eq_zero {events : List StreakEvent} {d : Int} :
    freezeRows events d = 0 ↔ freezeUsedOn events d = false := by
  rw [freezeRows, List.countP_eq_zero, freezeUsedOn, List.any_eq_false]

theorem freezeSpentRow_note (st : UserStats) (d : Int) : (freezeSpentRow st d).note ≠ some "outage" := by
  intro h
  have ht := congrArg (fun s : String => s.toList.head?) (Option.some.inj h)
  simp [toString, String.toList_append] at ht

theorem spent_newlySpent (st : UserStats) (days : List Int) : newlySpent (days.map (freezeSpentRow st)) = days.length := by
  rw [newlySpent, List.countP_map, List.countP_eq_length]
  intro d _
  simpa [freezeSpentRow] using freezeSpentRow_note st d

theorem spent_newlyEarned (st : UserStats) (days : List Int) : newlyEarned (days.map (freezeSpentRow st)) = 0 := by
  rw [newlyEarned, List.countP_map, List.countP_eq_zero]
  exact fun d _ => Bool.false_ne_true

theorem spent_newlyCovered (st : UserStats) (days : List Int) (d : Int) :
    newlyCovered (days.map (freezeSpentRow st)) d = days.count d := by
  rw [newlyCovered, List.countP_map, List.count]
  rfl

/-! ## The account of a submission -/

/-- An accrual adds the freezes that its rows say, up to the cap. -/
theorem accrueFreezeIfEarned_freezes (cfg : Settings) (st : UserStats) (d : Int) :
    let r := accrueFreezeIfEarned cfg st d
    r.1.streakFreezes = st.streakFreezes + newlyEarned r.2 ∧
      r.1.streakFreezes ≤ max st.streakFreezes cfg.streakFreezeMax ∧
      newlySpent r.2 = 0 ∧ ∀ d', newlyCovered r.2 d' = 0 := by
  intro r
  rcases accrueFreezeIfEarned_cases cfg st d with h | ⟨hlt, note, h⟩
  · simp only [r, h]
    exact ⟨(Int.add_zero _).symm, Int.le_max_left _ _, rfl, fun _ => rfl⟩
  · simp only [r, h]
    exact ⟨rfl, by omega, rfl, fun _ => rfl⟩

/-- The account of a transition that pays for `days` from the stats `st`. -/
theorem Counted.transition_account (cfg : Settings) (st stats : UserStats) (days : List Int) (event : StreakEventKind)
    (toValue today : Int) (hevent : event.isTransition) :
    let c := Counted.transition cfg st (days.map (freezeSpentRow stats)) event toValue today
    c.stats.streakFreezes = st.streakFreezes + newlyEarned c.rows ∧
      c.stats.streakFreezes ≤ max st.streakFreezes cfg.streakFreezeMax ∧
      newlySpent c.rows = days.length ∧ ∀ d, newlyCovered c.rows d = days.count d := by
  intro c
  have hacc := accrueFreezeIfEarned_freezes cfg (transitionStats st toValue today) today
  obtain ⟨hadd, hcap, hspent, hcov⟩ := hacc
  have hown : newlySpent [⟨event, st.currentStreak, toValue, today, none⟩] = 0 ∧
      newlyEarned [⟨event, st.currentStreak, toValue, today, none⟩] = 0 ∧
      ∀ d, newlyCovered [⟨event, st.currentStreak, toValue, today, none⟩] d = 0 := by
    cases event with
    | extended => exact ⟨rfl, rfl, fun _ => rfl⟩
    | reset => exact ⟨rfl, rfl, fun _ => rfl⟩
    | freezeUsed => cases hevent
    | repaired => cases hevent
    | adjusted => cases hevent
  have happ : ∀ a b : List NewEvent, newlySpent (a ++ b) = newlySpent a + newlySpent b ∧
      newlyEarned (a ++ b) = newlyEarned a + newlyEarned b ∧
      ∀ d, newlyCovered (a ++ b) d = newlyCovered a d + newlyCovered b d :=
    fun a b => ⟨List.countP_append, List.countP_append, fun _ => List.countP_append⟩
  simp only [c, Counted.transition, (happ _ _).1, (happ _ _).2.1, (happ _ _).2.2, spent_newlySpent,
    spent_newlyEarned, spent_newlyCovered, hown.1, hown.2.1, hown.2.2]
  split
  · rw [hadd, hspent]
    refine ⟨by simp [transitionStats], ?_, by simp, fun d => by simp [hcov]⟩
    rw [hadd] at hcap
    exact hcap
  · exact ⟨by simp [transitionStats, newlyEarned], Int.le_max_left _ _, by simp [newlySpent],
      fun d => by simp [newlyCovered]⟩

theorem missedDates_nodup (lastActive today : Int) : (missedDates lastActive today).Nodup := by
  refine List.Nodup.map (fun a b h => ?_) List.nodup_range
  omega

theorem uncoveredDates_count (events : List StreakEvent) (lastActive today d : Int) :
    (uncoveredDates events lastActive today).count d ≤ if freezeUsedOn events d then 0 else 1 := by
  split
  · rename_i hused
    refine Nat.le_of_eq (List.count_eq_zero.mpr fun hd => ?_)
    simp [uncoveredDates, hused] at hd
  · exact List.nodup_iff_count_le_one.mp ((missedDates_nodup lastActive today).filter _) d

/-- **The account of a submission**: what its rows earn comes in, what they spend goes out, between nothing and the
cap; and it covers uncovered dates, each once. -/
theorem countSubmission_freezes (cfg : Settings) (events : List StreakEvent) (st : UserStats) (today : Int) :
    let c := countSubmission cfg events st today
    c.stats.streakFreezes = st.streakFreezes + newlyEarned c.rows - newlySpent c.rows ∧
      c.stats.streakFreezes ≤ max st.streakFreezes cfg.streakFreezeMax ∧
      (0 ≤ st.streakFreezes → 0 ≤ c.stats.streakFreezes) ∧
      ∀ d, newlyCovered c.rows d ≤ if freezeUsedOn events d then 0 else 1 := by
  intro c
  rcases countSubmission_cases cfg events st today with ⟨-, h⟩ | ⟨days, hs, h⟩ | ⟨-, h⟩
  · simp only [c, h]
    exact ⟨by simp [UserStats.attempted, newlyEarned, newlySpent], Int.le_max_left _ _, id,
      fun d => Nat.zero_le _⟩
  · have hpay : 0 ≤ st.streakFreezes → (days.length : Int) ≤ st.streakFreezes := by
      intro h₀
      rcases hs with ⟨-, rfl⟩ | ⟨-, rfl⟩ | ⟨la, -, -, -, hle⟩
      · exact h₀
      · exact h₀
      · omega
    have hcount : ∀ d, days.count d ≤ if freezeUsedOn events d then 0 else 1 := by
      intro d
      rcases hs with ⟨-, rfl⟩ | ⟨-, rfl⟩ | ⟨la, -, -, rfl, -⟩
      · exact Nat.zero_le _
      · exact Nat.zero_le _
      · exact uncoveredDates_count ..
    obtain ⟨hadd, hcap, hspent, hcov⟩ := Counted.transition_account cfg (st.attempted.spend days.length)
      (st.attempted.spend days.length) days .extended ((st.attempted.spend days.length).currentStreak + 1) today rfl
    have hst : (st.attempted.spend days.length).streakFreezes = st.streakFreezes - days.length := rfl
    rw [hst] at hadd hcap
    simp only [c, h, Counted.extension]
    refine ⟨?_, ?_, fun h₀ => ?_, fun d => ?_⟩
    · rw [hadd, hspent]
      omega
    · omega
    · have := hpay h₀
      rw [hadd]
      omega
    · rw [hcov]
      exact hcount d
  · obtain ⟨hadd, hcap, hspent, hcov⟩ := Counted.transition_account cfg st.attempted st.attempted [] .reset 1 today rfl
    rw [List.map_nil] at hadd hcap hspent hcov
    have hst : st.attempted.streakFreezes = st.streakFreezes := rfl
    rw [hst] at hadd hcap
    simp only [c, h]
    refine ⟨?_, hcap, fun h₀ => ?_, fun d => ?_⟩
    · rw [hadd, hspent]
      simp
    · rw [hadd]
      omega
    · rw [hcov]
      exact Nat.zero_le _

/-! ## The account of a call -/

section Call

variable {D : Deployment} {c : Call} {rows : UserRows}

/-- What a call adds to the balance: one freeze for each row of an accrual, and what a grant that wrote its row had
to add. -/
def Call.added (D : Deployment) (c : Call) (rows : UserRows) : Int :=
  match c.op with
  | .submit .. | .accrueFreeze _ => (newRows D c rows).countP fun e => e.event == .adjusted
  | .grantInitialFreezes _ =>
    if newRows D c rows = [] then 0
    else min D.cfg.streakFreezeStart D.cfg.streakFreezeMax - freezeBalance D.cfg rows.stats
  | _ => 0

/-- What the calls of a run add. -/
def addedFreezes (D : Deployment) : List Call → UserRows → Int
  | [], _ => 0
  | c :: calls, rows => c.added D rows + addedFreezes D calls (c.after D rows)

theorem gradedStats_freezes (cfg : Settings) (type : String) (grade : Grade) (stats : Option UserStats) :
    (gradedStats cfg type grade stats).streakFreezes = freezeBalance cfg stats := by
  unfold gradedStats
  cases grade.isCorrect <;> rfl

/-- What a step adds to the balance. -/
def stepAdded (D : Deployment) (c : Call) (rows : UserRows) (evs : List NewEvent) : Int :=
  match c.op with
  | .submit .. | .accrueFreeze _ => newlyEarned evs
  | .grantInitialFreezes _ =>
    if evs = [] then 0 else min D.cfg.streakFreezeStart D.cfg.streakFreezeMax - freezeBalance D.cfg rows.stats
  | _ => 0

theorem newRows_eq {evs : List NewEvent} (h : (c.after D rows).events = rows.events ++ NewEvent.toRows c.tx evs) :
    newRows D c rows = NewEvent.toRows c.tx evs := by
  rw [newRows, h]
  exact List.drop_left

theorem added_eq {evs : List NewEvent} (h : (c.after D rows).events = rows.events ++ NewEvent.toRows c.tx evs) :
    c.added D rows = stepAdded D c rows evs := by
  have hearned : (newRows D c rows).countP (fun e => e.event == .adjusted) = newlyEarned evs := by
    rw [newRows_eq h]
    exact countP_toRows c.tx evs fun _ _ => rfl
  have hnil : newRows D c rows = [] ↔ evs = [] := by
    rw [newRows_eq h, NewEvent.toRows, List.mapIdx_eq_nil_iff]
  simp only [Call.added, stepAdded, hearned, hnil]

/-- The account of a step: what it adds comes in, what its rows spend goes out, between nothing and the cap; and it
covers uncovered dates, each once. -/
theorem LedgerStep.freezes {stats' : Option UserStats} {evs : List NewEvent} (h : LedgerStep D c rows stats' evs) :
    freezeBalance D.cfg stats' = freezeBalance D.cfg rows.stats + stepAdded D c rows evs - newlySpent evs ∧
      freezeBalance D.cfg stats' ≤ max (freezeBalance D.cfg rows.stats) D.cfg.streakFreezeMax ∧
      (0 ≤ freezeBalance D.cfg rows.stats → 0 ≤ freezeBalance D.cfg stats') ∧
      ∀ d, newlyCovered evs d ≤ if freezeUsedOn rows.events d then 0 else 1 := by
  cases h with
  | unchanged =>
    have hadded : stepAdded D c rows [] = 0 := by
      unfold stepAdded
      cases c.op <;> rfl
    refine ⟨?_, Int.le_max_left _ _, id, fun d => Nat.zero_le _⟩
    rw [hadded]
    simp [newlySpent]
  | @recorded e key payload type grade hop hr =>
    have hc := countSubmission_freezes D.cfg rows.events (gradedStats D.cfg type grade rows.stats)
      (c.env D rows.timezone e).today
    rw [gradedStats_freezes] at hc
    simp only [stepAdded, hop]
    exact hc
  | @reconciled name st previous hop hst hlast hback =>
    simp only [stepAdded, hop, hst]
    exact ⟨by simp [freezeBalance, newlySpent, reconcileRow], Int.le_max_left _ _, id, fun d => Nat.zero_le _⟩
  | @filled d st hop hst hlast hnew =>
    simp only [stepAdded, hop, hst]
    refine ⟨by simp [newlySpent], Int.le_max_left _ _, id, fun d' => ?_⟩
    by_cases hd : d = d'
    · rw [← hd, hnew]
      exact List.countP_le_length
    · simp [newlyCovered, hd]
  | @granted d st note hop hst hlow =>
    have hb : freezeBalance D.cfg rows.stats = st.streakFreezes := by
      rw [hst]
      rfl
    simp only [stepAdded, hop, hb]
    refine ⟨?_, ?_, fun h₀ => ?_, fun d' => Nat.zero_le _⟩
    · have hnone : ∀ evs : List NewEvent, evs.all (·.event == .adjusted) → newlySpent evs = 0 := by
        intro evs hall
        refine List.countP_eq_zero.mpr fun e he => ?_
        have hadjusted : e.event = .adjusted := beq_iff_eq.mp (List.all_eq_true.mp hall e he)
        simp [hadjusted]
      rw [hnone _ rfl, if_neg (List.cons_ne_nil _ _)]
      simp only [freezeBalance, Option.getD_some]
      omega
    · simp only [freezeBalance, Option.getD_some]
      omega
    · simp only [freezeBalance, Option.getD_some]
      omega
  | @accrued d st hop hst =>
    obtain ⟨hadd, hcap, hspent, hcov⟩ := accrueFreezeIfEarned_freezes D.cfg st d
    simp only [stepAdded, hop, hst, freezeBalance, Option.getD_some]
    refine ⟨?_, hcap, fun h₀ => ?_, fun d' => ?_⟩
    · rw [hadd, hspent]
      simp
    · rw [hadd]
      omega
    · rw [hcov]
      exact Nat.zero_le _
  | @repaired r st hop hr =>
    obtain ⟨-, hst, -⟩ := repairable_eq_some.mp hr
    simp only [stepAdded, hop, hst]
    exact ⟨by simp [freezeBalance, newlySpent, repairRow], Int.le_max_left _ _, id, fun d => Nat.zero_le _⟩

end Call

/-! ## The account of a run -/

theorem Run.rows_eq {D : Deployment} {P : UserRows → Call → Prop} {start rows : UserRows} {calls : List Call}
    (h : Run D P start calls rows) : rows = calls.foldl (fun rows c => c.after D rows) start := by
  induction h with
  | nil => rfl
  | call _ _ _ _ ih => rw [List.foldl_append, ← ih, List.foldl_cons, List.foldl_nil]

theorem addedFreezes_append (D : Deployment) (calls : List Call) (c : Call) (start : UserRows) :
    addedFreezes D (calls ++ [c]) start =
      addedFreezes D calls start + c.added D (calls.foldl (fun rows c => c.after D rows) start) := by
  induction calls generalizing start with
  | nil => simp [addedFreezes]
  | cons b calls ih =>
    rw [List.cons_append, addedFreezes, addedFreezes, ih, List.foldl_cons]
    omega

theorem LedgerStep.stepAdded_nonneg {D : Deployment} {c : Call} {rows : UserRows} {stats' : Option UserStats}
    {evs : List NewEvent} (h : LedgerStep D c rows stats' evs) : 0 ≤ stepAdded D c rows evs := by
  unfold stepAdded
  split
  · exact Int.natCast_nonneg _
  · exact Int.natCast_nonneg _
  · rename_i d hd
    cases h with
    | granted hop hst hlow =>
      simp only [freezeBalance, hst, Option.getD_some, reduceCtorEq, if_false]
      omega
    | unchanged => exact Int.le_refl _
    | recorded hop => exact absurd (hop.symm.trans hd) Op.noConfusion
    | reconciled hop => exact absurd (hop.symm.trans hd) Op.noConfusion
    | filled hop => exact absurd (hop.symm.trans hd) Op.noConfusion
    | accrued hop => exact absurd (hop.symm.trans hd) Op.noConfusion
    | repaired hop => exact absurd (hop.symm.trans hd) Op.noConfusion
  · exact Int.le_refl _

/-- The account after the calls of a run: the balance and what bounds it, and the dates covered. -/
structure FreezeAccount (D : Deployment) (added : Int) (rows : UserRows) : Prop where
  balance : freezeBalance D.cfg rows.stats = D.cfg.streakFreezeStart + added - spentFreezes rows.events
  added : 0 ≤ added
  cap : freezeBalance D.cfg rows.stats ≤ max D.cfg.streakFreezeStart D.cfg.streakFreezeMax
  nonneg : 0 ≤ D.cfg.streakFreezeStart → 0 ≤ freezeBalance D.cfg rows.stats
  once : ∀ d, freezeRows rows.events d ≤ 1

theorem FreezeAccount.call {D : Deployment} {added : Int} {rows : UserRows} (h : FreezeAccount D added rows)
    (c : Call) : FreezeAccount D (added + c.added D rows) (c.after D rows) := by
  obtain ⟨evs, hev, hstep⟩ := c.ledgerStep D rows
  obtain ⟨hadd, hcap, hnonneg, hcov⟩ := hstep.freezes
  have hbalance := h.balance
  have hadded := h.added
  have hmax := h.cap
  refine ⟨?_, ?_, by omega, fun hstart => hnonneg (h.nonneg hstart), fun d => ?_⟩
  · rw [added_eq hev, hev, spentFreezes_append, hadd]
    omega
  · have := hstep.stepAdded_nonneg
    rw [added_eq hev]
    omega
  · rw [hev, freezeRows_append]
    have hd := hcov d
    split at hd
    · have := h.once d
      omega
    · rename_i hused
      rw [Bool.not_eq_true, ← freezeRows_eq_zero] at hused
      omega

theorem Run.freezeAccount {D : Deployment} {P : UserRows → Call → Prop} {timezone : String} {calls : List Call}
    {rows : UserRows} (h : Run D P (.created timezone) calls rows) :
    FreezeAccount D (addedFreezes D calls (.created timezone)) rows := by
  induction h with
  | nil =>
    refine ⟨?_, Int.le_refl _, Int.le_max_left _ _, id, fun d => Nat.zero_le _⟩
    simp [freezeBalance, newUserStats, addedFreezes, spentFreezes, UserRows.created]
  | call hrun _ _ _ ih =>
    rw [addedFreezes_append, ← hrun.rows_eq]
    exact ih.call _

/-- **The freezes are conserved.**  In every run from the creation of the user, with a starting balance that is not
negative: the balance is neither negative nor above both the starting balance and the cap; it is the starting balance
with what accruals and the grant added, without the freezes spent; and no date has two `freeze_used` rows. -/
theorem freezes_conserved {D : Deployment} (hstart : 0 ≤ D.cfg.streakFreezeStart) {timezone : String}
    {calls : List Call} {rows : UserRows} (h : Run D (fun _ _ => True) (.created timezone) calls rows) :
    0 ≤ freezeBalance D.cfg rows.stats ∧
      freezeBalance D.cfg rows.stats ≤ max D.cfg.streakFreezeStart D.cfg.streakFreezeMax ∧
      freezeBalance D.cfg rows.stats =
        D.cfg.streakFreezeStart + addedFreezes D calls (.created timezone) - spentFreezes rows.events ∧
      ∀ d, freezeRows rows.events d ≤ 1 := by
  have hacc := h.freezeAccount
  exact ⟨hacc.nonneg hstart, hacc.cap, hacc.balance, hacc.once⟩

/-- A submission, an outage on the next day, and a submission two days after it: one of the two missed days is paid
for. -/
def outageReturn : List Call :=
  [Call.smallSubmit 1 0, Call.small 2 microsPerDay (.outageFreeze 1), Call.smallSubmit 3 (3 * microsPerDay)]

theorem freezes_conserved_outageReturn :
    let D := Deployment.small fun _ => 0
    let rows := outageReturn.foldl (fun rows c => c.after D rows) (.created "UTC")
    0 ≤ D.cfg.streakFreezeStart ∧ Run D (fun _ _ => True) (.created "UTC") outageReturn rows ∧
      spentFreezes rows.events = 1 ∧ freezeRows rows.events 1 = 1 ∧ freezeBalance D.cfg rows.stats = 2 + 0 - 1 := by
  intro D rows
  have hstart : 0 ≤ D.cfg.streakFreezeStart := by decide
  have hops : ∀ c ∈ outageReturn, (∀ j k, j < k → c.eventId j < c.eventId k) ∧ ∀ _ : UserRows, True := by
    intro c hc
    simp only [outageReturn, List.mem_cons, List.not_mem_nil, or_false] at hc
    rcases hc with rfl | rfl | rfl <;> exact ⟨Call.small_increasing _ _ _, fun _ => trivial⟩
  have hrun : Run D (fun _ _ => True) (.created "UTC") outageReturn rows :=
    Run.of_runnable .nil hops (by decide +kernel)
  obtain ⟨-, -, hbalance, -⟩ := freezes_conserved hstart hrun
  have hspent : spentFreezes rows.events = 1 := by decide +kernel
  have hadded : addedFreezes D outageReturn (.created "UTC") = 0 := by decide +kernel
  refine ⟨hstart, hrun, hspent, by decide +kernel, ?_⟩
  rw [hbalance, hspent, hadded]
  rfl

end CodeReader
