import CodeReader.Jobs.Partitions
import Mathlib.Data.List.Sort

/-!
# What the maintenance keeps

* `Contiguous` — consecutive months;
* `monthsToCreate_eq` — the months of a run are consecutive, from the start to the month after the reference date;
* `Created` — what a run has done when it was through: the partitions of these months, each with its rows;
* `maintained` — **the result**: over any events, after each run.
-/

namespace CodeReader.Jobs

/-- The months of one range, in any order. -/
def Contiguous (months : List Nat) : Prop := ∃ first count, months.Perm (List.range' first count)

/-! ## The months of a run -/

section Targets

variable {month nextMonth afterNext : Month} {targets : List Month}

/-- The months that a run creates are consecutive, as many as are missing and as the cap allows. -/
theorem monthsToCreate_ok {cap : Nat} (h : monthsToCreate cap month nextMonth = .ok targets) :
    targets.map Month.index = List.range' month.index (min cap (nextMonth.index + 1 - month.index)) ∧
      ∀ m ∈ targets, ∃ monthEnd, firstDayOfNextMonth m = some monthEnd := by
  induction cap generalizing month targets with
  | zero =>
    cases h
    exact ⟨by rw [Nat.zero_min]; rfl, by simp⟩
  | succ cap ih =>
    rw [monthsToCreate] at h
    split at h
    · rename_i hle
      cases hafter : firstDayOfNextMonth month with
      | none =>
        rw [hafter] at h
        cases h
      | some after =>
        cases hrest : monthsToCreate cap after nextMonth with
        | error e =>
          simp [hafter, hrest, orRaise, bind, Except.bind] at h
        | ok rest =>
          simp only [hafter, hrest, orRaise, bind, Except.bind, pure, Except.pure, Except.ok.injEq] at h
          subst h
          obtain ⟨hindexes, hends⟩ := ih hrest
          have hindex := firstDayOfNextMonth_eq_some.mp hafter
          have hcount : min (cap + 1) (nextMonth.index + 1 - month.index) =
              min cap (nextMonth.index + 1 - after.index) + 1 := by omega
          refine ⟨?_, ?_⟩
          · rw [List.map_cons, hindexes, hcount, List.range'_succ, hindex]
          · rintro m (_ | ⟨_, hm⟩)
            · exact ⟨after, hafter⟩
            · exact hends m hm
    · rename_i hle
      cases h
      have hcount : min (cap + 1) (nextMonth.index + 1 - month.index) = 0 := by omega
      exact ⟨by rw [hcount]; rfl, by simp⟩

/-- Before December 9999 nothing is raised. -/
theorem exists_monthsToCreate (hafter : firstDayOfNextMonth nextMonth = some afterNext) (cap : Nat) (month : Month) :
    ∃ targets, monthsToCreate cap month nextMonth = .ok targets := by
  induction cap generalizing month with
  | zero => exact ⟨[], rfl⟩
  | succ cap ih =>
    rw [monthsToCreate]
    split
    · rename_i hle
      have hindex := firstDayOfNextMonth_eq_some.mp hafter
      have hlast := afterNext.index_le
      obtain ⟨after, hmonth⟩ := exists_firstDayOfNextMonth (m := month) (by omega)
      obtain ⟨rest, hrest⟩ := ih after
      exact ⟨month :: rest, by rw [hmonth, orRaise]; simp only [bind, Except.bind, hrest, pure, Except.pure]⟩
    · exact ⟨[], rfl⟩

end Targets

/-! ## The months that are there -/

section Existing

variable {midnights : Midnights} {db : AttemptsTable}

theorem Placed.months_eq (h : Placed midnights db) :
    ∃ existing : List Month, (db.relations.filterMap fun r => monthOfName r.name) = existing.map some ∧
      existing.map Month.index = db.months := by
  have hmonthly := h.monthly
  unfold AttemptsTable.months
  generalize db.relations = relations at hmonthly
  induction relations with
  | nil => exact ⟨[], rfl, rfl⟩
  | cons r relations ih =>
    obtain ⟨m, hname, hbounds⟩ := hmonthly r List.mem_cons_self
    obtain ⟨existing, hnames, hmonths⟩ := ih fun r hr => hmonthly r (List.mem_cons_of_mem _ hr)
    refine ⟨m :: existing, ?_, ?_⟩
    · have hread : monthOfName r.name = some (some m) := hname ▸ monthOfName_partitionName m
      rw [List.filterMap_cons_some (f := fun r : Relation => monthOfName r.name) hread, hnames, List.map_cons]
    · have hfirst : r.bounds.map (·.1) = some m.index := by rw [hbounds, Option.map_some]
      rw [List.filterMap_cons_some (f := fun r : Relation => r.bounds.map (·.1)) hfirst, List.map_cons, hmonths]

theorem mapM_some {α : Type} (l : List α) : (l.map some).mapM id = some l := by
  induction l with
  | nil => rfl
  | cons x l ih =>
    rw [List.map_cons, List.mapM_cons, ih]
    rfl

/-- The months that are found are those of the partitions, in their order. -/
theorem existingPartitionMonths_eq (h : Placed midnights db) {first count : Nat}
    (hmonths : db.months.Perm (List.range' first count)) :
    ∃ existing, existingPartitionMonths db = .ok existing ∧ existing.map Month.index = List.range' first count := by
  obtain ⟨existing, hnames, hindexes⟩ := h.months_eq
  refine ⟨existing.mergeSort fun a b => decide (a.index ≤ b.index), ?_, ?_⟩
  · rw [existingPartitionMonths, hnames, mapM_some]
  · have hperm : ((existing.mergeSort fun a b => decide (a.index ≤ b.index)).map Month.index).Perm
        (List.range' first count) :=
      ((List.mergeSort_perm existing _).map _).trans (hindexes ▸ hmonths)
    have hsorted : ((existing.mergeSort fun a b => decide (a.index ≤ b.index)).map Month.index).Pairwise (· ≤ ·) := by
      rw [List.pairwise_map]
      have hpairwise : (existing.mergeSort fun a b => decide (a.index ≤ b.index)).Pairwise
          fun a b => decide (a.index ≤ b.index) = true := by
        refine List.pairwise_mergeSort (fun a b c hab hbc => ?_) (fun a b => ?_) existing
        · rw [decide_eq_true_eq] at *
          exact Nat.le_trans hab hbc
        · rw [Bool.or_eq_true, decide_eq_true_eq, decide_eq_true_eq]
          exact Nat.le_total _ _
      exact hpairwise.imp fun hle => of_decide_eq_true hle
    exact hperm.eq_of_pairwise' hsorted List.pairwise_le_range'

/-- The creation starts after the last partition. -/
theorem startMonth_eq {existing : List Month} {first count : Nat} (h : existing.map Month.index = List.range' first (count + 1))
    {today start : Month} (hstart : startMonth existing today = .ok start) : start.index = first + (count + 1) := by
  obtain ⟨last, hlast⟩ : ∃ last, existing.getLast? = some last := by
    cases hlast : existing.getLast? with
    | none =>
      rw [List.getLast?_eq_none_iff.mp hlast] at h
      cases h
    | some last => exact ⟨last, rfl⟩
  have hindex : last.index = first + count := by
    have hmap : (existing.map Month.index).getLast? = existing.getLast?.map Month.index := List.getLast?_map
    rw [h, hlast, List.range'_concat, List.getLast?_concat, Nat.one_mul] at hmap
    exact (Option.some.inj hmap).symm
  rw [startMonth, hlast] at hstart
  cases hnext : firstDayOfNextMonth last with
  | none => simp [hnext, orRaise] at hstart
  | some next =>
    simp only [hnext, orRaise, Except.ok.injEq] at hstart
    have := firstDayOfNextMonth_eq_some.mp hnext
    rw [← hstart]
    omega

end Existing

/-! ## What a run does -/

section Created

variable {midnights : Midnights} {db : AttemptsTable} {m : Month} {targets : List Month}

/-- The tables with the partitions of the months, each with its rows of the default partition. -/
def createdMonths (midnights : Midnights) (db : AttemptsTable) (targets : List Month) : AttemptsTable where
  relations := db.relations ++ targets.map (db.partitionOf midnights)
  defaultRows := db.defaultRows.filter fun row => targets.all fun m => !ofMonth midnights m row

theorem createdMonths_nil : createdMonths midnights db [] = db := by
  simp [createdMonths]

/-- The partitions of later months get what they would have got at first. -/
theorem createdMonths_withMonth (hm : m ∉ targets) :
    createdMonths midnights (db.withMonth midnights m) targets = createdMonths midnights db (m :: targets) := by
  have hpartition : ∀ target ∈ targets,
      (db.withMonth midnights m).partitionOf midnights target = db.partitionOf midnights target := by
    intro target htarget
    have hne : target ≠ m := fun heq => hm (heq ▸ htarget)
    have hrows : (db.defaultRows.filter fun row => !ofMonth midnights m row).filter (ofMonth midnights target) =
        db.defaultRows.filter (ofMonth midnights target) := by
      rw [List.filter_filter]
      refine List.filter_congr fun row _ => ?_
      cases htargetRow : ofMonth midnights target row with
      | false => rfl
      | true => rw [not_ofMonth_of_ne hne htargetRow, Bool.not_false, Bool.and_true]
    rw [AttemptsTable.partitionOf, AttemptsTable.partitionOf, AttemptsTable.withMonth, hrows]
  rw [createdMonths, createdMonths, List.map_congr_left hpartition]
  simp only [AttemptsTable.withMonth, List.append_assoc, List.map_cons, List.singleton_append, List.filter_filter,
    List.all_cons, Bool.and_comm]

theorem months_createdMonths : (createdMonths midnights db targets).months = db.months ++ targets.map Month.index := by
  rw [AttemptsTable.months, createdMonths, List.filterMap_append, List.filterMap_map]
  refine congrArg (db.months ++ ·) ?_
  rw [← List.filterMap_eq_map]
  rfl

/-- Another partition keeps the rows in their places. -/
theorem Placed.withMonth (h : Placed midnights db) : Placed midnights (db.withMonth midnights m) := by
  refine ⟨fun r hr => ?_, fun r hr bounds hbounds row hrow => ?_, fun r hr bounds hbounds row hrow => ?_⟩
  · rcases List.mem_append.mp hr with hr | hr
    · exact h.monthly r hr
    · cases List.mem_singleton.mp hr
      exact ⟨m, rfl, rfl⟩
  · rcases List.mem_append.mp hr with hr | hr
    · exact h.own r hr bounds hbounds row hrow
    · cases List.mem_singleton.mp hr
      cases hbounds
      exact (List.mem_filter.mp hrow).2
  · obtain ⟨hdefault, hother⟩ := List.mem_filter.mp hrow
    rcases List.mem_append.mp hr with hr | hr
    · exact h.drained r hr bounds hbounds row hdefault
    · cases List.mem_singleton.mp hr
      cases hbounds
      exact Bool.not_eq_true' _ ▸ hother

/-- The months of a run are created one after the other. -/
theorem foldlM_createPartitionForMonth (h : Placed midnights db) (hnew : ∀ m ∈ targets, m.index ∉ db.months)
    (hnodup : targets.Nodup) (hends : ∀ m ∈ targets, ∃ monthEnd, firstDayOfNextMonth m = some monthEnd) (name : String) :
    ∃ name', targets.foldlM (fun state target => createPartitionForMonth midnights state.1 target) (db, name) =
        .ok (createdMonths midnights db targets, name') ∧ Placed midnights (createdMonths midnights db targets) := by
  induction targets generalizing db name with
  | nil => exact ⟨name, by rw [createdMonths_nil]; rfl, createdMonths_nil ▸ h⟩
  | cons m targets ih =>
    obtain ⟨monthEnd, hend⟩ := hends m List.mem_cons_self
    obtain ⟨hm, hrest⟩ := List.nodup_cons.mp hnodup
    have hmonths : (db.withMonth midnights m).months = db.months ++ [m.index] := by
      have hone : (createdMonths midnights db [m]).months = db.months ++ [m.index] := months_createdMonths
      rwa [← createdMonths_withMonth List.not_mem_nil, createdMonths_nil] at hone
    have hnew' : ∀ target ∈ targets, target.index ∉ (db.withMonth midnights m).months := by
      intro target htarget hmem
      rw [hmonths] at hmem
      rcases List.mem_append.mp hmem with hmem | hmem
      · exact hnew target (List.mem_cons_of_mem _ htarget) hmem
      · exact hm (Month.index_injective (List.mem_singleton.mp hmem) ▸ htarget)
    obtain ⟨name', hfold, hplaced⟩ := ih h.withMonth hnew' hrest
      (fun target htarget => hends target (List.mem_cons_of_mem _ htarget)) (partitionName m)
    rw [createdMonths_withMonth hm] at hfold hplaced
    refine ⟨name', ?_, hplaced⟩
    rw [List.foldlM_cons, createPartitionForMonth_eq h (hnew m List.mem_cons_self) hend]
    exact hfold

theorem allRows_withMonth : (db.withMonth midnights m).allRows.Perm db.allRows := by
  rw [AttemptsTable.allRows, AttemptsTable.withMonth, List.flatMap_append, List.flatMap_singleton, List.append_assoc]
  exact (List.filter_append_perm (ofMonth midnights m) db.defaultRows).append_left _

/-- No row is lost or doubled. -/
theorem allRows_createdMonths (hnodup : targets.Nodup) : (createdMonths midnights db targets).allRows.Perm db.allRows := by
  induction targets generalizing db with
  | nil => rw [createdMonths_nil]
  | cons m targets ih =>
    obtain ⟨hm, hrest⟩ := List.nodup_cons.mp hnodup
    rw [← createdMonths_withMonth hm]
    exact (ih hrest).trans allRows_withMonth

end Created

section Run

variable {midnights : Midnights} {db : AttemptsTable} {first count : Nat}

/-- The month at which a run begins. -/
def startIndex (first count : Nat) (today : Month) : Nat := if count = 0 then today.index else first + count

theorem startMonth_index {existing : List Month} (h : existing.map Month.index = List.range' first count)
    {today start : Month} (hstart : startMonth existing today = .ok start) :
    start.index = startIndex first count today := by
  cases count with
  | zero =>
    cases List.map_eq_nil_iff.mp h
    cases hstart
    rfl
  | succ count => exact startMonth_eq h hstart

theorem exists_startMonth {existing : List Month} (h : existing.map Month.index = List.range' first count) {today : Month}
    (hlast : startIndex first count today ≤ 119999) : ∃ start, startMonth existing today = .ok start := by
  cases hexisting : existing.getLast? with
  | none => exact ⟨today, by rw [startMonth, hexisting]⟩
  | some last =>
    have hmem : last.index ∈ List.range' first count :=
      h ▸ List.mem_map_of_mem (List.mem_of_getLast? hexisting)
    rw [List.mem_range'_1] at hmem
    rw [startIndex, if_neg (by omega)] at hlast
    obtain ⟨next, hnext⟩ := exists_firstDayOfNextMonth (m := last) (by omega)
    exact ⟨next, by rw [startMonth, hexisting]; simp only [hnext, orRaise]⟩

/-- **What a run does**: it creates consecutive months, from the one after the last; and when the month after the reference
date comes before December 9999, it comes so far, or as far as the cap allows. -/
theorem runMaintenance_eq (h : Placed midnights db) (hmonths : db.months.Perm (List.range' first count)) (today : Month) :
    ∃ targets k, runMaintenance midnights db today = createdMonths midnights db targets ∧
      Placed midnights (createdMonths midnights db targets) ∧
      targets.map Month.index = List.range' (startIndex first count today) k ∧
      (∀ m ∈ targets, ∃ monthEnd, firstDayOfNextMonth m = some monthEnd) ∧
      ∀ next afterNext, firstDayOfNextMonth today = some next → firstDayOfNextMonth next = some afterNext →
        startIndex first count today ≤ next.index →
        k = min maxMonthsPerRun (next.index + 1 - startIndex first count today) := by
  obtain ⟨existing, hexisting, hindexes⟩ := existingPartitionMonths_eq h hmonths
  -- what raises is rolled back
  have hraise : ∀ e, ensureNextMonthAttemptsPartition midnights db today = .error e →
      runMaintenance midnights db today = createdMonths midnights db [] := by
    intro e he
    rw [runMaintenance, he, createdMonths_nil]
  have hplaced : Placed midnights (createdMonths midnights db []) := createdMonths_nil ▸ h
  cases hnext : firstDayOfNextMonth today with
  | none =>
    refine ⟨[], 0, hraise .yearOutOfRange ?_, hplaced, rfl, nofun, nofun⟩
    rw [ensureNextMonthAttemptsPartition, hnext]
    rfl
  | some next =>
    cases hstart : startMonth existing today with
    | error e =>
      refine ⟨[], 0, hraise e ?_, hplaced, rfl, nofun, fun next' _ _ _ hle => ?_⟩
      · rw [ensureNextMonthAttemptsPartition, hnext]
        simp only [orRaise, hexisting, hstart, bind, Except.bind]
      · have hlast := next'.index_le
        obtain ⟨start, hok⟩ := exists_startMonth hindexes (hle.trans hlast)
        rw [hstart] at hok
        cases hok
    | ok start =>
      have hstartIndex := startMonth_index hindexes hstart
      cases htargets : monthsToCreate maxMonthsPerRun start next with
      | error e =>
        refine ⟨[], 0, hraise e ?_, hplaced, rfl, nofun, fun next' afterNext heq hafter _ => ?_⟩
        · rw [ensureNextMonthAttemptsPartition, hnext]
          simp only [orRaise, hexisting, hstart, htargets, bind, Except.bind]
        · cases heq
          obtain ⟨targets, hok⟩ := exists_monthsToCreate hafter maxMonthsPerRun start
          rw [htargets] at hok
          cases hok
      | ok targets =>
        obtain ⟨hrange, hends⟩ := monthsToCreate_ok htargets
        have hnodup : targets.Nodup := by
          refine List.Nodup.of_map Month.index ?_
          rw [hrange]
          exact List.nodup_range'
        have hnew : ∀ m ∈ targets, m.index ∉ db.months := by
          intro m hm hmem
          have htarget : m.index ∈ List.range' start.index _ := hrange ▸ List.mem_map_of_mem hm
          have hold := hmonths.mem_iff.mp hmem
          rw [List.mem_range'_1] at htarget hold
          rw [hstartIndex, startIndex, if_neg (by omega)] at htarget
          omega
        obtain ⟨name, hfold, hplaced'⟩ := foldlM_createPartitionForMonth h hnew hnodup hends (partitionName next)
        refine ⟨targets, _, ?_, hplaced', hstartIndex ▸ hrange, hends, fun next' _ heq _ _ => ?_⟩
        · have hok : ensureNextMonthAttemptsPartition midnights db today = .ok (createdMonths midnights db targets, name) := by
            rw [ensureNextMonthAttemptsPartition, hnext]
            simp only [orRaise, hexisting, hstart, htargets, bind, Except.bind]
            exact hfold
          rw [runMaintenance, hok]
        · cases heq
          rfl

end Run

/-! ## Runs -/

/-- What happens to the table: an attempt is written, or the job runs. -/
inductive Event
  | insert (row : Attempt)
  | maintain (today : Month)

def step (midnights : Midnights) (db : AttemptsTable) : Event → AttemptsTable
  | .insert row => insertRow midnights db row
  | .maintain today => runMaintenance midnights db today

section Events

variable {midnights : Midnights} {db : AttemptsTable}

theorem months_insertRow (row : Attempt) : (insertRow midnights db row).months = db.months := by
  rw [insertRow]
  dsimp only
  split
  · rw [AttemptsTable.months, AttemptsTable.months, List.filterMap_map]
    refine List.filterMap_congr fun r _ => ?_
    rw [Function.comp_apply]
    split <;> rfl
  · rfl

theorem mem_relations_insertRow {row : Attempt} {r' : Relation} (h : r' ∈ (insertRow midnights db row).relations) :
    ∃ r ∈ db.relations, r'.name = r.name ∧ r'.bounds = r.bounds ∧
      ∀ x ∈ r'.rows, x ∈ r.rows ∨ x = row ∧ (r.bounds.any fun b => inRange midnights b row) = true := by
  rw [insertRow] at h
  dsimp only at h
  split at h
  · obtain ⟨r, hr, rfl⟩ := List.mem_map.mp h
    refine ⟨r, hr, ?_⟩
    split
    · rename_i hholds
      refine ⟨rfl, rfl, fun x hx => ?_⟩
      rcases List.mem_append.mp hx with hx | hx
      · exact Or.inl hx
      · exact Or.inr ⟨List.mem_singleton.mp hx, hholds⟩
    · exact ⟨rfl, rfl, fun x hx => Or.inl hx⟩
  · exact ⟨r', h, rfl, rfl, fun x hx => Or.inl hx⟩

theorem mem_defaultRows_insertRow {row x : Attempt} (h : x ∈ (insertRow midnights db row).defaultRows) :
    x ∈ db.defaultRows ∨ x = row ∧ ∀ r ∈ db.relations, ¬ (r.bounds.any fun b => inRange midnights b row) = true := by
  rw [insertRow] at h
  dsimp only at h
  split at h
  · exact Or.inl h
  · rename_i hholds
    rcases List.mem_append.mp h with hx | hx
    · exact Or.inl hx
    · exact Or.inr ⟨List.mem_singleton.mp hx, List.any_eq_false.mp (eq_false_of_ne_true hholds)⟩

/-- A row that is written comes to its place. -/
theorem Placed.insertRow (h : Placed midnights db) (row : Attempt) : Placed midnights (insertRow midnights db row) := by
  refine ⟨fun r' hr' => ?_, fun r' hr' bounds hbounds x hx => ?_, fun r' hr' bounds hbounds x hx => ?_⟩
  all_goals obtain ⟨r, hr, hname, hsame, hrows⟩ := mem_relations_insertRow hr'
  · rw [hname, hsame]
    exact h.monthly r hr
  · rw [hsame] at hbounds
    rcases hrows x hx with hold | ⟨rfl, hholds⟩
    · exact h.own r hr bounds hbounds x hold
    · rw [hbounds, Option.any_some] at hholds
      exact hholds
  · rw [hsame] at hbounds
    rcases mem_defaultRows_insertRow hx with hold | ⟨rfl, hholds⟩
    · exact h.drained r hr bounds hbounds x hold
    · have hnot := hholds r hr
      rw [hbounds, Option.any_some] at hnot
      exact eq_false_of_ne_true hnot

/-- The months of a range and the ones after it are a range. -/
theorem contiguous_append {first count k : Nat} {months : List Nat} (h : months.Perm (List.range' first count))
    (today : Month) : Contiguous (months ++ List.range' (startIndex first count today) k) := by
  by_cases hcount : count = 0
  · subst hcount
    refine ⟨today.index, k, ?_⟩
    rw [List.perm_nil.mp h, List.nil_append, startIndex, if_pos rfl]
  · refine ⟨first, count + k, ?_⟩
    rw [startIndex, if_neg hcount, ← List.range'_append_1]
    exact h.append_right _

/-- The invariant of the table. -/
structure Maintained (midnights : Midnights) (db : AttemptsTable) : Prop where
  placed : Placed midnights db
  contiguous : Contiguous db.months

theorem Maintained.step (h : Maintained midnights db) (event : Event) : Maintained midnights (step midnights db event) := by
  cases event with
  | insert row =>
    refine ⟨h.placed.insertRow row, ?_⟩
    rw [Jobs.step, months_insertRow]
    exact h.contiguous
  | maintain today =>
    obtain ⟨first, count, hmonths⟩ := h.contiguous
    obtain ⟨targets, k, hrun, hplaced, htargets, -, -⟩ := runMaintenance_eq h.placed hmonths today
    rw [Jobs.step, hrun]
    refine ⟨hplaced, ?_⟩
    rw [months_createdMonths, htargets]
    exact contiguous_append hmonths today

theorem Maintained.foldl (h : Maintained midnights db) (events : List Event) :
    Maintained midnights (events.foldl (Jobs.step midnights) db) := by
  induction events generalizing db with
  | nil => exact h
  | cons event events ih => exact ih (h.step event)

/-- The month after the reference date can be reached: it comes before December 9999, not before the first partition, and
the gap is within the cap. -/
def Reachable (db : AttemptsTable) (today next : Month) : Prop :=
  firstDayOfNextMonth today = some next ∧ (∃ afterNext, firstDayOfNextMonth next = some afterNext) ∧
    (db.months = [] ∨ (∃ i ∈ db.months, i ≤ next.index) ∧ ∃ i ∈ db.months, next.index ≤ i + maxMonthsPerRun)

/-- What one run does to the table. -/
structure RunKeeps (midnights : Midnights) (before after : AttemptsTable) (today : Month) : Prop where
  contiguous : Contiguous after.months
  conserved : after.allRows.Perm before.allRows
  /-- The partitions that were there stay as they are, and each new one has the rows of its month. -/
  partitions : ∃ targets : List Month, after.relations = before.relations ++ targets.map (before.partitionOf midnights)
  moved : ∀ row ∈ before.defaultRows, row ∈ after.defaultRows ∨
    ∃ m : Month, ofMonth midnights m row = true ∧ before.partitionOf midnights m ∈ after.relations
  placed : Placed midnights after
  reaches : ∀ next, Reachable before today next → next.index ∈ after.months

theorem Maintained.run (h : Maintained midnights db) (today : Month) :
    RunKeeps midnights db (runMaintenance midnights db today) today := by
  obtain ⟨first, count, hmonths⟩ := h.contiguous
  obtain ⟨targets, k, hrun, hplaced, htargets, -, hreach⟩ := runMaintenance_eq h.placed hmonths today
  have hnodup : targets.Nodup := List.Nodup.of_map Month.index (htargets ▸ List.nodup_range')
  have hafter : (createdMonths midnights db targets).months =
      db.months ++ List.range' (startIndex first count today) k := by
    rw [months_createdMonths, htargets]
  rw [hrun]
  refine ⟨hafter ▸ contiguous_append hmonths today, allRows_createdMonths hnodup, ⟨targets, rfl⟩, fun row hrow => ?_, hplaced,
    fun next hnext => ?_⟩
  · by_cases hall : (targets.all fun m => !ofMonth midnights m row) = true
    · exact Or.inl (List.mem_filter.mpr ⟨hrow, hall⟩)
    · obtain ⟨m, hm, hmonth⟩ := List.all_eq_false.mp (eq_false_of_ne_true hall)
      refine Or.inr ⟨m, by simpa using hmonth, ?_⟩
      exact List.mem_append_right _ (List.mem_map_of_mem hm)
  · obtain ⟨htoday, ⟨afterNext, hafterNext⟩, hrange⟩ := hnext
    have hnextIndex := firstDayOfNextMonth_eq_some.mp htoday
    rw [hafter, List.mem_append, hmonths.mem_iff, List.mem_range'_1, List.mem_range'_1]
    simp only [hmonths.mem_iff, List.mem_range'_1] at hrange
    by_cases hthere : first ≤ next.index ∧ next.index < first + count
    · exact Or.inl hthere
    · have hstart : startIndex first count today ≤ next.index ∧ next.index < startIndex first count today + maxMonthsPerRun := by
        rw [startIndex, maxMonthsPerRun] at *
        rcases hrange with hnone | ⟨⟨i, hi, hle⟩, j, hj, hcap⟩
        · rw [hnone] at hmonths
          have hcount : count = 0 := by simpa using hmonths.length_eq.symm
          rw [if_pos hcount]
          omega
        · rw [if_neg (by omega)]
          omega
      have hk := hreach next afterNext htoday hafterNext hstart.1
      rw [maxMonthsPerRun] at hk hstart
      omega

/-- **Maintenance loses no row and leaves no gap**: from partitions of consecutive months, over any attempts written and any
runs, after each run the months are consecutive, the rows are the same, those that left the default partition are in the
partition of their month, none that belongs to a partition is left there, and the month after the reference date is among
the months where it can be reached. -/
theorem maintenance_keeps (midnights : Midnights) {db : AttemptsTable} (hplaced : Placed midnights db)
    (hcontiguous : Contiguous db.months) (events : List Event) (today : Month) :
    let before := events.foldl (step midnights) db
    RunKeeps midnights before (runMaintenance midnights before today) today :=
  (Maintained.foldl ⟨hplaced, hcontiguous⟩ events).run today

end Events

/-! ## Months that are not reached -/

def emptyPartition (m : Month) : Relation := ⟨partitionName m, [], some (m.index, m.index + 1)⟩

/-- A row of September 2026. -/
def strayAttempt : Attempt where
  id := 1
  exerciseId := 1
  exerciseVersion := 1
  sessionDate := 20711
  answer := "\x7b\"line\": 1\x7d"
  gradingMode := "deterministic"
  status := .graded
  isCorrect := some true
  timeTakenMs := none
  createdAt := 20711 * microsPerDay + hours 12
  gradedAt := none

/-- The partitions that the schema comes with, and a row that neither takes. -/
def bootstrapped : AttemptsTable :=
  ⟨[emptyPartition ⟨2026, 7, by decide⟩, emptyPartition ⟨2026, 8, by decide⟩], [strayAttempt]⟩

def lastMonths : AttemptsTable :=
  ⟨[emptyPartition ⟨9999, 10, by decide⟩, emptyPartition ⟨9999, 11, by decide⟩], []⟩

theorem placed_emptyPartitions {m m' : Month} {rows : List Attempt}
    (hm : ∀ row ∈ rows, ofMonth utcMidnights m row = false) (hm' : ∀ row ∈ rows, ofMonth utcMidnights m' row = false) :
    Placed utcMidnights ⟨[emptyPartition m, emptyPartition m'], rows⟩ := by
  refine ⟨fun r hr => ?_, fun r hr bounds _ row hrow => ?_, fun r hr bounds hbounds row hrow => ?_⟩
  all_goals rcases List.mem_pair.mp hr with rfl | rfl
  · exact ⟨m, rfl, rfl⟩
  · exact ⟨m', rfl, rfl⟩
  · cases hrow
  · cases hrow
  · cases hbounds
    exact hm row hrow
  · cases hbounds
    exact hm' row hrow

theorem placed_bootstrapped : Placed utcMidnights bootstrapped :=
  placed_emptyPartitions (by decide +kernel) (by decide +kernel)

/-- The month after the reference date is within the cap, and no partition after the run. -/
def Misses (db : AttemptsTable) (today next : Month) : Prop :=
  Placed utcMidnights db ∧ Contiguous db.months ∧ firstDayOfNextMonth today = some next ∧
    (∃ i ∈ db.months, next.index ≤ i + maxMonthsPerRun) ∧ next.index ∉ (runMaintenance utcMidnights db today).months

/-- Nothing is created before the first partition, and at the end of the calendar the run raises. -/
theorem maintenance_misses : Misses bootstrapped ⟨2020, 1, by decide⟩ ⟨2020, 2, by decide⟩ ∧
    Misses lastMonths ⟨9999, 11, by decide⟩ ⟨9999, 12, by decide⟩ := by
  constructor
  · have hmonths : bootstrapped.months.Perm (List.range' 24318 2) := .refl _
    refine ⟨placed_bootstrapped, ⟨_, _, hmonths⟩, rfl, ⟨24318, by decide, by decide⟩, ?_⟩
    obtain ⟨targets, k, hrun, -, htargets, -, -⟩ := runMaintenance_eq placed_bootstrapped hmonths ⟨2020, 1, by decide⟩
    rw [hrun, months_createdMonths, htargets, List.mem_append, List.mem_range'_1]
    rintro (hmem | hmem)
    · revert hmem
      decide
    · exact absurd hmem.1 (by decide)
  · have hplaced : Placed utcMidnights lastMonths := placed_emptyPartitions (by decide) (by decide)
    have hmonths : lastMonths.months.Perm (List.range' 119997 2) := .refl _
    refine ⟨hplaced, ⟨_, _, hmonths⟩, rfl, ⟨119998, by decide, by decide⟩, ?_⟩
    obtain ⟨targets, k, hrun, -, -, hends, -⟩ := runMaintenance_eq hplaced hmonths ⟨9999, 11, by decide⟩
    rw [hrun, months_createdMonths, List.mem_append]
    rintro (hmem | hmem)
    · revert hmem
      decide
    · obtain ⟨m, hm, hindex⟩ := List.mem_map.mp hmem
      obtain ⟨monthEnd, hend⟩ := hends m hm
      have hlast := monthEnd.index_le
      rw [firstDayOfNextMonth_eq_some.mp hend, hindex] at hlast
      exact absurd hlast (by decide)

theorem maintenance_keeps_bootstrapped :
    let before := [Event.insert strayAttempt, .maintain ⟨2026, 10, by decide⟩].foldl (step utcMidnights) bootstrapped
    RunKeeps utcMidnights before (runMaintenance utcMidnights before ⟨2026, 12, by decide⟩) ⟨2026, 12, by decide⟩ :=
  maintenance_keeps utcMidnights placed_bootstrapped ⟨24318, 2, .refl _⟩ _ _

end CodeReader.Jobs
