import CodeReader.Core.Months
import CodeReader.Models.UserState

/-!
# The monthly partitions of `attempts`

* `AttemptsTable` — the relations that are named after a month, each a partition or still a table, and the default one;
* `createPartitionOf`, `createTableLike`, `moveRows`, `attachPartition` — the statements of the job, with what PostgreSQL
  refuses;
* `ensureNextMonthAttemptsPartition` — the job;
* `Placed` — what PostgreSQL keeps of the rows, and `createPartitionForMonth_eq` — **what one month does**.
-/

namespace CodeReader.Jobs

open Text

/-! ## The tables -/

/-- A table; a partition has bounds, the numbers of the first month and of the one after the last. -/
structure Relation where
  name : String
  rows : List Attempt
  bounds : Option (Nat × Nat)
  deriving DecidableEq

structure AttemptsTable where
  relations : List Relation
  defaultRows : List Attempt

/-- What the job raises: a date without a month after it, or what PostgreSQL refuses. -/
inductive JobError
  | yearOutOfRange | wouldOverlap | defaultViolated | rowViolated | alreadyPartition | undefinedTable
  deriving DecidableEq

namespace AttemptsTable

/-- The months of the partitions. -/
def months (db : AttemptsTable) : List Nat := db.relations.filterMap fun r => r.bounds.map (·.1)

/-- All rows of `attempts`. -/
def allRows (db : AttemptsTable) : List Attempt := db.relations.flatMap (·.rows) ++ db.defaultRows

def hasRelation (db : AttemptsTable) (name : String) : Bool := db.relations.any (·.name == name)

end AttemptsTable

section Statements

variable (midnights : Midnights)

/-- `created_at >= start AND created_at < end`. -/
def inRange (bounds : Nat × Nat) (row : Attempt) : Bool :=
  decide (midnights.start bounds.1 ≤ row.createdAt) && decide (row.createdAt < midnights.start bounds.2)

/-- Two partitions for one instant. -/
def overlaps (bounds : Nat × Nat) (r : Relation) : Bool :=
  match r.bounds with
  | some (first, last) => decide (midnights.start first < midnights.start bounds.2) &&
      decide (midnights.start bounds.1 < midnights.start last)
  | none => false

/-- `CREATE TABLE IF NOT EXISTS name PARTITION OF attempts FOR VALUES FROM .. TO ..`. -/
def createPartitionOf (db : AttemptsTable) (name : String) (bounds : Nat × Nat) : Except JobError AttemptsTable :=
  if db.hasRelation name then .ok db
  else if db.relations.any (overlaps midnights bounds) then .error .wouldOverlap
  else if db.defaultRows.any (inRange midnights bounds) then .error .defaultViolated
  else .ok { db with relations := db.relations ++ [⟨name, [], some bounds⟩] }

/-- `CREATE TABLE IF NOT EXISTS name (LIKE attempts INCLUDING ALL)`. -/
def createTableLike (db : AttemptsTable) (name : String) : AttemptsTable :=
  if db.hasRelation name then db else { db with relations := db.relations ++ [⟨name, [], none⟩] }

/-- The rows of the range, deleted from the default partition and inserted into the table of the name. -/
def moveRows (db : AttemptsTable) (name : String) (bounds : Nat × Nat) : Except JobError AttemptsTable :=
  let moved := db.defaultRows.filter (inRange midnights bounds)
  if db.relations.any fun r => r.name == name && r.bounds.any fun b => !moved.all (inRange midnights b) then
    .error .rowViolated
  else
    .ok
      { relations := db.relations.map fun r => if r.name = name then { r with rows := r.rows ++ moved } else r
        defaultRows := db.defaultRows.filter fun row => !inRange midnights bounds row }

/-- `ALTER TABLE attempts ATTACH PARTITION name FOR VALUES FROM .. TO ..`. -/
def attachPartition (db : AttemptsTable) (name : String) (bounds : Nat × Nat) : Except JobError AttemptsTable :=
  match db.relations.find? (·.name == name) with
  | none => .error .undefinedTable
  | some r =>
    if r.bounds.isSome then .error .alreadyPartition
    else if db.relations.any (overlaps midnights bounds) then .error .wouldOverlap
    else if !r.rows.all (inRange midnights bounds) then .error .rowViolated
    else if db.defaultRows.any (inRange midnights bounds) then .error .defaultViolated
    else .ok { db with
      relations := db.relations.map fun r => if r.name = name then { r with bounds := some bounds } else r }

/-- A new row goes to the partition that it belongs to, or to the default one. -/
def insertRow (db : AttemptsTable) (row : Attempt) : AttemptsTable :=
  let holds (r : Relation) : Bool := r.bounds.any fun b => inRange midnights b row
  if db.relations.any holds then
    { db with relations := db.relations.map fun r => if holds r then { r with rows := r.rows ++ [row] } else r }
  else { db with defaultRows := db.defaultRows ++ [row] }

end Statements

/-! ## The job -/

def partitionName (m : Month) : String := "attempts_" ++ monthStamp m

/-- The month of a relation that is named so. -/
def monthOfName (name : String) : Option (Option Month) :=
  if "attempts_".toList.isPrefixOf name.toList then monthOfStamp (name.toList.drop "attempts_".toList.length) else none

/-- The months of the names, sorted. -/
def existingPartitionMonths (db : AttemptsTable) : Except JobError (List Month) :=
  match (db.relations.filterMap fun r => monthOfName r.name).mapM id with
  | some months => .ok (months.mergeSort fun a b => decide (a.index ≤ b.index))
  | none => .error .yearOutOfRange

def maxMonthsPerRun : Nat := 72

def orRaise {α : Type} : Option α → Except JobError α
  | some x => .ok x
  | none => .error .yearOutOfRange

section Job

variable (midnights : Midnights)

def createPartitionForMonth (db : AttemptsTable) (monthStart : Month) : Except JobError (AttemptsTable × String) := do
  let monthEnd ← orRaise (firstDayOfNextMonth monthStart)
  let name := partitionName monthStart
  let bounds := (monthStart.index, monthEnd.index)
  let overlapping := db.defaultRows.countP (inRange midnights bounds)
  if overlapping = 0 then
    let db ← createPartitionOf midnights db name bounds
    return (db, name)
  else
    let db := createTableLike db name
    let db ← moveRows midnights db name bounds
    let db ← attachPartition midnights db name bounds
    return (db, name)

/-- The months from `month` to `nextMonth`, at most so many. -/
def monthsToCreate : Nat → Month → Month → Except JobError (List Month)
  | 0, _, _ => .ok []
  | cap + 1, month, nextMonth =>
    if month.index ≤ nextMonth.index then do
      let after ← orRaise (firstDayOfNextMonth month)
      let rest ← monthsToCreate cap after nextMonth
      return month :: rest
    else .ok []

/-- The month at which the creation begins: the one after the last partition, or else the current one. -/
def startMonth (existing : List Month) (today : Month) : Except JobError Month :=
  match existing.getLast? with
  | some last => orRaise (firstDayOfNextMonth last)
  | none => .ok today

/-- Of the reference date, only the month matters. -/
def ensureNextMonthAttemptsPartition (db : AttemptsTable) (today : Month) : Except JobError (AttemptsTable × String) := do
  let nextMonth ← orRaise (firstDayOfNextMonth today)
  let existing ← existingPartitionMonths db
  let start ← startMonth existing today
  let targets ← monthsToCreate maxMonthsPerRun start nextMonth
  targets.foldlM (fun state target => createPartitionForMonth midnights state.1 target) (db, partitionName nextMonth)

/-- A run is one transaction: what raises is rolled back. -/
def runMaintenance (db : AttemptsTable) (today : Month) : AttemptsTable :=
  match ensureNextMonthAttemptsPartition midnights db today with
  | .ok (db', _) => db'
  | .error _ => db

end Job

/-! ## What holds of the partitions -/

section Placed

variable {midnights : Midnights} {db : AttemptsTable}

/-- What PostgreSQL keeps, of partitions of one month each: a row of a partition is one of its month, and no row of the
default partition belongs to another; and each has the name of its month. -/
structure Placed (midnights : Midnights) (db : AttemptsTable) : Prop where
  monthly : ∀ r ∈ db.relations, ∃ m : Month, r.name = partitionName m ∧ r.bounds = some (m.index, m.index + 1)
  own : ∀ r ∈ db.relations, ∀ bounds, r.bounds = some bounds → ∀ row ∈ r.rows, inRange midnights bounds row = true
  drained : ∀ r ∈ db.relations, ∀ bounds, r.bounds = some bounds → ∀ row ∈ db.defaultRows,
    inRange midnights bounds row = false

/-- The rows of a month. -/
def ofMonth (midnights : Midnights) (m : Month) (row : Attempt) : Bool := inRange midnights (m.index, m.index + 1) row

/-- The partition of a month, with the rows of the default partition that belong to it. -/
def AttemptsTable.partitionOf (midnights : Midnights) (db : AttemptsTable) (m : Month) : Relation :=
  ⟨partitionName m, db.defaultRows.filter (ofMonth midnights m), some (m.index, m.index + 1)⟩

/-- The tables with one more partition, to which the rows of its month have gone. -/
def AttemptsTable.withMonth (midnights : Midnights) (db : AttemptsTable) (m : Month) : AttemptsTable where
  relations := db.relations ++ [db.partitionOf midnights m]
  defaultRows := db.defaultRows.filter fun row => !ofMonth midnights m row

theorem partitionName_injective : Function.Injective partitionName := by
  intro a b h
  refine monthStamp_injective (String.toList_injective ?_)
  have hlist := congrArg String.toList h
  rw [partitionName, partitionName, String.toList_append, String.toList_append] at hlist
  exact List.append_cancel_left hlist

/-- **A name is read back.** -/
theorem monthOfName_partitionName (m : Month) : monthOfName (partitionName m) = some (some m) := by
  have hlist : (partitionName m).toList = "attempts_".toList ++ (monthStamp m).toList := by
    rw [partitionName, String.toList_append]
  rw [monthOfName, hlist, if_pos (List.isPrefixOf_iff_prefix.mpr (List.prefix_append _ _)), List.drop_left]
  exact monthOfStamp_monthStamp m

/-- An instant lies in one month. -/
theorem not_ofMonth_of_ne {m m' : Month} (hne : m ≠ m') {row : Attempt} (h : ofMonth midnights m row = true) :
    ofMonth midnights m' row = false := by
  rw [ofMonth, inRange, Bool.and_eq_true, decide_eq_true_eq, decide_eq_true_eq] at h
  rw [ofMonth, inRange, Bool.and_eq_false_iff, decide_eq_false_iff_not, decide_eq_false_iff_not]
  rcases Nat.lt_or_gt_of_ne (fun heq => hne (Month.index_injective heq)) with hlt | hgt
  · refine Or.inl fun hle => ?_
    have hmono := midnights.start_le (Nat.succ_le_of_lt hlt)
    exact absurd (h.2.trans_le hmono) (not_lt.mpr hle)
  · refine Or.inr fun hlt => ?_
    have hmono := midnights.start_le (Nat.succ_le_of_lt hgt)
    exact absurd (hlt.trans_le hmono) (not_lt.mpr h.1)

/-- Months do not overlap. -/
theorem overlaps_eq_false {m m' : Month} (hne : m ≠ m') {r : Relation} (h : r.bounds = some (m.index, m.index + 1)) :
    overlaps midnights (m'.index, m'.index + 1) r = false := by
  rw [overlaps, h, Bool.and_eq_false_iff, decide_eq_false_iff_not, decide_eq_false_iff_not, midnights.start_lt_iff,
    midnights.start_lt_iff]
  have hindex : m.index ≠ m'.index := fun heq => hne (Month.index_injective heq)
  omega

/-- A partition of another month has another name. -/
theorem Placed.other (h : Placed midnights db) {m : Month} (hnew : m.index ∉ db.months) {r : Relation}
    (hr : r ∈ db.relations) : ∃ m' : Month, m' ≠ m ∧ r.name = partitionName m' ∧ r.bounds = some (m'.index, m'.index + 1) := by
  obtain ⟨m', hname, hbounds⟩ := h.monthly r hr
  refine ⟨m', ?_, hname, hbounds⟩
  rintro rfl
  exact hnew (List.mem_filterMap.mpr ⟨r, hr, by rw [hbounds]; rfl⟩)

theorem Placed.name_ne (h : Placed midnights db) {m : Month} (hnew : m.index ∉ db.months) {r : Relation}
    (hr : r ∈ db.relations) : r.name ≠ partitionName m := by
  obtain ⟨m', hne, hname, -⟩ := h.other hnew hr
  rw [hname]
  exact fun heq => hne (partitionName_injective heq)

theorem Placed.not_overlaps (h : Placed midnights db) {m : Month} (hnew : m.index ∉ db.months) :
    db.relations.any (overlaps midnights (m.index, m.index + 1)) = false := by
  rw [List.any_eq_false]
  intro r hr
  obtain ⟨m', hne, -, hbounds⟩ := h.other hnew hr
  rw [overlaps_eq_false hne hbounds]
  exact Bool.false_ne_true

/-- A change of the table of a name, when only the last has it. -/
theorem map_named {relations : List Relation} {name : String} (h : ∀ r ∈ relations, r.name ≠ name) (f : Relation → Relation)
    {last : Relation} (hlast : last.name = name) :
    ((relations ++ [last]).map fun r => if r.name = name then f r else r) = relations ++ [f last] := by
  rw [List.map_append, List.map_cons, if_pos hlast, List.map_nil]
  refine congrArg (· ++ [f last]) ?_
  refine (List.map_congr_left (g := id) fun r hr => ?_).trans (List.map_id relations)
  rw [if_neg (h r hr)]
  rfl

variable (midnights) in
/-- The rows of a range, moved to a new table. -/
theorem moveRows_eq {relations : List Relation} {name : String} (hname : ∀ r ∈ relations, r.name ≠ name)
    (defaultRows : List Attempt) (bounds : Nat × Nat) :
    moveRows midnights ⟨relations ++ [⟨name, [], none⟩], defaultRows⟩ name bounds = .ok
      ⟨relations ++ [⟨name, defaultRows.filter (inRange midnights bounds), none⟩],
        defaultRows.filter fun row => !inRange midnights bounds row⟩ := by
  have hfree : ((relations ++ [(⟨name, [], none⟩ : Relation)]).any fun r => r.name == name &&
      r.bounds.any fun b => !(defaultRows.filter (inRange midnights bounds)).all (inRange midnights b)) = false := by
    rw [List.any_eq_false]
    intro r hr
    rcases List.mem_append.mp hr with hr | hr
    · rw [beq_eq_false_iff_ne.mpr (hname r hr)]
      exact Bool.false_ne_true
    · cases List.mem_singleton.mp hr
      rw [Option.any_none, Bool.and_false]
      exact Bool.false_ne_true
  rw [moveRows, hfree, if_neg Bool.false_ne_true]
  rw [map_named hname (fun r => { r with rows := r.rows ++ _ }) rfl]
  rfl

/-- A table of rows of its range, attached. -/
theorem attachPartition_eq {relations : List Relation} {name : String} (hname : ∀ r ∈ relations, r.name ≠ name)
    (rows defaultRows : List Attempt) {bounds : Nat × Nat} (hfree : relations.any (overlaps midnights bounds) = false)
    (hrows : ∀ row ∈ rows, inRange midnights bounds row = true)
    (hrest : ∀ row ∈ defaultRows, ¬ inRange midnights bounds row = true) :
    attachPartition midnights ⟨relations ++ [⟨name, rows, none⟩], defaultRows⟩ name bounds =
      .ok ⟨relations ++ [⟨name, rows, some bounds⟩], defaultRows⟩ := by
  have hfind : (relations ++ [(⟨name, rows, none⟩ : Relation)]).find? (·.name == name) = some ⟨name, rows, none⟩ := by
    rw [List.find?_append, List.find?_eq_none.mpr fun r hr heq => hname r hr (eq_of_beq heq)]
    simp
  have hfree' : (relations ++ [(⟨name, rows, none⟩ : Relation)]).any (overlaps midnights bounds) = false := by
    rw [List.any_append, hfree]
    rfl
  simp only [attachPartition, hfind, hfree', List.all_eq_true.mpr hrows, List.any_eq_false.mpr hrest, Option.isSome_none,
    Bool.false_eq_true, if_false, Bool.not_true]
  rw [map_named hname (fun r => { r with bounds := some bounds }) rfl]

/-- **What the creation of a month does**, drained or not: nothing is refused, and the rows of the month are moved. -/
theorem createPartitionForMonth_eq (h : Placed midnights db) {m monthEnd : Month} (hnew : m.index ∉ db.months)
    (hend : firstDayOfNextMonth m = some monthEnd) :
    createPartitionForMonth midnights db m = .ok (db.withMonth midnights m, partitionName m) := by
  have hname : ∀ r ∈ db.relations, r.name ≠ partitionName m := fun r hr => h.name_ne hnew hr
  have hmissing : db.hasRelation (partitionName m) = false := by
    rw [AttemptsTable.hasRelation, List.any_eq_false]
    exact fun r hr heq => hname r hr (eq_of_beq heq)
  have hoverlaps := h.not_overlaps hnew
  have hindex := firstDayOfNextMonth_eq_some.mp hend
  by_cases hcount : db.defaultRows.countP (inRange midnights (m.index, m.index + 1)) = 0
  · -- no row of the month in the default partition
    have hnone : ∀ row ∈ db.defaultRows, ¬ inRange midnights (m.index, m.index + 1) row = true := List.countP_eq_zero.mp hcount
    have hmoved : db.defaultRows.filter (ofMonth midnights m) = [] := List.filter_eq_nil_iff.mpr hnone
    have hstay : db.defaultRows.filter (fun row => !ofMonth midnights m row) = db.defaultRows := by
      refine List.filter_eq_self.mpr fun row hrow => ?_
      rw [ofMonth, eq_false_of_ne_true (hnone row hrow)]
      rfl
    simp only [createPartitionForMonth, hend, orRaise, hindex, hcount, if_true, createPartitionOf, hmissing, hoverlaps,
      List.any_eq_false.mpr hnone, Bool.false_eq_true, if_false, bind, Except.bind, pure, Except.pure,
      AttemptsTable.withMonth, AttemptsTable.partitionOf, hmoved, hstay]
  · have hcreated : createTableLike db (partitionName m) =
        ⟨db.relations ++ [⟨partitionName m, [], none⟩], db.defaultRows⟩ := by
      rw [createTableLike, hmissing, if_neg Bool.false_ne_true]
    have hmoved := moveRows_eq midnights hname db.defaultRows (m.index, m.index + 1)
    have hattached := attachPartition_eq hname (db.defaultRows.filter (inRange midnights (m.index, m.index + 1)))
      (db.defaultRows.filter fun row => !inRange midnights (m.index, m.index + 1) row) hoverlaps
      (fun row hrow => (List.mem_filter.mp hrow).2) (fun row hrow hin => by simp [hin] at hrow)
    simp only [createPartitionForMonth, hend, orRaise, hindex, hcount, if_false, hcreated, hmoved, hattached, bind, Except.bind,
      pure, Except.pure]
    rfl

end Placed

end CodeReader.Jobs
