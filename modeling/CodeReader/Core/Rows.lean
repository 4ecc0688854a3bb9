import Mathlib.Data.List.Nodup

/-!
# Rows of a table

A table is a list of rows, a column a function of a row.

* `map_update` — an `UPDATE` that leaves a column;
* `nodup_insert` — an `INSERT` that keeps a unique column.
-/

namespace CodeReader.Rows

variable {α β : Type}

/-- The rows that `p` selects are updated by `g`, which leaves the column `f`. -/
theorem map_update {f : α → β} {g : α → α} (p : α → Prop) [DecidablePred p] (hg : ∀ row, f (g row) = f row)
    (rows : List α) : (rows.map fun row => if p row then g row else row).map f = rows.map f := by
  rw [List.map_map]
  apply List.map_congr_left
  intro row _
  show f (if p row then g row else row) = f row
  split
  · exact hg row
  · rfl

/-- A row whose value of the column `f` is new. -/
theorem nodup_insert {f : α → β} {rows : List α} {row : α} (h : (rows.map f).Nodup) (hnew : ∀ r ∈ rows, f r ≠ f row) :
    ((rows ++ [row]).map f).Nodup := by
  have hnot : f row ∉ rows.map f := by
    rw [List.mem_map]
    rintro ⟨r, hr, he⟩
    exact hnew r hr he
  rw [List.map_append, List.map_singleton, ← List.concat_eq_append]
  exact h.concat hnot

end CodeReader.Rows
