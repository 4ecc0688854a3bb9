import Mathlib.Data.List.Sort

/-!
# The first of a list in the order of a key

A query with an order and a limit: `batch key n l` are the first `n` elements of `l`, by their keys.
-/

namespace CodeReader.Ledger

variable {α κ : Type} [LinearOrder κ] {key : α → κ} {l : List α} {a : α} {n : Nat}

/-- The first `n` elements in the order of their keys. -/
def batch (key : α → κ) (n : Nat) (l : List α) : List α := (l.insertionSort fun a b => key a ≤ key b).take n

/-- In the order of the keys, an element is among the first `n` when fewer than `n` elements are before it. -/
theorem mem_take_of_pairwise (hl : l.Pairwise fun a b => key a < key b) (ha : a ∈ l) :
    a ∈ l.take n ↔ l.countP (fun b => key b < key a) < n := by
  induction l generalizing n with
  | nil => cases ha
  | cons b l ih =>
    obtain ⟨hb, hl⟩ := List.pairwise_cons.mp hl
    cases n with
    | zero => simp
    | succ n =>
      rw [List.take_succ_cons, List.mem_cons]
      obtain rfl | ha := List.mem_cons.mp ha
      · have hnone : (a :: l).countP (fun b => decide (key b < key a)) = 0 := by
          rw [List.countP_eq_zero]
          intro c hc
          obtain rfl | hc := List.mem_cons.mp hc
          · simp
          · simpa using (hb c hc).le
        simp [hnone]
      · have hba : key b < key a := hb a ha
        have hne : a ≠ b := fun he => hba.ne' (congrArg key he)
        rw [List.countP_cons_of_pos (by simpa using hba), or_iff_right hne, ih hl ha]
        exact Nat.succ_lt_succ_iff.symm

/-- **Who is in a batch**: an element with fewer than `n` elements before it. -/
theorem mem_batch (hl : (l.map key).Nodup) : a ∈ batch key n l ↔ a ∈ l ∧ l.countP (fun b => key b < key a) < n := by
  have hperm : (l.insertionSort fun a b => key a ≤ key b).Perm l := List.perm_insertionSort _ l
  have hsorted : (l.insertionSort fun a b => key a ≤ key b).Pairwise fun a b => key a < key b := by
    have hle := List.pairwise_insertionSort (fun a b => key a ≤ key b) l
    have hne : (l.insertionSort fun a b => key a ≤ key b).Pairwise fun a b => key a ≠ key b :=
      List.pairwise_map.mp ((hperm.map key).nodup_iff.mpr hl)
    exact (hle.and hne).imp fun h => lt_of_le_of_ne h.1 h.2
  constructor
  · intro h
    have ha := List.mem_of_mem_take h
    rw [batch, mem_take_of_pairwise hsorted ha, hperm.countP_eq] at h
    exact ⟨hperm.mem_iff.mp ha, h⟩
  · rintro ⟨ha, h⟩
    rw [batch, mem_take_of_pairwise hsorted (hperm.mem_iff.mpr ha), hperm.countP_eq]
    exact h

end CodeReader.Ledger
