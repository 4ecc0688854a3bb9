import Mathlib.Algebra.Ring.Nat
import Mathlib.Data.List.Basic

/-!
# Nesting by depth

Items in a row, some of them with a depth: an item is in the block of an earlier one as long as all from there on are
deeper.

* `openBlocks` — the items whose blocks are open, on a stack: an item closes those that are not shallower;
* `enclosing` — those whose blocks an item is in;
* `mem_enclosing` — **they are the items that it is nested in**.
-/

namespace CodeReader.Nesting

section Depth

variable (depth : Nat → Option Nat)

def level (k : Nat) : Nat := (depth k).getD 0

/-- The open blocks, the innermost first, without those that an item of depth `d` closes. -/
def close (d : Nat) (stack : List Nat) : List Nat := stack.dropWhile fun k => decide (d ≤ level depth k)

/-- The blocks open after the first items. -/
def openBlocks : Nat → List Nat
  | 0 => []
  | n + 1 =>
    match depth n with
    | none => openBlocks n
    | some d => n :: close depth d (openBlocks n)

/-- The blocks that item `n` is in. -/
def enclosing (n : Nat) : List Nat :=
  match depth n with
  | none => openBlocks depth n
  | some d => close depth d (openBlocks depth n)

/-- Item `k` has a depth, and all that have one after it, up to `n`, are deeper. -/
def Encloses (k n : Nat) : Prop :=
  ∃ d, depth k = some d ∧ ∀ i, k < i → i ≤ n → ∀ e, depth i = some e → d < e

end Depth

variable {depth : Nat → Option Nat} {k n : Nat}

theorem mem_close {d : Nat} {stack : List Nat} (h : stack.Pairwise fun a b => level depth b < level depth a) :
    k ∈ close depth d stack ↔ k ∈ stack ∧ level depth k < d := by
  induction stack with
  | nil => exact ⟨fun hmem => absurd hmem List.not_mem_nil, fun hmem => absurd hmem.1 List.not_mem_nil⟩
  | cons first stack ih =>
    obtain ⟨hfirst, hstack⟩ := List.pairwise_cons.mp h
    by_cases hclosed : d ≤ level depth first
    · have hdrop : close depth d (first :: stack) = close depth d stack :=
        List.dropWhile_cons_of_pos (decide_eq_true hclosed)
      rw [hdrop, ih hstack, List.mem_cons]
      constructor
      · exact fun hmem => ⟨Or.inr hmem.1, hmem.2⟩
      · rintro ⟨rfl | hmem, hlt⟩
        · exact absurd hlt (Nat.not_lt.mpr hclosed)
        · exact ⟨hmem, hlt⟩
    · have hdrop : close depth d (first :: stack) = first :: stack :=
        List.dropWhile_cons_of_neg fun h => hclosed (of_decide_eq_true h)
      rw [hdrop]
      refine ⟨fun hmem => ⟨hmem, ?_⟩, And.left⟩
      -- the innermost is the deepest
      rcases List.mem_cons.mp hmem with rfl | hmem
      · exact Nat.not_le.mp hclosed
      · exact Nat.lt_trans (hfirst k hmem) (Nat.not_le.mp hclosed)

theorem openBlocks_pairwise (n : Nat) : (openBlocks depth n).Pairwise fun a b => level depth b < level depth a := by
  induction n with
  | zero => exact List.Pairwise.nil
  | succ n ih =>
    rw [openBlocks]
    split
    · exact ih
    · rename_i d hd
      refine List.pairwise_cons.mpr ⟨fun k hk => ?_, ih.sublist (List.dropWhile_sublist _)⟩
      have hlevel : level depth n = d := by rw [level, hd, Option.getD_some]
      rw [hlevel]
      exact ((mem_close ih).mp hk).2

theorem mem_enclosing_of_openBlocks (hopen : ∀ k, k ∈ openBlocks depth n ↔ k < n ∧ ∃ d, depth k = some d ∧
    ∀ i, k < i → i < n → ∀ e, depth i = some e → d < e) : k ∈ enclosing depth n ↔ k < n ∧ Encloses depth k n := by
  have hlast : ∀ {d : Nat}, (∀ e, depth n = some e → d < e) → (∀ i, k < i → i < n → ∀ e, depth i = some e → d < e) →
      ∀ i, k < i → i ≤ n → ∀ e, depth i = some e → d < e := by
    intro d hn hbefore i hi hle e he
    rcases Nat.lt_or_eq_of_le hle with hlt | rfl
    · exact hbefore i hi hlt e he
    · exact hn e he
  unfold enclosing
  split
  · rename_i hnone
    rw [hopen]
    constructor
    · rintro ⟨hk, d, hd, hbefore⟩
      exact ⟨hk, d, hd, hlast (fun e he => absurd he (by rw [hnone]; exact nofun)) hbefore⟩
    · rintro ⟨hk, d, hd, hall⟩
      exact ⟨hk, d, hd, fun i hi hlt => hall i hi (Nat.le_of_lt hlt)⟩
  · rename_i dn hdn
    rw [mem_close (openBlocks_pairwise n), hopen]
    constructor
    · rintro ⟨⟨hk, d, hd, hbefore⟩, hlevel⟩
      rw [level, hd, Option.getD_some] at hlevel
      exact ⟨hk, d, hd, hlast (fun e he => Option.some.inj (hdn.symm.trans he) ▸ hlevel) hbefore⟩
    · rintro ⟨hk, d, hd, hall⟩
      refine ⟨⟨hk, d, hd, fun i hi hlt => hall i hi (Nat.le_of_lt hlt)⟩, ?_⟩
      rw [level, hd, Option.getD_some]
      exact hall n hk (Nat.le_refl n) dn hdn

theorem openBlocks_succ (n : Nat) :
    openBlocks depth (n + 1) = if (depth n).isSome then n :: enclosing depth n else enclosing depth n := by
  rw [openBlocks, enclosing]
  cases depth n <;> rfl

/-- What is on the stack: the items that all later ones are deeper than. -/
theorem mem_openBlocks : k ∈ openBlocks depth n ↔ k < n ∧ ∃ d, depth k = some d ∧
    ∀ i, k < i → i < n → ∀ e, depth i = some e → d < e := by
  induction n generalizing k with
  | zero => exact ⟨fun hmem => absurd hmem List.not_mem_nil, fun hmem => absurd hmem.1 (Nat.not_lt_zero _)⟩
  | succ n ih =>
    have henclosing := mem_enclosing_of_openBlocks (k := k) fun k => ih (k := k)
    have hkeep : Encloses depth k n ↔ ∃ d, depth k = some d ∧ ∀ i, k < i → i < n + 1 → ∀ e, depth i = some e → d < e := by
      simp only [Encloses, Nat.lt_succ_iff]
    rw [openBlocks_succ, ← hkeep]
    split
    · rename_i hsome
      obtain ⟨d, hd⟩ := Option.isSome_iff_exists.mp hsome
      rw [List.mem_cons, henclosing]
      constructor
      · rintro (rfl | ⟨hk, hencloses⟩)
        · exact ⟨Nat.lt_succ_self k, d, hd, fun i hi hle => absurd hle (Nat.not_le.mpr hi)⟩
        · exact ⟨Nat.lt_succ_of_lt hk, hencloses⟩
      · rintro ⟨hk, hencloses⟩
        rcases Nat.lt_or_eq_of_le (Nat.lt_succ_iff.mp hk) with hlt | rfl
        · exact Or.inr ⟨hlt, hencloses⟩
        · exact Or.inl rfl
    · rename_i hnone
      rw [henclosing]
      constructor
      · exact fun h => ⟨Nat.lt_succ_of_lt h.1, h.2⟩
      · rintro ⟨hk, hencloses⟩
        rcases Nat.lt_or_eq_of_le (Nat.lt_succ_iff.mp hk) with hlt | rfl
        · exact ⟨hlt, hencloses⟩
        · obtain ⟨d, hd, -⟩ := hencloses
          exact absurd (Option.isSome_iff_exists.mpr ⟨d, hd⟩) hnone

/-- **The blocks on the stack are those that the item is nested in.** -/
theorem mem_enclosing : k ∈ enclosing depth n ↔ k < n ∧ Encloses depth k n :=
  mem_enclosing_of_openBlocks fun _ => mem_openBlocks

end CodeReader.Nesting
