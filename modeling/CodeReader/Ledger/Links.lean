import Mathlib.Data.List.Chain
import Mathlib.Tactic.Common

/-!
# Chains of changes

A ledger of changes of one value, each with the value before and the value after.  `Links a l b` says that the
changes `l` lead from `a` to `b`, every change starting where the one before it ended.
-/

namespace CodeReader.Ledger

variable {α : Type}

/-- The changes `l` lead from `a` to `b`. -/
def Links (a : α) : List (α × α) → α → Prop
  | [], b => a = b
  | x :: l, b => x.1 = a ∧ Links x.2 l b

@[simp] theorem links_nil {a b : α} : Links a [] b ↔ a = b := Iff.rfl

@[simp] theorem links_cons {a b : α} {x : α × α} {l : List (α × α)} :
    Links a (x :: l) b ↔ x.1 = a ∧ Links x.2 l b := Iff.rfl

theorem links_append {a b : α} {l₁ l₂ : List (α × α)} :
    Links a (l₁ ++ l₂) b ↔ ∃ m, Links a l₁ m ∧ Links m l₂ b := by
  induction l₁ generalizing a with
  | nil => simp
  | cons x l ih => simp [ih, and_assoc]

/-- Changes that change nothing link a value with itself. -/
theorem links_of_still {a : α} {l : List (α × α)} (h : ∀ x ∈ l, x = (a, a)) : Links a l a := by
  induction l with
  | nil => rfl
  | cons x l ih =>
    have hx := h x (by simp)
    subst hx
    exact ⟨rfl, ih fun y hy => h y (by simp [hy])⟩

/-- **Chains, spelled out**: the first change starts at `a`, each next one where the one before ended, and the last
one ends at `b`. -/
theorem links_iff {a b : α} {l : List (α × α)} :
    Links a l b ↔ (∀ x, l.head? = some x → x.1 = a) ∧ l.IsChain (fun x y => y.1 = x.2) ∧
      (l.getLast?.map (·.2)).getD a = b := by
  induction l generalizing a with
  | nil => simp
  | cons x l ih =>
    rw [links_cons, ih]
    cases l with
    | nil => simp
    | cons y l =>
      obtain ⟨z, hz⟩ : ∃ z, (y :: l).getLast? = some z := ⟨_, List.getLast?_eq_some_getLast (by simp)⟩
      simp [List.isChain_cons_cons, and_assoc, hz]

end CodeReader.Ledger
