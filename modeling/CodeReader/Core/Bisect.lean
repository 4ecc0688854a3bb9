import Mathlib.Order.Lattice
import Mathlib.Tactic.Common

/-!
# Bisection

Python's `bisect.bisect_right`, on lists that need not be sorted.

* `bisect` — the halving of an interval of indices;
* `bisectRight` — where to insert after the items that are not above;
* `bisectRight_eq` — it is the number of such items, when they come first.
-/

namespace CodeReader

/-- `while lo < hi`: the interval is halved, as long as there is fuel. -/
def bisect (above : Nat → Bool) : Nat → Nat → Nat → Nat
  | 0, lo, _ => lo
  | fuel + 1, lo, hi =>
    if lo < hi then
      if above ((lo + hi) / 2) then bisect above fuel lo ((lo + hi) / 2)
      else bisect above fuel ((lo + hi) / 2 + 1) hi
    else lo

/-- Half of the interval is enough fuel, and so is all of it. -/
theorem bisect_eq {above : Nat → Bool} {n fuel lo hi : Nat} (hfuel : hi - lo ≤ fuel)
    (h : ∀ k, lo ≤ k → k < hi → (above k = true ↔ n ≤ k)) (hlo : lo ≤ n) (hhi : n ≤ hi) :
    bisect above fuel lo hi = n := by
  induction fuel generalizing lo hi with
  | zero =>
    have he : lo = n := by omega
    exact he
  | succ fuel ih =>
    unfold bisect
    by_cases hlt : lo < hi
    · have hmid := h ((lo + hi) / 2) (by omega) (by omega)
      rw [if_pos hlt]
      by_cases habove : above ((lo + hi) / 2) = true
      · have hn := hmid.mp habove
        rw [if_pos habove]
        exact ih (by omega) (fun k hk hk' => h k hk (by omega)) hlo hn
      · have hn : ¬ n ≤ (lo + hi) / 2 := fun hn => habove (hmid.mpr hn)
        rw [if_neg habove]
        exact ih (by omega) (fun k hk hk' => h k (by omega) hk') (by omega) hhi
    · rw [if_neg hlt]
      omega

variable {α : Type} [LinearOrder α]

/-- `bisect.bisect_right(a, x)`. -/
def bisectRight (a : List α) (x : α) : Nat := bisect (fun k => a[k]?.any fun y => decide (x < y)) a.length 0 a.length

/-- The items that are not above come first: their number. -/
theorem bisectRight_eq {a : List α} {x : α} {n : Nat} (hn : n ≤ a.length)
    (h : ∀ k (hk : k < a.length), a[k] ≤ x ↔ k < n) : bisectRight a x = n := by
  refine bisect_eq (Nat.sub_le _ _) (fun k _ hk => ?_) (Nat.zero_le n) hn
  rw [List.getElem?_eq_getElem hk, Option.any_some, decide_eq_true_iff, ← not_le, h k hk]
  exact Nat.not_lt

end CodeReader
