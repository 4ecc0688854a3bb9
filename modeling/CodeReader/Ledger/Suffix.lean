import Mathlib.Data.List.Chain
import Mathlib.Data.List.Infix
import Mathlib.Tactic.Common

/-!
# The longest chained suffix

A list read from its end as far as each element is related to the next one.  `LongestSuffix R l s` says that `s` is
the longest suffix of `l` that is a chain of `R`; a new last element extends it, or starts it over.
-/

namespace CodeReader.Ledger

variable {α : Type} {R : α → α → Prop} {l s t : List α} {b : α}

/-- `s` is a chained suffix of `l`, and none is longer. -/
structure LongestSuffix (R : α → α → Prop) (l s : List α) : Prop where
  suffix : s <:+ l
  chain : s.IsChain R
  longest : ∀ t, t <:+ l → t.IsChain R → t.length ≤ s.length

theorem LongestSuffix.nil (R : α → α → Prop) : LongestSuffix R [] [] where
  suffix := List.suffix_rfl
  chain := List.isChain_nil
  longest t ht _ := by rw [List.suffix_nil.mp ht]

/-- A suffix of `l ++ [b]` is empty or ends in `b`. -/
theorem suffix_append_singleton (h : t <:+ l ++ [b]) : t = [] ∨ ∃ t', t = t' ++ [b] ∧ t' <:+ l := by
  rcases List.eq_nil_or_concat t with rfl | ⟨t', x, rfl⟩
  · exact .inl rfl
  · rw [List.concat_eq_append] at h
    obtain ⟨p, hp⟩ := h
    rw [← List.append_assoc] at hp
    obtain ⟨hl, hx⟩ := List.append_inj' hp rfl
    rw [List.cons.injEq] at hx
    exact .inr ⟨t', by rw [hx.1, List.concat_eq_append], p, hl⟩

/-- A longest suffix of a list with elements is not empty. -/
theorem LongestSuffix.getLast?_eq (h : LongestSuffix R l s) : s.getLast? = l.getLast? := by
  obtain ⟨p, rfl⟩ := h.suffix
  rcases List.eq_nil_or_concat s with rfl | ⟨s', x, rfl⟩
  · rcases List.eq_nil_or_concat p with rfl | ⟨p', x, rfl⟩
    · rfl
    · -- the last element alone would be longer
      have hlen := h.longest [x] ⟨p', by simp⟩ (List.isChain_singleton x)
      simp at hlen
  · simp

/-- A last element related to the one before it extends the suffix. -/
theorem LongestSuffix.extend (h : LongestSuffix R l s) (hb : ∀ a, l.getLast? = some a → R a b) :
    LongestSuffix R (l ++ [b]) (s ++ [b]) where
  suffix := by
    obtain ⟨p, rfl⟩ := h.suffix
    exact ⟨p, (List.append_assoc p s [b]).symm⟩
  chain := by
    refine List.isChain_append.mpr ⟨h.chain, List.isChain_singleton b, fun a ha b' hb' => ?_⟩
    rw [h.getLast?_eq] at ha
    rw [List.head?_cons, Option.mem_def, Option.some.injEq] at hb'
    exact hb' ▸ hb a ha
  longest t ht hc := by
    rcases suffix_append_singleton ht with rfl | ⟨t', rfl, ht'⟩
    · exact Nat.zero_le _
    · have hlen := h.longest t' ht' (List.isChain_append.mp hc).1
      simp only [List.length_append, List.length_singleton]
      omega

/-- A last element not related to the one before it starts the suffix over. -/
theorem LongestSuffix.restart {a : α} (ha : l.getLast? = some a) (hab : ¬ R a b) :
    LongestSuffix R (l ++ [b]) [b] where
  suffix := List.suffix_append l [b]
  chain := List.isChain_singleton b
  longest t ht hc := by
    rcases suffix_append_singleton ht with rfl | ⟨t', rfl, p, hp⟩
    · exact Nat.zero_le _
    · rcases List.eq_nil_or_concat t' with rfl | ⟨t'', x, rfl⟩
      · exact Nat.le_refl _
      · -- the chain would pass through the two last elements
        have hx : x = a := by
          rw [← hp] at ha
          simpa using ha
        have hr := (List.isChain_append.mp hc).2.2 x (by simp) b (by simp)
        exact absurd (hx ▸ hr) hab

end CodeReader.Ledger
