import CodeReader.Text.Integers
import Mathlib.Algebra.Ring.Int.Defs

/-!
# UUIDs read from any text

* `uuidOfHex` — `uuid.UUID(text)`: with a prefix, in braces, hyphens anywhere, and what `int` reads in base 16;
* `uuidOfHex_uuidText` — **a UUID is read back**.
-/

namespace CodeReader.Text

/-- `text.replace(pattern, "")`; the number says how many characters of an occurrence are still to be skipped. -/
def removeAll (pattern : List Char) : Nat → List Char → List Char
  | _, [] => []
  | skipped + 1, _ :: text => removeAll pattern skipped text
  | 0, c :: text =>
    if pattern.isPrefixOf (c :: text) then removeAll pattern (pattern.length - 1) text else c :: removeAll pattern 0 text

def isBrace (c : Char) : Bool := c = '\x7b' || c = '\x7d'

/-- `uuid.UUID(text)`; `none` is its `ValueError`. -/
def uuidOfHex (text : List Char) : Option Nat :=
  let hex := removeAll "uuid:".toList 0 (removeAll "urn:".toList 0 text)
  let digits := ((hex.dropWhile isBrace).rdropWhile isBrace).filter (· ≠ '-')
  if digits.length = 32 then
    match intOfText 16 digits with
    | some n => if 0 ≤ n ∧ n < 2 ^ 128 then some n.toNat else none
    | none => none
  else none

/-- A text without a character of the pattern stays. -/
theorem removeAll_of_notMem {pattern text : List Char} {c : Char} (hc : c ∈ pattern) (h : c ∉ text) :
    removeAll pattern 0 text = text := by
  induction text with
  | nil => rfl
  | cons x text ih =>
    have hprefix : ¬ pattern.isPrefixOf (x :: text) = true := fun hp =>
      h ((List.isPrefixOf_iff_prefix.mp hp).subset hc)
    rw [removeAll, if_neg hprefix, ih fun hmem => h (List.mem_cons_of_mem _ hmem)]

theorem readDigits_sixteen (digits : List Char) : readDigits 16 digits = ofHex digits := by
  have hsmall : ∀ c, (hexValue c).filter (· < 16) = hexValue c := by
    intro c
    unfold hexValue
    split
    · rename_i h
      have hc : c.toNat ≤ 57 := h.2
      exact Option.filter_some_pos (decide_eq_true (by omega))
    · split
      · rename_i h
        have hc : c.toNat ≤ 102 := h.2
        exact Option.filter_some_pos (decide_eq_true (by omega))
      · split
        · rename_i h
          have hc : c.toNat ≤ 70 := h.2
          exact Option.filter_some_pos (decide_eq_true (by omega))
        · rfl
  unfold readDigits ofHex
  simp only [hsmall]

theorem mem_hyphenated {ks : List Nat} {digits : List Char} {c : Char} (h : c ∈ hyphenated ks digits) :
    c = '-' ∨ c ∈ digits := by
  induction ks generalizing digits with
  | nil => exact Or.inr h
  | cons k ks ih =>
    rw [hyphenated, List.mem_append, List.mem_cons] at h
    rcases h with h | h | h
    · exact Or.inr (List.mem_of_mem_take h)
    · exact Or.inl h
    · exact (ih h).imp_right List.mem_of_mem_drop

/-- The characters of the text of a UUID. -/
theorem mem_uuidText {n : Nat} {c : Char} (h : c ∈ (uuidText n).toList) : c = '-' ∨ ∃ d < 16, c = Nat.digitChar d := by
  rw [uuidText, String.toList_ofList] at h
  exact (mem_hyphenated h).imp_right mem_hexDigits

theorem notMem_uuidText {n : Nat} {c : Char} (hdash : c ≠ '-') (hc : ∀ d < 16, c ≠ Nat.digitChar d) :
    c ∉ (uuidText n).toList := by
  intro h
  rcases mem_uuidText h with rfl | ⟨d, hd, rfl⟩
  · exact hdash rfl
  · exact hc d hd rfl

/-- **A UUID is read back.** -/
theorem uuidOfHex_uuidText {n : Nat} (h : n < 2 ^ 128) : uuidOfHex (uuidText n).toList = some n := by
  have hdash : '-' ∉ hexDigits 32 n := by
    intro hc
    obtain ⟨d, hd, he⟩ := mem_hexDigits hc
    exact digitChar_ne_dash d hd he.symm
  have hcolon : ':' ∉ (uuidText n).toList := notMem_uuidText (by decide) (by decide)
  have hdigit : ∀ d < 16, isBrace (Nat.digitChar d) = false := by decide
  have hbrace : ∀ c ∈ (uuidText n).toList, isBrace c = false := by
    intro c hc
    rcases mem_uuidText hc with rfl | ⟨d, hd, rfl⟩
    · decide
    · exact hdigit d hd
  have hstart : (uuidText n).toList.dropWhile isBrace = (uuidText n).toList := by
    cases htext : (uuidText n).toList with
    | nil => rfl
    | cons c text => exact List.dropWhile_cons_of_neg (by rw [hbrace c (htext ▸ List.mem_cons_self)]; exact Bool.false_ne_true)
  have hend : (uuidText n).toList.rdropWhile isBrace = (uuidText n).toList := by
    rw [List.rdropWhile_eq_self_iff]
    intro hne
    rw [hbrace _ (List.getLast_mem hne)]
    exact Bool.false_ne_true
  have hdigits : (uuidText n).toList.filter (· ≠ '-') = hexDigits 32 n := by
    rw [uuidText, String.toList_ofList, filter_hyphenated _ hdash]
  have hread : intOfText 16 (hexDigits 32 n) = some (n : Int) := by
    have hne : hexDigits 32 n ≠ [] := by
      intro hnil
      have hlength := length_hexDigits 32 n
      rw [hnil] at hlength
      cases hlength
    have hhex : ∀ c ∈ hexDigits 32 n, isHexDigit c = true := by
      intro c hc
      obtain ⟨d, hd, rfl⟩ := mem_hexDigits hc
      rw [isHexDigit, hexValue_digitChar d hd]
      rfl
    rw [intOfText_digits hne hhex fun h16 => absurd h16 (by decide), readDigits_sixteen, ofHex_hexDigits,
      Nat.mod_eq_of_lt (by omega)]
    rfl
  unfold uuidOfHex
  rw [removeAll_of_notMem (by decide) hcolon, removeAll_of_notMem (by decide) hcolon]
  dsimp only
  rw [hstart, hend, hdigits]
  simp only [length_hexDigits, if_true, hread]
  rw [if_pos ⟨Int.natCast_nonneg n, by exact_mod_cast h⟩, Int.toNat_natCast]

end CodeReader.Text
