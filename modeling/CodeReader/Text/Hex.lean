import Mathlib.Algebra.Group.Nat.Defs
import Mathlib.Tactic.Common

/-!
# Hexadecimal numbers, and UUIDs

* `hexDigits`, `ofHex` — a number in hexadecimal digits, and back (`ofHex_hexDigits`);
* `uuidText`, `uuidOfText` — a number of 128 bits as the text of a UUID, and back (`uuidOfText_uuidText`).
-/

namespace CodeReader.Text

/-- The number in hexadecimal, in so many digits. -/
def hexDigits : Nat → Nat → List Char
  | 0, _ => []
  | width + 1, n => hexDigits width (n / 16) ++ [Nat.digitChar (n % 16)]

def hexValue (c : Char) : Option Nat :=
  if '0' ≤ c ∧ c ≤ '9' then some (c.toNat - 48)
  else if 'a' ≤ c ∧ c ≤ 'f' then some (c.toNat - 87)
  else if 'A' ≤ c ∧ c ≤ 'F' then some (c.toNat - 55)
  else none

/-- The number of hexadecimal digits. -/
def ofHex (digits : List Char) : Option Nat :=
  digits.foldlM (fun n c => (hexValue c).map fun d => 16 * n + d) 0

theorem hexValue_digitChar : ∀ d < 16, hexValue (Nat.digitChar d) = some d := by decide

theorem digitChar_ne_dash : ∀ d < 16, Nat.digitChar d ≠ '-' := by decide

@[simp] theorem length_hexDigits (width n : Nat) : (hexDigits width n).length = width := by
  induction width generalizing n with
  | zero => rfl
  | succ width ih => simp [hexDigits, ih]

theorem mem_hexDigits {width n : Nat} {c : Char} (h : c ∈ hexDigits width n) : ∃ d < 16, c = Nat.digitChar d := by
  induction width generalizing n with
  | zero => exact nomatch h
  | succ width ih =>
    rw [hexDigits, List.mem_append, List.mem_singleton] at h
    rcases h with h | rfl
    · exact ih h
    · exact ⟨n % 16, Nat.mod_lt _ (by decide), rfl⟩

/-- **Digits and back.** -/
theorem ofHex_hexDigits (width n : Nat) : ofHex (hexDigits width n) = some (n % 16 ^ width) := by
  induction width generalizing n with
  | zero => simp [hexDigits, ofHex, Nat.mod_one]
  | succ width ih =>
    have hstep : 16 * (n / 16 % 16 ^ width) + n % 16 = n % 16 ^ (width + 1) := by
      rw [Nat.pow_succ, Nat.mul_comm (16 ^ width) 16, Nat.mod_mul]
      omega
    unfold ofHex at ih ⊢
    rw [hexDigits, List.foldlM_append, ih]
    simp [hexValue_digitChar _ (Nat.mod_lt n (by decide : 0 < 16)), hstep]

/-! ## UUIDs -/

/-- Groups of the given lengths and a last one, with hyphens between them. -/
def hyphenated : List Nat → List Char → List Char
  | [], digits => digits
  | k :: ks, digits => digits.take k ++ '-' :: hyphenated ks (digits.drop k)

theorem filter_hyphenated (ks : List Nat) {digits : List Char} (h : '-' ∉ digits) :
    (hyphenated ks digits).filter (· ≠ '-') = digits := by
  have hkeep : ∀ l : List Char, '-' ∉ l → l.filter (· ≠ '-') = l := by
    intro l hl
    refine List.filter_eq_self.mpr fun c hc => ?_
    simp only [ne_eq, decide_eq_true_eq]
    rintro rfl
    exact hl hc
  induction ks generalizing digits with
  | nil => exact hkeep digits h
  | cons k ks ih =>
    have htake := hkeep (digits.take k) fun hc => h (List.mem_of_mem_take hc)
    have hrest : '-' ∉ digits.drop k := fun hc => h (List.mem_of_mem_drop hc)
    rw [hyphenated, List.filter_append, htake, List.filter_cons_of_neg (by simp), ih hrest, List.take_append_drop]

/-- `str(uuid.UUID(int=n))`. -/
def uuidText (n : Nat) : String := String.ofList (hyphenated [8, 4, 4, 4] (hexDigits 32 n))

/-- `uuid.UUID(text)`: 32 digits, hyphens anywhere. -/
def uuidOfText (text : String) : Option Nat :=
  let digits := text.toList.filter (· ≠ '-')
  if digits.length = 32 then ofHex digits else none

theorem uuidOfText_uuidText {n : Nat} (h : n < 2 ^ 128) : uuidOfText (uuidText n) = some n := by
  have hdash : '-' ∉ hexDigits 32 n := by
    intro hc
    obtain ⟨d, hd, he⟩ := mem_hexDigits hc
    exact digitChar_ne_dash d hd he.symm
  have hfilter : (uuidText n).toList.filter (· ≠ '-') = hexDigits 32 n := by
    rw [uuidText, String.toList_ofList, filter_hyphenated _ hdash]
  unfold uuidOfText
  rw [hfilter]
  simp only [length_hexDigits, if_true]
  rw [ofHex_hexDigits, Nat.mod_eq_of_lt (by omega)]

end CodeReader.Text
