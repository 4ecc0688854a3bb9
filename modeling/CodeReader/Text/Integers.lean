import CodeReader.Core.Calendar
import CodeReader.Text.Hex
import CodeReader.Text.Lines

/-!
# The integer that a text says

* `intOfText` — `int(text, base)`: blanks around it, a sign, the digits of any script, underscores between them;
* `intOfText_digits` — **decimal digits** are read as the number that they say;
* `partition` — a text before and after a separator.
-/

namespace CodeReader.Text

/-- The zeros of the scripts that have decimal digits; the other nine digits follow each. -/
def digitZeros : List Nat :=
  [0x30, 0x660, 0x6F0, 0x7C0, 0x966, 0x9E6, 0xA66, 0xAE6, 0xB66, 0xBE6, 0xC66, 0xCE6, 0xD66, 0xDE6, 0xE50, 0xED0, 0xF20,
    0x1040, 0x1090, 0x17E0, 0x1810, 0x1946, 0x19D0, 0x1A80, 0x1A90, 0x1B50, 0x1BB0, 0x1C40, 0x1C50, 0xA620, 0xA8D0,
    0xA900, 0xA9D0, 0xA9F0, 0xAA50, 0xABF0, 0xFF10, 0x104A0, 0x10D30, 0x11066, 0x110F0, 0x11136, 0x111D0, 0x112F0,
    0x11450, 0x114D0, 0x11650, 0x116C0, 0x11730, 0x118E0, 0x11950, 0x11C50, 0x11D50, 0x11DA0, 0x11F50, 0x16A60, 0x16AC0,
    0x16B50, 0x1D7CE, 0x1D7D8, 0x1D7E2, 0x1D7EC, 0x1D7F6, 0x1E140, 0x1E2F0, 0x1E4D0, 0x1E950, 0x1FBF0]

/-- A digit of any script as an ASCII digit, whitespace as a blank; ASCII is left as it is. -/
def transformDecimalAndSpace (c : Char) : Char :=
  if c.toNat < 127 then c
  else if isWhitespace c then ' '
  else
    match digitZeros.find? fun z => z ≤ c.toNat && c.toNat < z + 10 with
    | some z => Nat.digitChar (c.toNat - z)
    | none => '?'

/-- `Py_ISSPACE`. -/
def isAsciiSpace (c : Char) : Bool := c = ' ' || (9 ≤ c.toNat && c.toNat ≤ 13)

/-- `sys.get_int_max_str_digits()`: how many decimal digits `int` reads. -/
def intMaxStrDigits : Nat := 4300

/-- The number that the digits say. -/
def readDigits (base : Nat) (digits : List Char) : Option Nat :=
  digits.foldlM (fun n c => ((hexValue c).filter (· < base)).map (base * n + ·)) 0

/-- The digits in groups, an underscore between two; more decimal digits than the limit are refused. -/
def naturalOfDigits (base : Nat) (text : List Char) : Option Nat :=
  let groups := text.splitOn '_'
  if [] ∈ groups ∨ (base = 10 ∧ intMaxStrDigits < groups.flatten.length) then none
  else readDigits base groups.flatten

/-- Without the `0x` that may stand before hexadecimal digits, and one underscore after it. -/
def withoutBase (base : Nat) (text : List Char) : List Char :=
  if base ≠ 16 then text
  else
    match text with
    | '0' :: 'x' :: '_' :: digits | '0' :: 'X' :: '_' :: digits => digits
    | '0' :: 'x' :: digits | '0' :: 'X' :: digits => digits
    | digits => digits

/-- `int(text, base)`, for the bases up to 16; `none` is a `ValueError`. -/
def intOfText (base : Nat) (text : List Char) : Option Int :=
  match ((text.map transformDecimalAndSpace).dropWhile isAsciiSpace).rdropWhile isAsciiSpace with
  | '-' :: digits => (naturalOfDigits base (withoutBase base digits)).map fun n : Nat => -(n : Int)
  | '+' :: digits => (naturalOfDigits base (withoutBase base digits)).map fun n : Nat => (n : Int)
  | digits => (naturalOfDigits base (withoutBase base digits)).map fun n : Nat => (n : Int)

example : intOfText 10 " -1_000 ".toList = some (-1000) := by decide

/-! ## Digits alone -/

section Digits

/-- A character of a word of digits, up to the hexadecimal ones. -/
def isHexDigit (c : Char) : Bool := (hexValue c).isSome

theorem toNat_of_isHexDigit {c : Char} (h : isHexDigit c = true) :
    (48 ≤ c.toNat ∧ c.toNat ≤ 57) ∨ (97 ≤ c.toNat ∧ c.toNat ≤ 102) ∨ (65 ≤ c.toNat ∧ c.toNat ≤ 70) := by
  unfold isHexDigit hexValue at h
  split at h
  · exact .inl ‹_›
  split at h
  · exact .inr (.inl ‹_›)
  split at h
  · exact .inr (.inr ‹_›)
  · exact absurd h (by decide)

theorem ne_of_isHexDigit {c d : Char} (h : isHexDigit c = true) (hd : isHexDigit d = false) : c ≠ d := by
  rintro rfl
  rw [h] at hd
  exact absurd hd (by decide)

theorem map_transform_digits {digits : List Char} (h : ∀ c ∈ digits, isHexDigit c = true) :
    digits.map transformDecimalAndSpace = digits := by
  refine List.map_congr_left (g := id) (fun c hc => ?_) |>.trans (List.map_id _)
  have hsmall := toNat_of_isHexDigit (h c hc)
  rw [transformDecimalAndSpace, if_pos (by omega)]
  rfl

theorem isAsciiSpace_of_isHexDigit {c : Char} (h : isHexDigit c = true) : isAsciiSpace c = false := by
  have hsmall := toNat_of_isHexDigit h
  have hblank : c ≠ ' ' := ne_of_isHexDigit h (by decide)
  unfold isAsciiSpace
  simp only [hblank, decide_false, Bool.false_or, Bool.and_eq_false_iff, decide_eq_false_iff_not]
  omega

theorem withoutBase_digits (base : Nat) {digits : List Char} (h : ∀ c ∈ digits, isHexDigit c = true) :
    withoutBase base digits = digits := by
  unfold withoutBase
  split
  · rfl
  · split
    all_goals first
      | rfl
      | exact absurd rfl (ne_of_isHexDigit (h _ (List.mem_cons_of_mem _ List.mem_cons_self)) (by decide))

/-- **A word of digits** says the number of these digits. -/
theorem intOfText_digits {base : Nat} {digits : List Char} (hne : digits ≠ [])
    (h : ∀ c ∈ digits, isHexDigit c = true) (hshort : base = 10 → digits.length ≤ intMaxStrDigits) :
    intOfText base digits = (readDigits base digits).map fun n : Nat => (n : Int) := by
  have hstart : digits.dropWhile isAsciiSpace = digits := by
    cases digits with
    | nil => rfl
    | cons c digits => exact List.dropWhile_cons_of_neg (by simp [isAsciiSpace_of_isHexDigit (h c List.mem_cons_self)])
  have hend : digits.rdropWhile isAsciiSpace = digits := by
    rw [List.rdropWhile_eq_self_iff]
    intro hne
    rw [isAsciiSpace_of_isHexDigit (h _ (List.getLast_mem hne))]
    decide
  have hgroups : digits.splitOn '_' = [digits] :=
    List.splitOn_eq_singleton fun hc => absurd rfl (ne_of_isHexDigit (h _ hc) (by decide))
  have hread : naturalOfDigits base (withoutBase base digits) = readDigits base digits := by
    rw [withoutBase_digits base h, naturalOfDigits, hgroups]
    have hfew : ¬ ([] ∈ [digits] ∨ base = 10 ∧ intMaxStrDigits < [digits].flatten.length) := by
      rintro (hnil | ⟨hbase, hlong⟩)
      · exact hne (List.mem_singleton.mp hnil).symm
      · have := hshort hbase
        simp at hlong
        omega
    simp only [hfew, if_false]
    simp
  rw [← hread]
  unfold intOfText
  rw [map_transform_digits h, hstart, hend]
  split
  · exact absurd rfl (ne_of_isHexDigit (h _ List.mem_cons_self) (by decide))
  · exact absurd rfl (ne_of_isHexDigit (h _ List.mem_cons_self) (by decide))
  · rfl

theorem foldlM_decimal {digits : List Char} (h : ∀ c ∈ digits, c.isDigit = true) (n : Nat) :
    digits.foldlM (fun n c => ((hexValue c).filter (· < 10)).map (10 * n + ·)) n =
      some (Nat.ofDigitChars 10 digits n) := by
  induction digits generalizing n with
  | nil => rfl
  | cons c digits ih =>
    have hdigit := h c List.mem_cons_self
    have hrange : '0' ≤ c ∧ c ≤ '9' := by
      simpa [Char.isDigit, Char.le_def] using hdigit
    have hsmall : c.toNat - 48 < 10 := by
      have hhigh : c.toNat ≤ 57 := hrange.2
      omega
    have hvalue : (hexValue c).filter (fun d => decide (d < 10)) = some (c.toNat - 48) := by
      rw [hexValue, if_pos hrange, Option.filter_some, if_pos (by simpa using hsmall)]
    rw [List.foldlM_cons, hvalue, Nat.ofDigitChars_cons]
    exact ih (fun c hc => h c (List.mem_cons_of_mem _ hc)) _

/-- **A decimal number**, with zeros before it or not. -/
theorem intOfText_decimal {digits : List Char} (hne : digits ≠ []) (h : ∀ c ∈ digits, c.isDigit = true)
    (hshort : digits.length ≤ intMaxStrDigits) :
    intOfText 10 digits = some (Nat.ofDigitChars 10 digits 0 : Int) := by
  have hhex : ∀ c ∈ digits, isHexDigit c = true := by
    intro c hc
    have hrange : '0' ≤ c ∧ c ≤ '9' := by
      simpa [Char.isDigit, Char.le_def] using h c hc
    rw [isHexDigit, hexValue, if_pos hrange]
    rfl
  rw [intOfText_digits hne hhex fun _ => hshort, readDigits, foldlM_decimal h]
  rfl

end Digits

/-! ## Numbers as texts -/

theorem toList_toString_natCast (n : Nat) : (toString (n : Int)).toList = Nat.toDigits 10 n := Nat.toList_repr

theorem toList_toString_negSucc (n : Nat) : (toString (Int.negSucc n)).toList = '-' :: Nat.toDigits 10 (n + 1) := by
  have htext : toString (Int.negSucc n) = "-" ++ (n + 1).repr := rfl
  rw [htext, String.toList_append, Nat.toList_repr]
  rfl

theorem isDigit_toDigits {n : Nat} {c : Char} (h : c ∈ Nat.toDigits 10 n) : c.isDigit = true :=
  Nat.isDigit_of_mem_toDigits (by decide) (by decide) h

theorem toList_zeroPad (width n : Nat) : (zeroPad width n).toList =
    List.replicate (width - (Nat.toDigits 10 n).length) '0' ++ Nat.toDigits 10 n := by
  have hlength : (toString (n : Int)).length = (Nat.toDigits 10 n).length := by
    rw [← String.length_toList, toList_toString_natCast]
  unfold zeroPad
  rw [String.toList_append, String.toList_ofList, hlength, toList_toString_natCast]

theorem intOfText_toDigits {n : Nat} (h : (Nat.toDigits 10 n).length ≤ 4) (zeros : Nat) (hzeros : zeros ≤ 4) :
    intOfText 10 (List.replicate zeros '0' ++ Nat.toDigits 10 n) = some (n : Int) := by
  have hne : List.replicate zeros '0' ++ Nat.toDigits 10 n ≠ [] := by
    rw [Ne, List.append_eq_nil_iff]
    exact fun hnil => Nat.toDigits_ne_nil hnil.2
  have hdigits : ∀ c ∈ List.replicate zeros '0' ++ Nat.toDigits 10 n, c.isDigit = true := by
    intro c hc
    rcases List.mem_append.mp hc with hc | hc
    · rw [List.eq_of_mem_replicate hc]
      decide
    · exact isDigit_toDigits hc
  have hshort : (List.replicate zeros '0' ++ Nat.toDigits 10 n).length ≤ intMaxStrDigits := by
    rw [List.length_append, List.length_replicate, intMaxStrDigits]
    omega
  rw [intOfText_decimal hne hdigits hshort, Nat.ofDigitChars_append, Nat.ofDigitChars_replicate_zero, Nat.mul_zero,
    Nat.ofDigitChars_ten_toDigits]

theorem toDigits_injective {m n : Nat} (h : Nat.toDigits 10 m = Nat.toDigits 10 n) : m = n := by
  rw [← Nat.ofDigitChars_ten_toDigits (n := m), ← Nat.ofDigitChars_ten_toDigits (n := n), h]

/-- **One text for each number.** -/
theorem toString_int_injective {a b : Int} (h : toString a = toString b) : a = b := by
  have hchars := congrArg String.toList h
  have hdash : ∀ n m : Nat, '-' :: Nat.toDigits 10 m ≠ Nat.toDigits 10 n := by
    intro n m he
    exact absurd (isDigit_toDigits (he ▸ List.mem_cons_self)) (by decide)
  cases a with
  | ofNat a =>
    cases b with
    | ofNat b =>
      rw [Int.ofNat_eq_natCast, Int.ofNat_eq_natCast, toList_toString_natCast, toList_toString_natCast] at hchars
      rw [toDigits_injective hchars]
    | negSucc b =>
      rw [Int.ofNat_eq_natCast, toList_toString_natCast, toList_toString_negSucc] at hchars
      exact absurd hchars.symm (hdash a _)
  | negSucc a =>
    cases b with
    | ofNat b =>
      rw [Int.ofNat_eq_natCast, toList_toString_negSucc, toList_toString_natCast] at hchars
      exact absurd hchars (hdash b _)
    | negSucc b =>
      rw [toList_toString_negSucc, toList_toString_negSucc] at hchars
      have hsucc := toDigits_injective (List.cons.inj hchars).2
      rw [Nat.succ.inj hsucc]

theorem blank_notMem_toString (n : Int) : ' ' ∉ (toString n).toList := by
  intro h
  cases n with
  | ofNat n =>
    rw [Int.ofNat_eq_natCast, toList_toString_natCast] at h
    exact absurd (isDigit_toDigits h) (by decide)
  | negSucc n =>
    rw [toList_toString_negSucc] at h
    rcases List.mem_cons.mp h with h | h
    · exact absurd h (by decide)
    · exact absurd (isDigit_toDigits h) (by decide)

/-! ## Separators -/

/-- `text.partition(sep)`: the text before the first separator, the separator, and the rest; without one, only the
text. -/
def partition (sep : List Char) : List Char → List Char × List Char × List Char
  | [] => ([], [], [])
  | c :: text =>
    if sep.isPrefixOf (c :: text) then ([], sep, (c :: text).drop sep.length)
    else
      let (before, found, after) := partition sep text
      (c :: before, found, after)

/-- A separator whose first character is not in the text before it. -/
theorem partition_append {s : Char} (sep : List Char) {before : List Char} (h : s ∉ before) (after : List Char) :
    partition (s :: sep) (before ++ (s :: sep ++ after)) = (before, s :: sep, after) := by
  induction before with
  | nil =>
    have hhere : (s :: sep).isPrefixOf (s :: (sep ++ after)) = true := by
      rw [List.isPrefixOf_iff_prefix]
      exact List.prefix_append (s :: sep) after
    rw [List.nil_append, List.cons_append, partition, if_pos hhere]
    simp
  | cons c before ih =>
    rw [List.mem_cons, not_or] at h
    have hother : (s :: sep).isPrefixOf (c :: (before ++ (s :: sep ++ after))) = false := by
      rw [List.isPrefixOf_cons_cons, Bool.and_eq_false_iff]
      exact .inl (by simpa using h.1)
    rw [List.cons_append, partition, hother, if_neg Bool.false_ne_true, ih h.2]

end CodeReader.Text
