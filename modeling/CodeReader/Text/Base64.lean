import CodeReader.Text.Hex
import Mathlib.Data.List.DropRight

/-!
# Base64

Bytes in 64 characters, in the variant for URLs, and what Python reads of them: it skips what is no such character.

* `urlsafeB64encode`, `urlsafeB64decode` — the codec, with padding;
* `a2bBase64_group` — **four characters are three bytes**;
* `urlsafeB64decode_encode` — **what is written is read back**, also when its padding is stripped and put back.
-/

namespace CodeReader.Text

/-! ## Writing -/

def base64Alphabet : List Char := "ABCDEFGHIJKLMNOPQRSTUVWXYZabcdefghijklmnopqrstuvwxyz0123456789-_".toList

/-- The character of six bits. -/
def base64Char (n : Nat) : Char := base64Alphabet.getD n '='

/-- `base64.urlsafe_b64encode`. -/
def urlsafeB64encode : List UInt8 → List Char
  | a :: b :: c :: bytes =>
    base64Char (a.toNat / 4) :: base64Char (a.toNat % 4 * 16 + b.toNat / 16) ::
      base64Char (b.toNat % 16 * 4 + c.toNat / 64) :: base64Char (c.toNat % 64) :: urlsafeB64encode bytes
  | [a, b] => [base64Char (a.toNat / 4), base64Char (a.toNat % 4 * 16 + b.toNat / 16), base64Char (b.toNat % 16 * 4), '=']
  | [a] => [base64Char (a.toNat / 4), base64Char (a.toNat % 4 * 16), '=', '=']
  | [] => []

/-- `.rstrip("=")`. -/
def stripPadding (text : List Char) : List Char := text.rdropWhile (· = '=')

/-- `"=" * (-len(data) % 4)`. -/
def padding (text : List Char) : List Char := List.replicate ((4 - text.length % 4) % 4) '='

/-! ## Reading -/

/-- The six bits of a character, those of the two alphabets. -/
def sextet (c : Char) : Option Nat :=
  if 'A' ≤ c ∧ c ≤ 'Z' then some (c.toNat - 65)
  else if 'a' ≤ c ∧ c ≤ 'z' then some (c.toNat - 71)
  else if '0' ≤ c ∧ c ≤ '9' then some (c.toNat + 4)
  else if c = '-' ∨ c = '+' then some 62
  else if c = '_' ∨ c = '/' then some 63
  else none

/-- `binascii.a2b_base64`, not strict: the place in the group of four, the bits left over, and the padding seen in the
group.  Padding that fills the group ends the text; what is behind it is not read. -/
def a2bBase64 : List Char → Nat → Nat → Nat → Option (List UInt8)
  | [], quadPos, _, _ => if quadPos = 0 then some [] else none
  | c :: text, quadPos, left, pads =>
    if c = '=' then
      if 2 ≤ quadPos then if 4 ≤ quadPos + (pads + 1) then some [] else a2bBase64 text quadPos left (pads + 1)
      else a2bBase64 text quadPos left pads
    else
      match sextet c, quadPos with
      | none, _ => a2bBase64 text quadPos left pads
      | some n, 0 => a2bBase64 text 1 n 0
      | some n, 1 => (a2bBase64 text 2 (n % 16) 0).map (UInt8.ofNat (left * 4 + n / 16) :: ·)
      | some n, 2 => (a2bBase64 text 3 (n % 4) 0).map (UInt8.ofNat (left * 16 + n / 4) :: ·)
      | some n, _ => (a2bBase64 text 0 0 0).map (UInt8.ofNat (left * 64 + n) :: ·)

def isAscii (c : Char) : Bool := c.toNat < 128

/-- `base64.urlsafe_b64decode` of a text; `none` is its `ValueError`. -/
def urlsafeB64decode (text : List Char) : Option (List UInt8) :=
  if text.all isAscii then a2bBase64 text 0 0 0 else none

/-! ## What is written is read back -/

theorem sextet_base64Char : ∀ n < 64, sextet (base64Char n) = some n ∧ base64Char n ≠ '=' ∧ isAscii (base64Char n) = true := by
  decide +kernel

section Step

variable {n left pads : Nat} {text : List Char}

theorem a2bBase64_first (h : n < 64) : a2bBase64 (base64Char n :: text) 0 left pads = a2bBase64 text 1 n 0 := by
  simp only [a2bBase64, if_neg (sextet_base64Char n h).2.1, (sextet_base64Char n h).1]

theorem a2bBase64_second (h : n < 64) : a2bBase64 (base64Char n :: text) 1 left pads =
    (a2bBase64 text 2 (n % 16) 0).map (UInt8.ofNat (left * 4 + n / 16) :: ·) := by
  simp only [a2bBase64, if_neg (sextet_base64Char n h).2.1, (sextet_base64Char n h).1]

theorem a2bBase64_third (h : n < 64) : a2bBase64 (base64Char n :: text) 2 left pads =
    (a2bBase64 text 3 (n % 4) 0).map (UInt8.ofNat (left * 16 + n / 4) :: ·) := by
  simp only [a2bBase64, if_neg (sextet_base64Char n h).2.1, (sextet_base64Char n h).1]

theorem a2bBase64_fourth (h : n < 64) : a2bBase64 (base64Char n :: text) 3 left pads =
    (a2bBase64 text 0 0 0).map (UInt8.ofNat (left * 64 + n) :: ·) := by
  simp only [a2bBase64, if_neg (sextet_base64Char n h).2.1, (sextet_base64Char n h).1]

end Step

/-- **Four characters are three bytes.** -/
theorem a2bBase64_group (a b c : UInt8) (text : List Char) :
    a2bBase64 (base64Char (a.toNat / 4) :: base64Char (a.toNat % 4 * 16 + b.toNat / 16) ::
      base64Char (b.toNat % 16 * 4 + c.toNat / 64) :: base64Char (c.toNat % 64) :: text) 0 0 0 =
      (a2bBase64 text 0 0 0).map fun bytes => a :: b :: c :: bytes := by
  have ha := a.toNat_lt
  have hb := b.toNat_lt
  have hc := c.toNat_lt
  rw [a2bBase64_first (by omega), a2bBase64_second (by omega), a2bBase64_third (by omega), a2bBase64_fourth (by omega),
    Option.map_map, Option.map_map]
  have hfirst : a.toNat / 4 * 4 + (a.toNat % 4 * 16 + b.toNat / 16) / 16 = a.toNat := by omega
  have hsecond : (a.toNat % 4 * 16 + b.toNat / 16) % 16 * 16 + (b.toNat % 16 * 4 + c.toNat / 64) / 4 = b.toNat := by omega
  have hthird : (b.toNat % 16 * 4 + c.toNat / 64) % 4 * 64 + c.toNat % 64 = c.toNat := by omega
  rw [hfirst, hsecond, hthird, UInt8.ofNat_toNat, UInt8.ofNat_toNat, UInt8.ofNat_toNat]
  rfl

/-- Three characters, and a padding, are two bytes. -/
theorem a2bBase64_two (a b : UInt8) :
    a2bBase64 [base64Char (a.toNat / 4), base64Char (a.toNat % 4 * 16 + b.toNat / 16), base64Char (b.toNat % 16 * 4), '=']
      0 0 0 = some [a, b] := by
  have ha := a.toNat_lt
  have hb := b.toNat_lt
  rw [a2bBase64_first (by omega), a2bBase64_second (by omega), a2bBase64_third (by omega)]
  have hfirst : a.toNat / 4 * 4 + (a.toNat % 4 * 16 + b.toNat / 16) / 16 = a.toNat := by omega
  have hsecond : (a.toNat % 4 * 16 + b.toNat / 16) % 16 * 16 + b.toNat % 16 * 4 / 4 = b.toNat := by omega
  rw [hfirst, hsecond, UInt8.ofNat_toNat, UInt8.ofNat_toNat]
  rfl

/-- Two characters, and two paddings, are one byte. -/
theorem a2bBase64_one (a : UInt8) :
    a2bBase64 [base64Char (a.toNat / 4), base64Char (a.toNat % 4 * 16), '=', '='] 0 0 0 = some [a] := by
  have ha := a.toNat_lt
  rw [a2bBase64_first (by omega), a2bBase64_second (by omega)]
  have hfirst : a.toNat / 4 * 4 + a.toNat % 4 * 16 / 16 = a.toNat := by omega
  rw [hfirst, UInt8.ofNat_toNat]
  rfl

theorem a2bBase64_encode (bytes : List UInt8) : a2bBase64 (urlsafeB64encode bytes) 0 0 0 = some bytes := by
  induction bytes using urlsafeB64encode.induct with
  | case1 a b c bytes ih => rw [urlsafeB64encode, a2bBase64_group, ih, Option.map_some]
  | case2 a b => exact a2bBase64_two a b
  | case3 a => exact a2bBase64_one a
  | case4 => rfl

/-! ### Without the padding -/

theorem mem_encode {bytes : List UInt8} {x : Char} (h : x ∈ urlsafeB64encode bytes) :
    x = '=' ∨ ∃ n < 64, x = base64Char n := by
  induction bytes using urlsafeB64encode.induct with
  | case1 a b c bytes ih =>
    have ha := a.toNat_lt
    have hb := b.toNat_lt
    have hc := c.toNat_lt
    simp only [urlsafeB64encode, List.mem_cons] at h
    rcases h with h | h | h | h | h
    · exact Or.inr ⟨_, by omega, h⟩
    · exact Or.inr ⟨_, by omega, h⟩
    · exact Or.inr ⟨_, by omega, h⟩
    · exact Or.inr ⟨_, by omega, h⟩
    · exact ih h
  | case2 a b =>
    have ha := a.toNat_lt
    have hb := b.toNat_lt
    simp only [urlsafeB64encode, List.mem_cons, List.not_mem_nil, or_false] at h
    rcases h with h | h | h | h
    · exact Or.inr ⟨_, by omega, h⟩
    · exact Or.inr ⟨_, by omega, h⟩
    · exact Or.inr ⟨_, by omega, h⟩
    · exact Or.inl h
  | case3 a =>
    have ha := a.toNat_lt
    simp only [urlsafeB64encode, List.mem_cons, List.not_mem_nil, or_false, or_self] at h
    rcases h with h | h | h
    · exact Or.inr ⟨_, by omega, h⟩
    · exact Or.inr ⟨_, by omega, h⟩
    · exact Or.inl h
  | case4 => exact nomatch h

/-- The characters of a text in base64 are ASCII. -/
theorem isAscii_encode (bytes : List UInt8) : ∀ c ∈ urlsafeB64encode bytes, isAscii c = true := by
  intro c hc
  rcases mem_encode hc with rfl | ⟨n, hn, rfl⟩
  · decide
  · exact (sextet_base64Char n hn).2.2

/-- A text in base64 is one without padding, filled up to groups of four. -/
theorem encode_split (bytes : List UInt8) : ∃ body k, urlsafeB64encode bytes = body ++ List.replicate k '=' ∧ k < 4 ∧
    (body.length + k) % 4 = 0 ∧ '=' ∉ body := by
  have hchar : ∀ n, n < 64 → '=' ≠ base64Char n := fun n h => (sextet_base64Char n h).2.1.symm
  induction bytes using urlsafeB64encode.induct with
  | case1 a b c bytes ih =>
    have ha := a.toNat_lt
    have hb := b.toNat_lt
    have hc := c.toNat_lt
    obtain ⟨body, k, heq, hk, hlength, hbody⟩ := ih
    refine ⟨_ :: _ :: _ :: _ :: body, k, by rw [urlsafeB64encode, heq]; rfl, hk, ?_, ?_⟩
    · simp only [List.length_cons]
      omega
    · simp only [List.mem_cons, not_or]
      exact ⟨hchar _ (by omega), hchar _ (by omega), hchar _ (by omega), hchar _ (by omega), hbody⟩
  | case2 a b =>
    have ha := a.toNat_lt
    have hb := b.toNat_lt
    refine ⟨[_, _, _], 1, rfl, by decide, Nat.mod_self 4, ?_⟩
    simp only [List.mem_cons, not_or]
    exact ⟨hchar _ (by omega), hchar _ (by omega), hchar _ (by omega), List.not_mem_nil⟩
  | case3 a =>
    have ha := a.toNat_lt
    refine ⟨[_, _], 2, rfl, by decide, Nat.mod_self 4, ?_⟩
    simp only [List.mem_cons, not_or]
    exact ⟨hchar _ (by omega), hchar _ (by omega), List.not_mem_nil⟩
  | case4 => exact ⟨[], 0, rfl, by decide, rfl, List.not_mem_nil⟩

theorem stripPadding_append {body : List Char} (h : '=' ∉ body) (k : Nat) :
    stripPadding (body ++ List.replicate k '=') = body := by
  have hstop : body.reverse.dropWhile (fun c => decide (c = '=')) = body.reverse := by
    cases hreverse : body.reverse with
    | nil => rfl
    | cons c rest =>
      have hmem : c ∈ body := List.mem_reverse.mp (hreverse ▸ List.mem_cons_self)
      have hc : c ≠ '=' := fun heq => h (heq ▸ hmem)
      exact List.dropWhile_cons_of_neg (by simpa using hc)
  rw [stripPadding, List.rdropWhile, List.reverse_append, List.reverse_replicate, List.dropWhile_append_of_pos]
  · rw [hstop, List.reverse_reverse]
  · intro c hc
    rw [List.eq_of_mem_replicate hc]
    rfl

/-- The padding is what was stripped. -/
theorem strip_padding (bytes : List UInt8) :
    stripPadding (urlsafeB64encode bytes) ++ padding (stripPadding (urlsafeB64encode bytes)) = urlsafeB64encode bytes := by
  obtain ⟨body, k, heq, hk, hlength, hbody⟩ := encode_split bytes
  have hpadding : (4 - body.length % 4) % 4 = k := by omega
  rw [heq, stripPadding_append hbody, padding, hpadding]

/-- The dot is no character of base64. -/
theorem dot_notMem_encode (bytes : List UInt8) : '.' ∉ stripPadding (urlsafeB64encode bytes) := by
  intro hmem
  have hchar : ∀ n, n < 64 → '.' ≠ base64Char n := by decide +kernel
  have hencode : '.' ∈ urlsafeB64encode bytes := by
    rw [← strip_padding]
    exact List.mem_append_left _ hmem
  rcases mem_encode hencode with h | ⟨n, hn, h⟩
  · exact absurd h (by decide)
  · exact hchar n hn h

/-- **What is written is read back**, its padding stripped and put back. -/
theorem urlsafeB64decode_encode (bytes : List UInt8) :
    urlsafeB64decode (stripPadding (urlsafeB64encode bytes) ++ padding (stripPadding (urlsafeB64encode bytes))) = some bytes := by
  rw [strip_padding, urlsafeB64decode, if_pos (List.all_eq_true.mpr (isAscii_encode bytes)), a2bBase64_encode]

end CodeReader.Text
