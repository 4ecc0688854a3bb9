import CodeReader.Text.Base64
import CodeReader.Text.PyJson
import Mathlib.Data.List.SplitBy

/-!
# URLs and their queries

`urllib.parse` on texts, as it is from Python 3.12.4 on.

* `decodeReplace`, `unquote` — bytes and percent signs, what is not UTF-8 replaced;
* `urlencode`, `parseQsl` — the pairs of a query;
* `parseQsl_urlencode` — **pairs that are written are read back**;
* `urlsplit`, `urlunsplit` — the five parts of a URL;
* `WellSplit`, `urlsplit_urlunsplit` — **parts that were split off a URL are split off again**, with any scheme.
-/

namespace CodeReader.Text

/-! ## UTF-8, with replacement -/

/-- How many bytes follow the first of a sequence. -/
def followers (a : UInt8) : Option Nat :=
  if 0xC2 ≤ a.toNat ∧ a.toNat < 0xE0 then some 1
  else if 0xE0 ≤ a.toNat ∧ a.toNat < 0xF0 then some 2
  else if 0xF0 ≤ a.toNat ∧ a.toNat < 0xF5 then some 3
  else none

/-- A second byte: neither of an overlong form, nor of a surrogate, nor past U+10FFFF. -/
def isSecond (a b : UInt8) : Bool :=
  isContinuation b && !(a.toNat == 0xE0 && b.toNat < 0xA0) && !(a.toNat == 0xED && 0xA0 ≤ b.toNat) &&
    !(a.toNat == 0xF0 && b.toNat < 0x90) && !(a.toNat == 0xF4 && 0x90 ≤ b.toNat)

/-- How many of the bytes continue a sequence, up to a number. -/
def continued (a : UInt8) (width : Nat) : List UInt8 → Nat
  | [] => 0
  | b :: bytes => if isSecond a b then 1 + ((bytes.take (width - 1)).takeWhile isContinuation).length else 0

/-- The character at the front, if there is one, and how many bytes it takes, or how many are replaced together. -/
def nextChar : List UInt8 → Option Char × Nat
  | [] => (none, 0)
  | a :: bytes =>
    if a.toNat < 0x80 then (some (Char.ofNat a.toNat), 1)
    else
      match followers a with
      | none => (none, 1)
      | some width =>
        if continued a width bytes = width then
          (some (Char.ofNat ((bytes.take width).foldl (fun n b => n * 64 + b.toNat % 64) (a.toNat % 2 ^ (6 - width)))), width + 1)
        else (none, continued a width bytes + 1)

/-- `bytes.decode("utf-8", "replace")`, for a number of characters. -/
def decodeFrom : Nat → List UInt8 → List Char
  | 0, _ | _ + 1, [] => []
  | rounds + 1, bytes => (nextChar bytes).1.getD (Char.ofNat 0xFFFD) :: decodeFrom rounds (bytes.drop (nextChar bytes).2)

def decodeReplace (bytes : List UInt8) : List Char := decodeFrom bytes.length bytes

def utf8Bytes (text : List Char) : List UInt8 := text.flatMap String.utf8EncodeChar

section Utf8

theorem toNat_first {m lead : Nat} (h : m + lead < 256) : (UInt8.ofNat (m + lead)).toNat = m + lead := by
  rw [UInt8.toNat_ofNat']
  exact Nat.mod_eq_of_lt h

theorem toNat_next (m : Nat) : (UInt8.ofNat (m % 64 + 128)).toNat = m % 64 + 128 := toNat_first (by omega)

theorem isContinuation_next (m : Nat) : isContinuation (UInt8.ofNat (m % 64 + 128)) = true := by
  rw [isContinuation, toNat_next, Bool.and_eq_true, decide_eq_true_eq, decide_eq_true_eq]
  omega

/-- A second byte of a character that is no surrogate, in its shortest form. -/
theorem isSecond_next {a : UInt8} {m : Nat} (h0 : a.toNat = 0xE0 → 0x20 ≤ m % 64) (hD : a.toNat = 0xED → m % 64 < 0x20)
    (hF : a.toNat = 0xF0 → 0x10 ≤ m % 64) (h4 : a.toNat = 0xF4 → m % 64 < 0x10) :
    isSecond a (UInt8.ofNat (m % 64 + 128)) = true := by
  rw [isSecond, isContinuation_next, toNat_next]
  simp only [Bool.true_and, Bool.and_eq_true, Bool.not_eq_true', Bool.and_eq_false_iff, beq_eq_false_iff_ne,
    decide_eq_false_iff_not]
  omega

/-- A sequence that is continued as far as its first byte says is one character. -/
theorem nextChar_of_followers {a b : UInt8} (more : List UInt8) {rest : List UInt8} {c : Char} (ha : ¬ a.toNat < 0x80)
    (hf : followers a = some (more.length + 1)) (hsecond : isSecond a b = true) (hmore : ∀ x ∈ more, isContinuation x = true)
    (hvalue : Char.ofNat ((b :: more).foldl (fun n x => n * 64 + x.toNat % 64) (a.toNat % 2 ^ (6 - (more.length + 1)))) = c) :
    nextChar (a :: b :: more ++ rest) = (some c, (a :: b :: more).length) := by
  have htake : (more ++ rest).take more.length = more := List.take_left' rfl
  have hgood : continued a (more.length + 1) (b :: (more ++ rest)) = more.length + 1 := by
    rw [continued, if_pos hsecond, Nat.add_sub_cancel, htake, List.takeWhile_eq_self_iff.mpr hmore, Nat.add_comm]
  rw [List.cons_append, List.cons_append, nextChar, if_neg ha, hf]
  dsimp only
  rw [if_pos hgood, List.take_succ_cons, htake, hvalue]
  rfl

/-- **A character is read back from its bytes.** -/
theorem nextChar_utf8 (c : Char) (rest : List UInt8) :
    nextChar (String.utf8EncodeChar c ++ rest) = (some c, (String.utf8EncodeChar c).length) := by
  have hvalid : c.toNat < 0x110000 ∧ ¬ (0xD800 ≤ c.toNat ∧ c.toNat < 0xE000) := by
    have hc : c.val.toNat.isValidChar := c.valid
    have hval : c.toNat = c.val.toNat := rfl
    rw [Nat.isValidChar] at hc
    omega
  have hback : Char.ofNat c.toNat = c := Char.ofNat_toNat c
  unfold String.utf8EncodeChar
  rw [show c.val.toNat = c.toNat from rfl]
  generalize c.toNat = n at *
  dsimp only
  -- the cases are those of the encoding, by the number of bytes
  split
  · next h =>
    have ha : (UInt8.ofNat n).toNat = n := toNat_first (show n + 0 < 256 by omega)
    rw [List.singleton_append, nextChar, ha, if_pos (by omega), hback]
    rfl
  split
  · next h1 h2 =>
    have ha := toNat_first (show n / 64 % 32 + 192 < 256 by omega)
    refine nextChar_of_followers [] (by rw [ha]; omega) ?_ ?_ (fun x hx => absurd hx List.not_mem_nil) ?_
    · rw [followers, ha, if_pos (by omega), List.length_nil]
    · exact isSecond_next (by omega) (by omega) (by omega) (by omega)
    · rw [List.foldl_cons, List.foldl_nil, toNat_next, ha, ← hback]
      exact congrArg Char.ofNat (by rw [List.length_nil]; omega)
  split
  · next h1 h2 h3 =>
    have ha := toNat_first (show n / 4096 % 16 + 224 < 256 by omega)
    refine nextChar_of_followers [_] (by rw [ha]; omega) ?_ ?_ ?_ ?_
    · rw [followers, ha, if_neg (by omega), if_pos (by omega), List.length_singleton]
    · exact isSecond_next (by omega) (by omega) (by omega) (by omega)
    · exact fun x hx => List.mem_singleton.mp hx ▸ isContinuation_next n
    · rw [List.foldl_cons, List.foldl_cons, List.foldl_nil, toNat_next, toNat_next, ha, ← hback]
      exact congrArg Char.ofNat (by rw [List.length_singleton]; omega)
  · next h1 h2 h3 =>
    have ha := toNat_first (show n / 262144 % 8 + 240 < 256 by omega)
    refine nextChar_of_followers [_, _] (by rw [ha]; omega) ?_ ?_ ?_ ?_
    · rw [followers, ha, if_neg (by omega), if_neg (by omega), if_pos (by omega), List.length_cons, List.length_singleton]
    · exact isSecond_next (by omega) (by omega) (by omega) (by omega)
    · intro x hx
      rcases List.mem_cons.mp hx with rfl | hx
      · exact isContinuation_next (n / 64)
      · exact List.mem_singleton.mp hx ▸ isContinuation_next n
    · rw [List.foldl_cons, List.foldl_cons, List.foldl_cons, List.foldl_nil, toNat_next, toNat_next, toNat_next, ha, ← hback]
      exact congrArg Char.ofNat (by rw [List.length_cons, List.length_singleton]; omega)

theorem utf8EncodeChar_ne_nil (c : Char) : String.utf8EncodeChar c ≠ [] := by
  unfold String.utf8EncodeChar
  dsimp only
  split_ifs <;> exact List.cons_ne_nil _ _

/-- **A text is read back from its bytes.** -/
theorem decodeReplace_utf8Bytes (text : List Char) : decodeReplace (utf8Bytes text) = text := by
  have hfrom : ∀ (text : List Char) (rounds : Nat), text.length ≤ rounds → decodeFrom rounds (utf8Bytes text) = text := by
    intro text
    induction text with
    | nil =>
      intro rounds _
      cases rounds <;> rfl
    | cons c text ih =>
      intro rounds hrounds
      obtain ⟨b, bytes, hb⟩ := List.exists_cons_of_ne_nil (utf8EncodeChar_ne_nil c)
      cases rounds with
      | zero => cases hrounds
      | succ rounds =>
        have hnext := nextChar_utf8 c (utf8Bytes text)
        have hsplit : utf8Bytes (c :: text) = String.utf8EncodeChar c ++ utf8Bytes text := rfl
        have hstep : decodeFrom (rounds + 1) (utf8Bytes (c :: text)) = (nextChar (utf8Bytes (c :: text))).1.getD (Char.ofNat 0xFFFD) ::
            decodeFrom rounds ((utf8Bytes (c :: text)).drop (nextChar (utf8Bytes (c :: text))).2) := by
          rw [hsplit, hb]
          rfl
        rw [hstep, hsplit, hnext, List.drop_left' rfl, ih rounds (Nat.le_of_succ_le_succ hrounds)]
        rfl
  have hlength : text.length ≤ (utf8Bytes text).length := by
    induction text with
    | nil => exact Nat.le_refl _
    | cons c text ih =>
      have hpos := List.length_pos_of_ne_nil (utf8EncodeChar_ne_nil c)
      rw [utf8Bytes, List.flatMap_cons, List.length_append, List.length_cons]
      exact Nat.add_comm text.length 1 ▸ Nat.add_le_add hpos ih
  exact hfrom text _ hlength

end Utf8

/-! ## Percent signs -/

/-- What `quote` leaves as it is. -/
def isUnreserved (c : Char) : Bool := c.isAlphanum || ['_', '.', '-', '~'].contains c

def percentByte (b : UInt8) : List Char := '%' :: (hexDigits 2 b.toNat).map Char.toUpper

/-- `quote_plus`, one character. -/
def quoteChar (c : Char) : List Char :=
  if c = ' ' then ['+'] else if isUnreserved c then [c] else (String.utf8EncodeChar c).flatMap percentByte

def quotePlus (text : List Char) : List Char := text.flatMap quoteChar

/-- `unquote_to_bytes`: a percent sign without two hexadecimal digits after it stands for itself. -/
def unquoteBytes : List Char → List UInt8
  | [] => []
  | c :: text =>
    match c, text with
    | '%', a :: b :: rest =>
      match hexValue a, hexValue b with
      | some high, some low => UInt8.ofNat (16 * high + low) :: unquoteBytes rest
      | _, _ => UInt8.ofNat '%'.toNat :: unquoteBytes (a :: b :: rest)
    | c, text => UInt8.ofNat c.toNat :: unquoteBytes text

/-- `unquote`: the ASCII runs are bytes, the others are kept. -/
def unquote (text : List Char) : List Char :=
  (text.splitBy fun a b => isAscii a == isAscii b).flatMap fun run =>
    if run.all isAscii then decodeReplace (unquoteBytes run) else run

/-- `text.split(sep, 1)`, the second piece empty where there is none. -/
def splitOnce (sep : Char) (text : List Char) : List Char × List Char :=
  (text.takeWhile (· ≠ sep), (text.dropWhile (· ≠ sep)).tail)

/-- `parse_qsl`, blank values kept. -/
def parseQsl (query : List Char) : List (List Char × List Char) :=
  ((query.splitOn '&').filter (· ≠ [])).map fun field =>
    let (name, value) := splitOnce '=' field
    (unquote (name.map fun c => if c = '+' then ' ' else c), unquote (value.map fun c => if c = '+' then ' ' else c))

def encodePair (pair : List Char × List Char) : List Char := quotePlus pair.1 ++ '=' :: quotePlus pair.2

def urlencode (pairs : List (List Char × List Char)) : List Char := ['&'].intercalate (pairs.map encodePair)

section Queries

theorem splitOnce_append {sep : Char} {before : List Char} (h : sep ∉ before) (after : List Char) :
    splitOnce sep (before ++ sep :: after) = (before, after) := by
  have hbefore : ∀ c ∈ before, decide (c ≠ sep) = true := fun c hc => decide_eq_true fun he => h (he ▸ hc)
  rw [splitOnce, List.takeWhile_append_of_pos hbefore, List.dropWhile_append_of_pos hbefore]
  simp

theorem splitOnce_of_notMem {sep : Char} {text : List Char} (h : sep ∉ text) : splitOnce sep text = (text, []) := by
  have htext : ∀ c ∈ text, decide (c ≠ sep) = true := fun c hc => decide_eq_true fun he => h (he ▸ hc)
  rw [splitOnce, List.takeWhile_eq_self_iff.mpr htext, List.dropWhile_eq_nil_iff.mpr htext]
  rfl

/-- The characters of what is quoted. -/
def isQuoted (c : Char) : Bool := isUnreserved c || c == '+' || c == '%'

theorem isQuoted_percentByte {b : UInt8} {c : Char} (h : c ∈ percentByte b) : isQuoted c = true ∧ c ≠ '+' := by
  have hdigit : ∀ d < 16, isQuoted (Nat.digitChar d).toUpper = true ∧ (Nat.digitChar d).toUpper ≠ '+' := by decide
  rcases List.mem_cons.mp h with rfl | h
  · decide
  · obtain ⟨digit, hmem, rfl⟩ := List.mem_map.mp h
    obtain ⟨d, hd, rfl⟩ := mem_hexDigits hmem
    exact hdigit d hd

theorem isQuoted_quotePlus {text : List Char} {c : Char} (h : c ∈ quotePlus text) : isQuoted c = true := by
  obtain ⟨x, -, hx⟩ := List.mem_flatMap.mp h
  unfold quoteChar at hx
  split_ifs at hx with hspace hsafe
  · rw [List.mem_singleton.mp hx]
    rfl
  · rw [List.mem_singleton.mp hx, isQuoted, hsafe]
    rfl
  · obtain ⟨b, -, hb⟩ := List.mem_flatMap.mp hx
    exact (isQuoted_percentByte hb).1

/-- Letters and digits are ASCII here. -/
theorem toNat_lt_of_isAlphanum {c : Char} (h : c.isAlphanum = true) : c.toNat < 128 := by
  delta Char.isAlphanum Char.isAlpha Char.isUpper Char.isLower Char.isDigit at h
  simp only [Bool.or_eq_true, Bool.and_eq_true, decide_eq_true_eq, UInt32.le_iff_toNat_le] at h
  change c.val.toNat < 128
  simp only [Char.reduceVal, UInt32.reduceToNat] at h
  omega

theorem isAscii_of_isQuoted {c : Char} (h : isQuoted c = true) : isAscii c = true := by
  have hother : ∀ x ∈ ['_', '.', '-', '~', '+', '%'], isAscii x = true := List.all_eq_true.mp (by decide)
  simp only [isQuoted, isUnreserved, List.contains_eq_mem, Bool.or_eq_true, decide_eq_true_eq, beq_iff_eq] at h
  rcases h with ((h | h) | rfl) | rfl
  · exact decide_eq_true (toNat_lt_of_isAlphanum h)
  · exact hother c (List.mem_append_left ['+', '%'] h)
  · rfl
  · rfl

/-! Reading what was quoted: first the plus signs, then the percent signs, then the bytes. -/

/-- A character as it is quoted, a space as it was. -/
def spacedChar (c : Char) : List Char := if c = ' ' then [' '] else quoteChar c

theorem map_plus_quoteChar (c : Char) : ((quoteChar c).map fun c => if c = '+' then ' ' else c) = spacedChar c := by
  unfold spacedChar
  split_ifs with hspace
  · rw [quoteChar, if_pos hspace]
    rfl
  · have hplus : ∀ x ∈ quoteChar c, x ≠ '+' := by
      intro x hx
      unfold quoteChar at hx
      rw [if_neg hspace] at hx
      split_ifs at hx with hsafe
      · rintro rfl
        rw [← List.mem_singleton.mp hx] at hsafe
        exact absurd hsafe (by decide)
      · obtain ⟨b, -, hb⟩ := List.mem_flatMap.mp hx
        exact (isQuoted_percentByte hb).2
    exact (List.map_congr_left fun x hx => if_neg (hplus x hx)).trans (List.map_id _)

theorem unquoteBytes_percentByte (b : UInt8) (text : List Char) :
    unquoteBytes (percentByte b ++ text) = b :: unquoteBytes text := by
  have hupper : ∀ d < 16, hexValue (Nat.digitChar d).toUpper = some d := by decide
  have hb := b.toNat_lt
  have hhigh := hupper (b.toNat / 16 % 16) (Nat.mod_lt _ (by decide))
  have hlow := hupper (b.toNat % 16) (Nat.mod_lt _ (by decide))
  have hdigits : percentByte b ++ text =
      '%' :: (Nat.digitChar (b.toNat / 16 % 16)).toUpper :: (Nat.digitChar (b.toNat % 16)).toUpper :: text := rfl
  have hvalue : 16 * (b.toNat / 16 % 16) + b.toNat % 16 = b.toNat := by omega
  rw [hdigits, unquoteBytes, hhigh, hlow]
  dsimp only
  rw [hvalue, UInt8.ofNat_toNat]

theorem unquoteBytes_percentBytes (bytes : List UInt8) (text : List Char) :
    unquoteBytes (bytes.flatMap percentByte ++ text) = bytes ++ unquoteBytes text := by
  induction bytes with
  | nil => rfl
  | cons b bytes ih => rw [List.flatMap_cons, List.append_assoc, unquoteBytes_percentByte, ih, List.cons_append]

theorem unquoteBytes_cons {c : Char} (h : c ≠ '%') (text : List Char) :
    unquoteBytes (c :: text) = UInt8.ofNat c.toNat :: unquoteBytes text := by
  rw [unquoteBytes]
  exact fun _ _ _ he => absurd he h

theorem utf8EncodeChar_ascii {c : Char} (h : c.toNat < 128) : String.utf8EncodeChar c = [UInt8.ofNat c.toNat] := by
  unfold String.utf8EncodeChar
  rw [show c.val.toNat = c.toNat from rfl]
  exact if_pos (by omega)

theorem unquoteBytes_spacedChar (c : Char) (text : List Char) :
    unquoteBytes (spacedChar c ++ text) = String.utf8EncodeChar c ++ unquoteBytes text := by
  unfold spacedChar quoteChar
  split_ifs with hspace hsafe
  · rw [hspace]
    exact unquoteBytes_cons (by decide) text
  · have hne : c ≠ '%' := by
      rintro rfl
      exact absurd hsafe (by decide)
    have hascii : isAscii c = true := isAscii_of_isQuoted (by rw [isQuoted, hsafe]; rfl)
    rw [utf8EncodeChar_ascii (of_decide_eq_true hascii), List.singleton_append, List.singleton_append]
    exact unquoteBytes_cons hne text
  · exact unquoteBytes_percentBytes _ text

theorem unquoteBytes_spaced (text : List Char) : unquoteBytes (text.flatMap spacedChar) = utf8Bytes text := by
  induction text with
  | nil => rfl
  | cons c text ih =>
    rw [List.flatMap_cons, unquoteBytes_spacedChar, ih]
    rfl

theorem isAscii_spacedChar {c x : Char} (h : x ∈ spacedChar c) : isAscii x = true := by
  unfold spacedChar at h
  split_ifs at h with hspace
  · rw [List.mem_singleton.mp h]
    rfl
  · have hquoted : x ∈ quotePlus [c] := by simpa [quotePlus] using h
    exact isAscii_of_isQuoted (isQuoted_quotePlus hquoted)

/-- An ASCII text is one run. -/
theorem unquote_of_ascii {text : List Char} (h : ∀ c ∈ text, isAscii c = true) :
    unquote text = decodeReplace (unquoteBytes text) := by
  rcases eq_or_ne text [] with rfl | hne
  · rfl
  have hchain : text.IsChain fun a b => isAscii a == isAscii b := by
    refine List.Pairwise.isChain (List.pairwise_of_forall_mem_list fun a ha b hb => ?_)
    rw [h a ha, h b hb]
    rfl
  rw [unquote, List.splitBy_of_isChain hne hchain, List.flatMap_singleton, if_pos (List.all_eq_true.mpr h)]

/-- **A text that was quoted is read back.** -/
theorem unquote_quotePlus (text : List Char) :
    unquote ((quotePlus text).map fun c => if c = '+' then ' ' else c) = text := by
  have hspaced : ((quotePlus text).map fun c => if c = '+' then ' ' else c) = text.flatMap spacedChar := by
    rw [quotePlus, List.map_flatMap]
    exact congrArg text.flatMap (funext map_plus_quoteChar)
  have hascii : ∀ x ∈ text.flatMap spacedChar, isAscii x = true := by
    intro x hx
    obtain ⟨c, -, hc⟩ := List.mem_flatMap.mp hx
    exact isAscii_spacedChar hc
  rw [hspaced, unquote_of_ascii hascii, unquoteBytes_spaced, decodeReplace_utf8Bytes]

theorem isQuoted_encodePair {pair : List Char × List Char} {c : Char} (h : c ∈ encodePair pair) : isQuoted c = true ∨ c = '=' := by
  rcases List.mem_append.mp h with h | h
  · exact .inl (isQuoted_quotePlus h)
  · rcases List.mem_cons.mp h with rfl | h
    · exact .inr rfl
    · exact .inl (isQuoted_quotePlus h)

/-- The characters of a query that was written. -/
theorem mem_urlencode {pairs : List (List Char × List Char)} {c : Char} (h : c ∈ urlencode pairs) :
    isQuoted c = true ∨ c = '=' ∨ c = '&' := by
  rcases mem_intercalate_singleton h with hc | ⟨piece, hpiece, hc⟩
  · exact .inr (.inr hc)
  · obtain ⟨pair, -, rfl⟩ := List.mem_map.mp hpiece
    exact (isQuoted_encodePair hc).imp_right .inl

/-- **Pairs that were written are read back.** -/
theorem parseQsl_urlencode (pairs : List (List Char × List Char)) : parseQsl (urlencode pairs) = pairs := by
  rcases eq_or_ne pairs [] with rfl | hne
  · rfl
  have hamp : ∀ field ∈ pairs.map encodePair, '&' ∉ field := by
    intro field hfield hmem
    obtain ⟨pair, -, rfl⟩ := List.mem_map.mp hfield
    exact absurd (isQuoted_encodePair hmem) (by decide)
  have hfields : (urlencode pairs).splitOn '&' = pairs.map encodePair :=
    List.splitOn_intercalate '&' hamp fun h => hne (List.map_eq_nil_iff.mp h)
  have hfull : (pairs.map encodePair).filter (· ≠ []) = pairs.map encodePair := by
    refine List.filter_eq_self.mpr fun field hfield => ?_
    obtain ⟨pair, -, rfl⟩ := List.mem_map.mp hfield
    simp [encodePair]
  rw [parseQsl, hfields, hfull, List.map_map]
  refine (List.map_congr_left fun pair _ => ?_).trans (List.map_id pairs)
  have hequals : '=' ∉ quotePlus pair.1 := fun hmem => absurd (isQuoted_quotePlus hmem) (by decide)
  rw [Function.comp_apply, encodePair, splitOnce_append hequals]
  exact Prod.ext (unquote_quotePlus pair.1) (unquote_quotePlus pair.2)

end Queries

/-! ## The parts of a URL -/

structure SplitResult where
  scheme : List Char
  netloc : List Char
  path : List Char
  query : List Char
  fragment : List Char
deriving DecidableEq

/-- `_UNSAFE_URL_BYTES_TO_REMOVE`. -/
def isUnsafe (c : Char) : Bool := c = '\t' || c = '\r' || c = '\n'

/-- Control characters and spaces go at the front, tabs and line ends everywhere. -/
def cleaned (url : List Char) : List Char := (url.dropWhile fun c => c.toNat ≤ 0x20).filter fun c => !isUnsafe c

/-- `scheme_chars`. -/
def isSchemeChar (c : Char) : Bool := c.isAlphanum || c = '+' || c = '-' || c = '.'

def isScheme (text : List Char) : Bool := text.head?.any Char.isAlpha && text.all isSchemeChar

/-- What comes before the first colon, in lower case, if it is a scheme. -/
def splitScheme (url : List Char) : List Char × List Char :=
  let (scheme, rest) := splitOnce ':' url
  if ':' ∈ url ∧ isScheme scheme then (scheme.map Char.toLower, rest) else ([], url)

/-- `_splitnetloc`, after two slashes. -/
def isNetlocEnd (c : Char) : Bool := c = '/' || c = '?' || c = '#'

def splitNetloc (url : List Char) : List Char × List Char :=
  if url.take 2 = ['/', '/'] then ((url.drop 2).takeWhile (!isNetlocEnd ·), (url.drop 2).dropWhile (!isNetlocEnd ·)) else ([], url)

/-- `urlsplit`. What is wrong with brackets that match, or with a network location once it is normalized, is a parameter. -/
def urlsplit (checkNetloc : List Char → Except String Unit) (url : List Char) : Except String SplitResult :=
  let (scheme, url) := splitScheme (cleaned url)
  let (netloc, url) := splitNetloc url
  if decide ('[' ∈ netloc) ≠ decide (']' ∈ netloc) then .error "Invalid IPv6 URL"
  else
    match checkNetloc netloc with
    | .error e => .error e
    | .ok () =>
      let (url, fragment) := splitOnce '#' url
      let (path, query) := splitOnce '?' url
      .ok { scheme, netloc, path, query, fragment }

/-- The schemes with a network location. -/
def usesNetloc : List String :=
  ["", "ftp", "http", "gopher", "nntp", "telnet", "imap", "wais", "file", "mms", "https", "shttp", "snews", "prospero", "rtsp",
    "rtsps", "rtspu", "rsync", "svn", "svn+ssh", "sftp", "nfs", "git", "git+ssh", "ws", "wss", "itms-services"]

/-- The network location and the path, as `urlunsplit` writes them. -/
def unsplitPath (parts : SplitResult) : List Char :=
  if parts.netloc ≠ [] then
    "//".toList ++ parts.netloc ++ (if parts.path ≠ [] ∧ parts.path.head? ≠ some '/' then '/' :: parts.path else parts.path)
  else if parts.path.take 2 = ['/', '/'] then "//".toList ++ parts.path
  else if parts.scheme ≠ [] ∧ String.ofList parts.scheme ∈ usesNetloc ∧ (parts.path = [] ∨ parts.path.head? = some '/') then
    "//".toList ++ parts.path
  else parts.path

/-- A part with its separator, if there is one. -/
def separated (sep : Char) (part : List Char) : List Char := if part ≠ [] then sep :: part else []

def urlunsplit (parts : SplitResult) : List Char :=
  (if parts.scheme ≠ [] then parts.scheme ++ [':'] else []) ++ unsplitPath parts ++ separated '?' parts.query ++
    separated '#' parts.fragment

section Parts

variable {checkNetloc : List Char → Except String Unit} {url : List Char} {parts : SplitResult}

/-- What parts have in common that were split off a URL. -/
structure WellSplit (checkNetloc : List Char → Except String Unit) (parts : SplitResult) : Prop where
  netloc : ∀ c ∈ parts.netloc, isNetlocEnd c = false
  brackets : decide ('[' ∈ parts.netloc) = decide (']' ∈ parts.netloc)
  checked : checkNetloc parts.netloc = .ok ()
  rooted : parts.netloc ≠ [] → parts.path = [] ∨ parts.path.head? = some '/'
  path : '?' ∉ parts.path ∧ '#' ∉ parts.path
  query : '#' ∉ parts.query
  safe : ∀ c ∈ parts.netloc ++ parts.path ++ parts.query ++ parts.fragment, isUnsafe c = false

theorem notMem_splitOnce (sep : Char) (text : List Char) : sep ∉ (splitOnce sep text).1 := fun h =>
  of_decide_eq_true (p := sep ≠ sep) (List.mem_takeWhile_imp (p := (· ≠ sep)) h) rfl

theorem splitOnce_fst_subset (sep : Char) (text : List Char) : (splitOnce sep text).1 ⊆ text :=
  (List.takeWhile_sublist _).subset

theorem splitOnce_snd_subset (sep : Char) (text : List Char) : (splitOnce sep text).2 ⊆ text :=
  ((List.tail_sublist _).trans (List.dropWhile_sublist _)).subset

theorem splitScheme_snd_subset (text : List Char) : (splitScheme text).2 ⊆ text := by
  unfold splitScheme
  dsimp only
  split_ifs
  · exact splitOnce_snd_subset ':' text
  · exact fun _ h => h

theorem splitNetloc_subset (text : List Char) : (splitNetloc text).1 ⊆ text ∧ (splitNetloc text).2 ⊆ text := by
  unfold splitNetloc
  split_ifs
  · have hdrop := List.drop_sublist 2 text
    exact ⟨((List.takeWhile_sublist _).trans hdrop).subset, ((List.dropWhile_sublist _).trans hdrop).subset⟩
  · exact ⟨List.nil_subset _, fun _ h => h⟩

/-- A network location goes up to its end, and there the rest starts. -/
theorem splitNetloc_spec (text : List Char) : (∀ c ∈ (splitNetloc text).1, isNetlocEnd c = false) ∧
    ((splitNetloc text).1 ≠ [] → (splitNetloc text).2.head?.all isNetlocEnd = true) := by
  unfold splitNetloc
  split_ifs
  · refine ⟨fun c hc => ?_, fun _ => ?_⟩
    · simpa using List.mem_takeWhile_imp hc
    · have hhead := List.head?_dropWhile_not (!isNetlocEnd ·) (text.drop 2)
      dsimp only
      generalize ((text.drop 2).dropWhile (!isNetlocEnd ·)).head? = first at hhead ⊢
      cases first with
      | none => rfl
      | some c => simpa using hhead
  · exact ⟨fun c hc => absurd hc List.not_mem_nil, fun hne => absurd rfl hne⟩

/-- A text that starts where a network location ends has no path, or one that starts with a slash. -/
theorem head_splitOnce {rest : List Char} (h : rest.head?.all isNetlocEnd = true) :
    (splitOnce '?' (splitOnce '#' rest).1).1 = [] ∨ (splitOnce '?' (splitOnce '#' rest).1).1.head? = some '/' := by
  cases rest with
  | nil => exact .inl rfl
  | cons c rest =>
    have hc : isNetlocEnd c = true := h
    simp only [isNetlocEnd, Bool.or_eq_true, decide_eq_true_eq] at hc
    rcases hc with (rfl | rfl) | rfl
    · exact .inr rfl
    · exact .inl rfl
    · exact .inl rfl

theorem wellSplit_of_urlsplit (h : urlsplit checkNetloc url = .ok parts) : WellSplit checkNetloc parts := by
  unfold urlsplit at h
  dsimp only at h
  split at h
  · cases h
  next hbrackets =>
  split at h
  · cases h
  next hchecked =>
  cases h
  have hspec := splitNetloc_spec (splitScheme (cleaned url)).2
  have hclean : ∀ c ∈ (splitScheme (cleaned url)).2, isUnsafe c = false := fun c hc => by
    simpa using (List.mem_filter.mp (splitScheme_snd_subset (cleaned url) hc)).2
  have hnetloc := splitNetloc_subset (splitScheme (cleaned url)).2
  generalize (splitScheme (cleaned url)).2 = text at *
  generalize splitNetloc text = pieces at *
  obtain ⟨netloc, rest⟩ := pieces
  have hpath := splitOnce_fst_subset '?' (splitOnce '#' rest).1
  have hquery := splitOnce_snd_subset '?' (splitOnce '#' rest).1
  have hbefore := splitOnce_fst_subset '#' rest
  exact
    { netloc := hspec.1
      brackets := not_not.mp hbrackets
      checked := hchecked
      rooted := fun hne => head_splitOnce (hspec.2 hne)
      path := ⟨notMem_splitOnce '?' _, fun h => notMem_splitOnce '#' rest (hpath h)⟩
      query := fun h => notMem_splitOnce '#' rest (hquery h)
      safe := by
        intro c hc
        simp only [List.mem_append] at hc
        rcases hc with ((hc | hc) | hc) | hc
        · exact hclean c (hnetloc.1 hc)
        · exact hclean c (hnetloc.2 (hbefore (hpath hc)))
        · exact hclean c (hnetloc.2 (hbefore (hquery hc)))
        · exact hclean c (hnetloc.2 (splitOnce_snd_subset '#' rest hc)) }

theorem splitOnce_separated {sep : Char} {before : List Char} (h : sep ∉ before) (part : List Char) :
    splitOnce sep (before ++ separated sep part) = (before, part) := by
  unfold separated
  split_ifs with hpart
  · exact splitOnce_append h part
  · rw [List.append_nil, splitOnce_of_notMem h, not_not.mp hpart]

theorem splitNetloc_append {netloc rest : List Char} (h : ∀ c ∈ netloc, isNetlocEnd c = false)
    (hrest : rest.head?.all isNetlocEnd = true) : splitNetloc ('/' :: '/' :: (netloc ++ rest)) = (netloc, rest) := by
  have hkeep : ∀ c ∈ netloc, (!isNetlocEnd c) = true := fun c hc => by rw [h c hc]; rfl
  have htake : ('/' :: '/' :: (netloc ++ rest)).take 2 = ['/', '/'] := rfl
  rw [splitNetloc, if_pos htake]
  change ((netloc ++ rest).takeWhile _, (netloc ++ rest).dropWhile _) = _
  rw [List.takeWhile_append_of_pos hkeep, List.dropWhile_append_of_pos hkeep]
  cases rest with
  | nil => simp
  | cons c rest =>
    have hc : isNetlocEnd c = true := hrest
    simp [hc]

theorem take_append_ne {path rest : List Char} (h : path.take 2 ≠ ['/', '/'])
    (hrest : rest = [] ∨ rest.head? = some '?' ∨ rest.head? = some '#') : (path ++ rest).take 2 ≠ ['/', '/'] := by
  have hfirst : ∀ c ∈ rest.head?, c ≠ '/' := by
    rintro c hc rfl
    rcases hrest with rfl | hrest | hrest
    · exact absurd hc (by simp)
    all_goals
      rw [hrest] at hc
      exact absurd hc (by decide)
  match path, rest with
  | [], [] => exact List.cons_ne_nil _ _ ∘ Eq.symm
  | [], c :: rest => exact fun he => hfirst c rfl (List.cons.inj he).1
  | [a], [] => simp
  | [a], c :: rest =>
    intro he
    exact hfirst c rfl (List.cons.inj (List.cons.inj he).2).1
  | a :: b :: path, rest => exact h

/-- The network location and the path come apart again, whatever query and fragment follow. -/
theorem splitNetloc_unsplitPath (h : WellSplit checkNetloc parts) {rest : List Char}
    (hrest : rest = [] ∨ rest.head? = some '?' ∨ rest.head? = some '#') :
    splitNetloc (unsplitPath parts ++ rest) = (parts.netloc, parts.path ++ rest) := by
  have hend : rest.head?.all isNetlocEnd = true := by
    rcases hrest with rfl | hrest | hrest
    · rfl
    all_goals rw [hrest]; rfl
  have hends : parts.path = [] ∨ parts.path.head? = some '/' → (parts.path ++ rest).head?.all isNetlocEnd = true := by
    rintro (hpath | hpath)
    · rw [hpath]
      exact hend
    · rw [List.head?_append, hpath]
      rfl
  unfold unsplitPath
  split_ifs with hnetloc hslash hslashes huses
  · exact absurd hslash.2 (not_not.mpr ((h.rooted hnetloc).resolve_left hslash.1))
  · have happend : "//".toList ++ parts.netloc ++ parts.path ++ rest = '/' :: '/' :: (parts.netloc ++ (parts.path ++ rest)) := by
      simp
    rw [happend]
    exact splitNetloc_append h.netloc (hends (h.rooted hnetloc))
  · have hempty : parts.netloc = [] := not_not.mp hnetloc
    have hpath : parts.path.head? = some '/' := by
      rw [← List.take_append_drop 2 parts.path, hslashes]
      rfl
    rw [hempty]
    change splitNetloc ('/' :: '/' :: ([] ++ (parts.path ++ rest))) = ([], parts.path ++ rest)
    exact splitNetloc_append (fun c hc => absurd hc List.not_mem_nil) (hends (.inr hpath))
  · have hempty : parts.netloc = [] := not_not.mp hnetloc
    rw [hempty]
    change splitNetloc ('/' :: '/' :: ([] ++ (parts.path ++ rest))) = ([], parts.path ++ rest)
    exact splitNetloc_append (fun c hc => absurd hc List.not_mem_nil) (hends huses.2.2)
  · have hempty : parts.netloc = [] := not_not.mp hnetloc
    have hplain : (parts.path ++ rest).take 2 ≠ ['/', '/'] := take_append_ne hslashes hrest
    rw [splitNetloc, if_neg hplain, hempty]

theorem not_control_of_isAlpha {c : Char} (h : c.isAlpha = true) : ¬ c.toNat ≤ 0x20 := by
  delta Char.isAlpha Char.isUpper Char.isLower at h
  simp only [Bool.or_eq_true, Bool.and_eq_true, decide_eq_true_eq, UInt32.le_iff_toNat_le] at h
  change ¬ c.val.toNat ≤ 0x20
  simp only [Char.reduceVal, UInt32.reduceToNat] at h
  omega

theorem not_isUnsafe_of_isSchemeChar {c : Char} (h : isSchemeChar c = true) : isUnsafe c = false := by
  rw [isUnsafe, Bool.or_eq_false_iff, Bool.or_eq_false_iff]
  refine ⟨⟨?_, ?_⟩, ?_⟩ <;> refine decide_eq_false ?_ <;> rintro rfl <;> exact absurd h (by decide)

theorem isUnsafe_unsplitPath (h : WellSplit checkNetloc parts) {c : Char} (hc : c ∈ unsplitPath parts) : isUnsafe c = false := by
  have hmem : c = '/' ∨ c ∈ parts.netloc ∨ c ∈ parts.path := by
    have hslashes : ∀ text : List Char, c ∈ "//".toList ++ text → c = '/' ∨ c ∈ text := fun text hmem => by simpa using hmem
    unfold unsplitPath at hc
    split_ifs at hc
    · rw [List.append_assoc] at hc
      exact (hslashes _ hc).elim .inl fun hc => by simp at hc; tauto
    · rw [List.append_assoc] at hc
      exact (hslashes _ hc).imp_right List.mem_append.mp
    · exact (hslashes _ hc).imp_right .inr
    · exact (hslashes _ hc).imp_right .inr
    · exact .inr (.inr hc)
  rcases hmem with rfl | hc | hc
  · rfl
  · exact h.safe c (by simp [hc])
  · exact h.safe c (by simp [hc])

theorem mem_separated {sep c : Char} {part : List Char} (h : c ∈ separated sep part) : c = sep ∨ c ∈ part := by
  unfold separated at h
  split_ifs at h
  · exact List.mem_cons.mp h
  · exact absurd h List.not_mem_nil

/-- A query and a fragment, with their separators. -/
def queryAndFragment (parts : SplitResult) : List Char := separated '?' parts.query ++ separated '#' parts.fragment

theorem head_queryAndFragment (parts : SplitResult) : queryAndFragment parts = [] ∨
    (queryAndFragment parts).head? = some '?' ∨ (queryAndFragment parts).head? = some '#' := by
  unfold queryAndFragment separated
  split_ifs
  · exact .inr (.inl rfl)
  · exact .inr (.inl rfl)
  · exact .inr (.inr rfl)
  · exact .inl rfl

theorem isScheme_cons {scheme : List Char} (h : isScheme scheme = true) :
    (∃ a rest, scheme = a :: rest ∧ a.isAlpha = true) ∧ ∀ c ∈ scheme, isSchemeChar c = true := by
  rw [isScheme, Bool.and_eq_true, List.all_eq_true] at h
  refine ⟨?_, h.2⟩
  cases scheme with
  | nil => exact absurd h.1 (by decide)
  | cons a rest => exact ⟨a, rest, rfl, h.1⟩

theorem urlunsplit_eq (hscheme : isScheme parts.scheme = true) :
    urlunsplit parts = parts.scheme ++ ':' :: (unsplitPath parts ++ queryAndFragment parts) := by
  obtain ⟨⟨a, rest, ha, -⟩, -⟩ := isScheme_cons hscheme
  rw [urlunsplit, if_pos (by rw [ha]; exact List.cons_ne_nil a rest), queryAndFragment]
  simp

theorem cleaned_urlunsplit (h : WellSplit checkNetloc parts) (hscheme : isScheme parts.scheme = true) :
    cleaned (urlunsplit parts) = urlunsplit parts := by
  obtain ⟨⟨a, rest, ha, hletter⟩, hchars⟩ := isScheme_cons hscheme
  have hsafe : ∀ c ∈ urlunsplit parts, isUnsafe c = false := by
    intro c hc
    rw [urlunsplit_eq hscheme, queryAndFragment, List.mem_append, List.mem_cons, List.mem_append, List.mem_append] at hc
    rcases hc with hc | rfl | hc | hc | hc
    · exact not_isUnsafe_of_isSchemeChar (hchars c hc)
    · rfl
    · exact isUnsafe_unsplitPath h hc
    · rcases mem_separated hc with rfl | hc
      · rfl
      · exact h.safe c (by simp [hc])
    · rcases mem_separated hc with rfl | hc
      · rfl
      · exact h.safe c (by simp [hc])
  have hdrop : (urlunsplit parts).dropWhile (fun c => decide (c.toNat ≤ 0x20)) = urlunsplit parts := by
    rw [urlunsplit_eq hscheme, ha, List.cons_append, List.dropWhile_cons_of_neg (by simpa using not_control_of_isAlpha hletter)]
  rw [cleaned, hdrop]
  exact List.filter_eq_self.mpr fun c hc => by rw [hsafe c hc]; rfl

theorem splitScheme_urlunsplit (hscheme : isScheme parts.scheme = true) (hlower : parts.scheme.map Char.toLower = parts.scheme) :
    splitScheme (urlunsplit parts) = (parts.scheme, unsplitPath parts ++ queryAndFragment parts) := by
  have hcolon : ':' ∉ parts.scheme := fun hmem => absurd ((isScheme_cons hscheme).2 ':' hmem) (by decide)
  have hmem : ':' ∈ parts.scheme ++ ':' :: (unsplitPath parts ++ queryAndFragment parts) := by simp
  rw [urlunsplit_eq hscheme, splitScheme, splitOnce_append hcolon]
  dsimp only
  rw [if_pos ⟨hmem, hscheme⟩, hlower]

/-- **Parts that were split off a URL are split off again**, with any scheme. -/
theorem urlsplit_urlunsplit (h : WellSplit checkNetloc parts) (hscheme : isScheme parts.scheme = true)
    (hlower : parts.scheme.map Char.toLower = parts.scheme) : urlsplit checkNetloc (urlunsplit parts) = .ok parts := by
  have hhash : '#' ∉ parts.path ++ separated '?' parts.query := by
    rw [List.mem_append, not_or]
    exact ⟨h.path.2, fun hmem => (mem_separated hmem).elim (absurd · (by decide)) h.query⟩
  rw [urlsplit, cleaned_urlunsplit h hscheme, splitScheme_urlunsplit hscheme hlower]
  dsimp only
  rw [splitNetloc_unsplitPath h (head_queryAndFragment parts)]
  dsimp only
  rw [if_neg (not_not.mpr h.brackets), h.checked, queryAndFragment, ← List.append_assoc, splitOnce_separated hhash,
    splitOnce_separated h.path.1]

/-- Another scheme and a query that was written. -/
theorem WellSplit.written (h : WellSplit checkNetloc parts) (scheme : List Char) (pairs : List (List Char × List Char)) :
    WellSplit checkNetloc { parts with scheme, query := urlencode pairs } where
  netloc := h.netloc
  brackets := h.brackets
  checked := h.checked
  rooted := h.rooted
  path := h.path
  query := fun hmem => absurd (mem_urlencode hmem) (by decide)
  safe := by
    intro c hc
    simp only [List.mem_append] at hc
    rcases hc with ((hc | hc) | hc) | hc
    · exact h.safe c (by simp [hc])
    · exact h.safe c (by simp [hc])
    · cases hunsafe : isUnsafe c with
      | false => rfl
      | true =>
        have hbad : ∀ x ∈ ['\t', '\r', '\n'], ¬ (isQuoted x = true ∨ x = '=' ∨ x = '&') :=
          List.forall_mem_cons.mpr ⟨by decide, List.forall_mem_cons.mpr ⟨by decide, List.forall_mem_singleton.mpr (by decide)⟩⟩
        have hmem : c ∈ ['\t', '\r', '\n'] := by simpa [isUnsafe, or_assoc] using hunsafe
        exact absurd (mem_urlencode hc) (hbad c hmem)
    · exact h.safe c (by simp [hc])

end Parts

end CodeReader.Text
