import CodeReader.Text.Integers

/-!
# What `json.loads` reads of bytes

A text is a list of code points here, since Python's may have surrogates among them.

* `decodeDetected` — the bytes in the encoding that is detected, surrogates passed;
* `PyFloat`, `doubleOf` — floating-point numbers, and the one nearest to a decimal;
* `PyJson`, `loads` — the values, and the one that bytes say, nested no deeper than the interpreter recurses.
-/

namespace CodeReader.Text

/-- The code points of a text. -/
def codes (text : String) : List Nat := text.toList.map Char.toNat

/-! ## Encodings -/

def isSurrogate (n : Nat) : Bool := 0xD800 ≤ n && n < 0xE000

def isContinuation (b : UInt8) : Bool := 0x80 ≤ b.toNat && b.toNat < 0xC0

/-- UTF-8: the shortest form, up to U+10FFFF, and surrogates only if they are passed. -/
def utf8Decode (surrogatepass : Bool) : List UInt8 → Option (List Nat)
  | [] => some []
  | a :: bytes =>
    if a.toNat < 0x80 then (utf8Decode surrogatepass bytes).map (a.toNat :: ·)
    else
      match bytes with
      | [] => none
      | b :: bytes =>
        if 0xC2 ≤ a.toNat && a.toNat < 0xE0 && isContinuation b then
          (utf8Decode surrogatepass bytes).map ((a.toNat % 32 * 64 + b.toNat % 64) :: ·)
        else
          match bytes with
          | [] => none
          | c :: bytes =>
            let n := a.toNat % 16 * 0x1000 + b.toNat % 64 * 64 + c.toNat % 64
            if 0xE0 ≤ a.toNat && a.toNat < 0xF0 && isContinuation b && isContinuation c && 0x800 ≤ n &&
                (surrogatepass || !isSurrogate n) then
              (utf8Decode surrogatepass bytes).map (n :: ·)
            else
              match bytes with
              | [] => none
              | d :: bytes =>
                let n := a.toNat % 8 * 0x40000 + b.toNat % 64 * 0x1000 + c.toNat % 64 * 64 + d.toNat % 64
                if 0xF0 ≤ a.toNat && a.toNat < 0xF5 && isContinuation b && isContinuation c && isContinuation d &&
                    0x10000 ≤ n && n < 0x110000 then
                  (utf8Decode surrogatepass bytes).map (n :: ·)
                else none

/-- Two surrogates, the high one first, are one code point. -/
def joinSurrogates : List Nat → List Nat
  | high :: low :: units =>
    if 0xD800 ≤ high && high < 0xDC00 && 0xDC00 ≤ low && low < 0xE000 then
      (0x10000 + (high - 0xD800) * 0x400 + (low - 0xDC00)) :: joinSurrogates units
    else high :: joinSurrogates (low :: units)
  | units => units

def utf16Units (bigEndian : Bool) : List UInt8 → Option (List Nat)
  | [] => some []
  | [_] => none
  | a :: b :: bytes =>
    (utf16Units bigEndian bytes).map ((if bigEndian then a.toNat * 256 + b.toNat else b.toNat * 256 + a.toNat) :: ·)

def utf16Decode (bigEndian : Bool) (bytes : List UInt8) : Option (List Nat) := (utf16Units bigEndian bytes).map joinSurrogates

def utf32Decode (bigEndian : Bool) : List UInt8 → Option (List Nat)
  | [] => some []
  | a :: b :: c :: d :: bytes =>
    let n := if bigEndian then ((a.toNat * 256 + b.toNat) * 256 + c.toNat) * 256 + d.toNat
      else ((d.toNat * 256 + c.toNat) * 256 + b.toNat) * 256 + a.toNat
    if n < 0x110000 then (utf32Decode bigEndian bytes).map (n :: ·) else none
  | _ => none

/-- `b.decode(detect_encoding(b), "surrogatepass")`: by the byte order mark, or by the zeros among the first bytes. -/
def decodeDetected (bytes : List UInt8) : Option (List Nat) :=
  if [0, 0, 0xFE, 0xFF].isPrefixOf bytes then utf32Decode true (bytes.drop 4)
  else if [0xFF, 0xFE, 0, 0].isPrefixOf bytes then utf32Decode false (bytes.drop 4)
  else if [0xFE, 0xFF].isPrefixOf bytes then utf16Decode true (bytes.drop 2)
  else if [0xFF, 0xFE].isPrefixOf bytes then utf16Decode false (bytes.drop 2)
  else if [0xEF, 0xBB, 0xBF].isPrefixOf bytes then utf8Decode true (bytes.drop 3)
  else
    match bytes with
    | a :: b :: c :: d :: _ =>
      if a = 0 then if b = 0 then utf32Decode true bytes else utf16Decode true bytes
      else if b = 0 then if c = 0 ∧ d = 0 then utf32Decode false bytes else utf16Decode false bytes
      else utf8Decode true bytes
    | [a, b] =>
      if a = 0 then utf16Decode true bytes else if b = 0 then utf16Decode false bytes else utf8Decode true bytes
    | _ => utf8Decode true bytes

/-! ## Numbers -/

/-- A double: `mantissa * 2 ^ exponent`, or no number. -/
inductive PyFloat
  | nan
  | infinite (negative : Bool)
  | finite (negative : Bool) (mantissa : Nat) (exponent : Int)
  deriving DecidableEq

/-- The quotient, rounded to the nearest, and to the even one of two. -/
def roundQuotient (n d : Nat) : Nat :=
  if d < 2 * (n % d) ∨ (d = 2 * (n % d) ∧ n / d % 2 = 1) then n / d + 1 else n / d

/-- The double nearest to the positive `n / d`: 53 bits, and no bit below `2 ^ -1074`. -/
def nearestDouble (negative : Bool) (n d : Nat) : PyFloat :=
  let scale : Int := (n.log2 : Int) - d.log2
  let atLeast : Bool := if 0 ≤ scale then d * 2 ^ scale.toNat ≤ n else d ≤ n * 2 ^ (-scale).toNat
  let exponent : Int := max (if atLeast then scale - 52 else scale - 53) (-1074)
  let mantissa := if 0 ≤ exponent then roundQuotient n (d * 2 ^ exponent.toNat) else roundQuotient (n * 2 ^ (-exponent).toNat) d
  if 0 ≤ exponent ∧ 2 ^ 1024 ≤ mantissa * 2 ^ exponent.toNat then .infinite negative else .finite negative mantissa exponent

/-- `float` of the decimal `mantissa * 10 ^ exponent`; what is far out of the range is not computed. -/
def doubleOf (negative : Bool) (mantissa : Nat) (exponent : Int) : PyFloat :=
  let magnitude : Int := (Nat.toDigits 10 mantissa).length + exponent
  if mantissa = 0 ∨ magnitude < -330 then .finite negative 0 0
  else if 310 < magnitude then .infinite negative
  else if 0 ≤ exponent then nearestDouble negative (mantissa * 10 ^ exponent.toNat) 1
  else nearestDouble negative mantissa (10 ^ (-exponent).toNat)

example : doubleOf false 1 (-1) = .finite false 7205759403792794 (-56) := by decide +kernel

/-! ## Values -/

inductive PyJson
  | null
  | bool (b : Bool)
  | int (n : Int)
  | float (x : PyFloat)
  | str (s : List Nat)
  | arr (items : List PyJson)
  | obj (fields : List (List Nat × PyJson))

namespace PyJson

/-- `d.get(key)`; of two fields of one name, the last. -/
def get? (fields : List (List Nat × PyJson)) (key : String) : Option PyJson :=
  (fields.reverse.find? (·.1 == codes key)).map (·.2)

def isSpaceCode (c : Nat) : Bool := c = 32 || c = 9 || c = 10 || c = 13

def skipSpace (text : List Nat) : List Nat := text.dropWhile isSpaceCode

def isDigitCode (c : Nat) : Bool := 48 ≤ c && c ≤ 57

def digitsNat (digits : List Nat) : Nat := digits.foldl (fun n c => 10 * n + (c - 48)) 0

def hexCode (c : Nat) : Option Nat :=
  if 48 ≤ c && c ≤ 57 then some (c - 48)
  else if 97 ≤ c && c ≤ 102 then some (c - 87)
  else if 65 ≤ c && c ≤ 70 then some (c - 55)
  else none

/-- Four hexadecimal digits. -/
def scanHex : List Nat → Option (Nat × List Nat)
  | a :: b :: c :: d :: text => do
    let a ← hexCode a
    let b ← hexCode b
    let c ← hexCode c
    let d ← hexCode d
    some (((a * 16 + b) * 16 + c) * 16 + d, text)
  | _ => none

/-- What is behind a backslash. -/
def scanEscape : List Nat → Option (Nat × List Nat)
  | [] => none
  | c :: text =>
    if c = 34 ∨ c = 92 ∨ c = 47 then some (c, text)
    else if c = 98 then some (8, text)
    else if c = 102 then some (12, text)
    else if c = 110 then some (10, text)
    else if c = 114 then some (13, text)
    else if c = 116 then some (9, text)
    else if c = 117 then do
      let (n, text) ← scanHex text
      if 0xD800 ≤ n ∧ n < 0xDC00 then
        match text with
        | 92 :: 117 :: rest => do
          let (m, rest) ← scanHex rest
          -- a high surrogate without a low one stands for itself
          if 0xDC00 ≤ m ∧ m < 0xE000 then some (0x10000 + (n - 0xD800) * 0x400 + (m - 0xDC00), rest) else some (n, text)
        | _ => some (n, text)
      else some (n, text)
    else none

/-- The code points up to the quotation mark; there are no more than the number. -/
def scanString : Nat → List Nat → Option (List Nat × List Nat)
  | _, [] => none
  | 0, _ => none
  | n + 1, c :: text =>
    if c = 34 then some ([], text)
    else if c = 92 then do
      let (c, text) ← scanEscape text
      let (s, text) ← scanString n text
      some (c :: s, text)
    else if c < 32 then none
    else do
      let (s, text) ← scanString n text
      some (c :: s, text)

/-- An exponent, if there are digits. -/
def scanExponent : List Nat → Option (Int × List Nat)
  | e :: text =>
    if e = 101 ∨ e = 69 then
      let (negative, text) := match text with
        | 45 :: text => (true, text)
        | 43 :: text => (false, text)
        | text => (false, text)
      let digits := text.takeWhile isDigitCode
      if digits = [] then none
      else some (if negative then -(digitsNat digits : Int) else digitsNat digits, text.drop digits.length)
    else none
  | [] => none

/-- A number behind its sign: no zero before another digit; a float if it has a fraction or an exponent. -/
def scanNumber (negative : Bool) (text : List Nat) : Option (PyJson × List Nat) :=
  let whole := match text with
    | 48 :: _ => [48]
    | text => text.takeWhile isDigitCode
  let text := text.drop whole.length
  let fraction := match text with
    | 46 :: text => text.takeWhile isDigitCode
    | _ => []
  let text := if fraction = [] then text else text.drop (fraction.length + 1)
  if whole = [] then none
  else
    match scanExponent text with
    | some (exponent, text) =>
      some (float (doubleOf negative (digitsNat (whole ++ fraction)) (exponent - fraction.length)), text)
    | none =>
      if fraction ≠ [] then some (float (doubleOf negative (digitsNat (whole ++ fraction)) (-fraction.length)), text)
      else if intMaxStrDigits < whole.length then none
      else some (int (if negative then -(digitsNat whole : Int) else digitsNat whole), text)

def scanWord (word : String) (value : PyJson) (text : List Nat) : Option (PyJson × List Nat) :=
  if (codes word).isPrefixOf text then some (value, text.drop word.length) else none

mutual
/-- A value; the first number bounds the length, the second the depth. -/
def scan : Nat → Nat → List Nat → Option (PyJson × List Nat)
  | 0, _, _ => none
  | _, _, [] => none
  | n + 1, depth, c :: text =>
    if c = 34 then (scanString text.length text).map fun p => (str p.1, p.2)
    else if c = 123 then
      match depth, skipSpace text with
      | 0, _ => none
      | _, 125 :: text => some (obj [], text)
      | depth + 1, text => (scanFields n depth text).map fun p => (obj p.1, p.2)
    else if c = 91 then
      match depth, skipSpace text with
      | 0, _ => none
      | _, 93 :: text => some (arr [], text)
      | depth + 1, text => (scanItems n depth text).map fun p => (arr p.1, p.2)
    else if c = 110 then scanWord "null" null (c :: text)
    else if c = 116 then scanWord "true" (bool true) (c :: text)
    else if c = 102 then scanWord "false" (bool false) (c :: text)
    else if c = 78 then scanWord "NaN" (float .nan) (c :: text)
    else if c = 73 then scanWord "Infinity" (float (.infinite false)) (c :: text)
    else if c = 45 then
      if (codes "Infinity").isPrefixOf text then some (float (.infinite true), text.drop "Infinity".length)
      else scanNumber true text
    else scanNumber false (c :: text)
def scanItems : Nat → Nat → List Nat → Option (List PyJson × List Nat)
  | 0, _, _ => none
  | n + 1, depth, text => do
    let (item, text) ← scan n depth text
    match skipSpace text with
    | 93 :: text => some ([item], text)
    | 44 :: text => do
      let (items, text) ← scanItems n depth (skipSpace text)
      some (item :: items, text)
    | _ => none
def scanFields : Nat → Nat → List Nat → Option (List (List Nat × PyJson) × List Nat)
  | 0, _, _ => none
  | n + 1, depth, text =>
    match text with
    | 34 :: text => do
      let (key, text) ← scanString text.length text
      match skipSpace text with
      | 58 :: text => do
        let (value, text) ← scan n depth (skipSpace text)
        match skipSpace text with
        | 125 :: text => some ([(key, value)], text)
        | 44 :: text => do
          let (fields, text) ← scanFields n depth (skipSpace text)
          some ((key, value) :: fields, text)
        | _ => none
      | _ => none
    | _ => none
end

/-- `json.loads` of bytes; `none` is what it raises: a `ValueError`, or past the depth a `RecursionError`. -/
def loads (recursionLimit : Nat) (bytes : List UInt8) : Option PyJson := do
  let text ← decodeDetected bytes
  match scan (2 * text.length + 2) recursionLimit (skipSpace text) with
  | some (value, rest) => if skipSpace rest = [] then some value else none
  | none => none

end PyJson

end CodeReader.Text
