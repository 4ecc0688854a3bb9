import CodeReader.Text.Hex

/-!
# JSON texts

Values and texts of JSON, the texts as `json.dumps` writes them; of the numbers, the integers.

* `Json`, `Json.get?` — the values;
* `Json.dumps`, `Json.loads` — a value as a text, and the value of a text;
* `Json.loads_dumps` — **what is written is read back**.
-/

namespace CodeReader.Text

inductive Json
  | null
  | bool (b : Bool)
  | int (n : Int)
  | str (s : String)
  | arr (items : List Json)
  | obj (fields : List (String × Json))

namespace Json

/-- The field of an object; of two fields of one name, the last. -/
def get? (key : String) : Json → Option Json
  | obj fields => (fields.reverse.find? (·.1 == key)).map (·.2)
  | _ => none

/-! ## Writing -/

/-- `\uXXXX`. -/
def unicodeEscape (n : Nat) : List Char := '\\' :: 'u' :: hexDigits 4 n

/-- A character of a string: the ones outside printable ASCII are escaped, those past U+FFFF as two surrogates. -/
def dumpChar (c : Char) : List Char :=
  if c = '"' then ['\\', '"']
  else if c = '\\' then ['\\', '\\']
  else if c = '\n' then ['\\', 'n']
  else if c = '\r' then ['\\', 'r']
  else if c = '\t' then ['\\', 't']
  else if c.toNat = 12 then ['\\', 'f']
  else if c.toNat = 8 then ['\\', 'b']
  else if 32 ≤ c.toNat ∧ c.toNat ≤ 126 then [c]
  else if c.toNat < 0x10000 then unicodeEscape c.toNat
  else unicodeEscape (0xD800 + (c.toNat - 0x10000) / 0x400) ++ unicodeEscape (0xDC00 + (c.toNat - 0x10000) % 0x400)

def dumpString (s : String) : List Char := '"' :: (s.toList.flatMap dumpChar ++ ['"'])

def dumpInt (n : Int) : List Char :=
  if n < 0 then '-' :: Nat.toDigits 10 n.natAbs else Nat.toDigits 10 n.natAbs

mutual
def dump : Json → List Char
  | null => "null".toList
  | bool true => "true".toList
  | bool false => "false".toList
  | int n => dumpInt n
  | str s => dumpString s
  | arr [] => ['[', ']']
  | arr (item :: items) => '[' :: (dump item ++ dumpItems items)
  | obj [] => ['{', '}']
  | obj ((key, value) :: fields) => '{' :: (dumpString key ++ ':' :: ' ' :: (dump value ++ dumpFields fields))
/-- The rest of an array. -/
def dumpItems : List Json → List Char
  | [] => [']']
  | item :: items => ',' :: ' ' :: (dump item ++ dumpItems items)
/-- The rest of an object. -/
def dumpFields : List (String × Json) → List Char
  | [] => ['}']
  | (key, value) :: fields => ',' :: ' ' :: (dumpString key ++ ':' :: ' ' :: (dump value ++ dumpFields fields))
end

/-- `json.dumps`. -/
def dumps (value : Json) : String := String.ofList value.dump

/-! ## Reading -/

def isSpace (c : Char) : Bool := c = ' ' || c = '\n' || c = '\r' || c = '\t'

def skip (text : List Char) : List Char := text.dropWhile isSpace

/-- Four hexadecimal digits, and the text behind them. -/
def readEscape (text : List Char) : Option (Nat × List Char) :=
  if 4 ≤ text.length then (ofHex (text.take 4)).map fun n => (n, text.drop 4) else none

/-- The character behind `\u`: one code point below U+10000, or two surrogates. -/
def readUnicode (text : List Char) : Option (Char × List Char) := do
  let (n, text) ← readEscape text
  if 0xD800 ≤ n ∧ n < 0xDC00 then
    match text with
    | '\\' :: 'u' :: text => do
      let (m, text) ← readEscape text
      if 0xDC00 ≤ m ∧ m < 0xE000 then some (Char.ofNat (0x10000 + (n - 0xD800) * 0x400 + (m - 0xDC00)), text) else none
    | _ => none
  else if 0xDC00 ≤ n ∧ n < 0xE000 then none
  else some (Char.ofNat n, text)

/-- One character of a string. -/
def readChar : List Char → Option (Char × List Char)
  | '\\' :: 'u' :: text => readUnicode text
  | '\\' :: '"' :: text => some ('"', text)
  | '\\' :: '\\' :: text => some ('\\', text)
  | '\\' :: '/' :: text => some ('/', text)
  | '\\' :: 'n' :: text => some ('\n', text)
  | '\\' :: 'r' :: text => some ('\r', text)
  | '\\' :: 't' :: text => some ('\t', text)
  | '\\' :: 'f' :: text => some (Char.ofNat 12, text)
  | '\\' :: 'b' :: text => some (Char.ofNat 8, text)
  | c :: text => if c = '\\' ∨ c = '"' ∨ c.toNat < 32 then none else some (c, text)
  | [] => none

/-- The characters up to the quotation mark. -/
def readChars : Nat → List Char → Option (List Char × List Char)
  | _, '"' :: text => some ([], text)
  | 0, _ => none
  | n + 1, text => do
    let (c, text) ← readChar text
    let (cs, text) ← readChars n text
    some (c :: cs, text)

/-- A string behind its first quotation mark. -/
def readString (text : List Char) : Option (String × List Char) :=
  (readChars text.length text).map fun p => (String.ofList p.1, p.2)

/-- A number: no zero before another digit. -/
def readNat (text : List Char) : Option (Nat × List Char) :=
  match text.takeWhile Char.isDigit with
  | [] => none
  | '0' :: _ => some (0, text.tail)
  | digits => some (Nat.ofDigitChars 10 digits 0, text.drop digits.length)

/-- The rest of a word. -/
def readWord (word : List Char) (value : Json) (text : List Char) : Option (Json × List Char) :=
  if word.isPrefixOf text then some (value, text.drop word.length) else none

mutual
/-- A value; the number bounds the depth and the lengths. -/
def read : Nat → List Char → Option (Json × List Char)
  | 0, _ => none
  | n + 1, text =>
    match skip text with
    | [] => none
    | c :: text =>
      if c.isDigit then (readNat (c :: text)).map fun p => (int p.1, p.2)
      else if c = '-' then (readNat text).map fun p => (int (-p.1), p.2)
      else if c = '"' then (readString text).map fun p => (str p.1, p.2)
      else if c = '[' then
        match skip text with
        | ']' :: text => some (arr [], text)
        | text => do
          let (item, text) ← read n text
          let (items, text) ← readItems n text
          some (arr (item :: items), text)
      else if c = '{' then
        match skip text with
        | '}' :: text => some (obj [], text)
        | text => do
          let (field, text) ← readField n text
          let (fields, text) ← readFields n text
          some (obj (field :: fields), text)
      else if c = 'n' then readWord "ull".toList null text
      else if c = 't' then readWord "rue".toList (bool true) text
      else if c = 'f' then readWord "alse".toList (bool false) text
      else none
def readItems : Nat → List Char → Option (List Json × List Char)
  | 0, _ => none
  | n + 1, text =>
    match skip text with
    | ']' :: text => some ([], text)
    | ',' :: text => do
      let (item, text) ← read n text
      let (items, text) ← readItems n text
      some (item :: items, text)
    | _ => none
def readField : Nat → List Char → Option ((String × Json) × List Char)
  | 0, _ => none
  | n + 1, text =>
    match skip text with
    | '"' :: text => do
      let (key, text) ← readString text
      match skip text with
      | ':' :: text => do
        let (value, text) ← read n text
        some ((key, value), text)
      | _ => none
    | _ => none
def readFields : Nat → List Char → Option (List (String × Json) × List Char)
  | 0, _ => none
  | n + 1, text =>
    match skip text with
    | '}' :: text => some ([], text)
    | ',' :: text => do
      let (field, text) ← readField n text
      let (fields, text) ← readFields n text
      some (field :: fields, text)
    | _ => none
end

/-- `json.loads`. -/
def loads (text : String) : Option Json :=
  match read (text.toList.length + 1) text.toList with
  | some (value, rest) => if skip rest = [] then some value else none
  | none => none

/-! ## What is written is read back -/

theorem skip_cons {c : Char} {text : List Char} (h : isSpace c = false) : skip (c :: text) = c :: text := by
  rw [skip, List.dropWhile_cons_of_neg (by simp [h])]

/-! ### Strings -/

theorem readEscape_hexDigits {n : Nat} (h : n < 0x10000) (text : List Char) :
    readEscape (hexDigits 4 n ++ text) = some (n, text) := by
  have htake : (hexDigits 4 n ++ text).take 4 = hexDigits 4 n := List.take_left' (length_hexDigits 4 n)
  have hdrop : (hexDigits 4 n ++ text).drop 4 = text := List.drop_left' (length_hexDigits 4 n)
  have hlong : 4 ≤ (hexDigits 4 n ++ text).length := by simp
  have hmod : n % 16 ^ 4 = n := Nat.mod_eq_of_lt h
  rw [readEscape, if_pos hlong, htake, hdrop, ofHex_hexDigits, hmod]
  rfl

theorem toNat_valid (c : Char) : c.toNat < 0xD800 ∨ 0xDFFF < c.toNat ∧ c.toNat < 0x110000 := c.valid

theorem readUnicode_surrogates {high low : Nat} (hhigh : 0xD800 ≤ high ∧ high < 0xDC00)
    (hlow : 0xDC00 ≤ low ∧ low < 0xE000) (text : List Char) :
    readUnicode (hexDigits 4 high ++ (unicodeEscape low ++ text)) =
      some (Char.ofNat (0x10000 + (high - 0xD800) * 0x400 + (low - 0xDC00)), text) := by
  have hhigh' : high < 0x10000 := by omega
  have hlow' : low < 0x10000 := by omega
  unfold readUnicode unicodeEscape
  rw [readEscape_hexDigits hhigh']
  simp only [Option.bind_eq_bind, Option.bind_some, List.cons_append]
  rw [if_pos hhigh, readEscape_hexDigits hlow']
  simp only [Option.bind_some]
  rw [if_pos hlow]

theorem readUnicode_plain {n : Nat} (h : n < 0xD800 ∨ 0xDFFF < n ∧ n < 0x10000) (text : List Char) :
    readUnicode (hexDigits 4 n ++ text) = some (Char.ofNat n, text) := by
  have hsmall : n < 0x10000 := by omega
  have hhigh : ¬ (0xD800 ≤ n ∧ n < 0xDC00) := by omega
  have hlow : ¬ (0xDC00 ≤ n ∧ n < 0xE000) := by omega
  unfold readUnicode
  rw [readEscape_hexDigits hsmall]
  simp only [Option.bind_eq_bind, Option.bind_some]
  rw [if_neg hhigh, if_neg hlow]

theorem readChar_dumpChar (c : Char) (text : List Char) : readChar (dumpChar c ++ text) = some (c, text) := by
  have hvalid := toNat_valid c
  unfold dumpChar
  split
  · subst_vars
    rfl
  split
  · subst_vars
    rfl
  split
  · subst_vars
    rfl
  split
  · subst_vars
    rfl
  split
  · subst_vars
    rfl
  split
  · rename_i h
    have hc : Char.ofNat 12 = c := by rw [← h, Char.ofNat_toNat]
    rw [← hc]
    rfl
  split
  · rename_i h
    have hc : Char.ofNat 8 = c := by rw [← h, Char.ofNat_toNat]
    rw [← hc]
    rfl
  split
  · -- a printable character stands for itself
    rename_i hquote hslash _ _ _ _ _ hprint
    rw [List.singleton_append, readChar.eq_def]
    split <;> simp_all
  split
  · rename_i hplain
    have hread := readUnicode_plain (by omega : c.toNat < 0xD800 ∨ 0xDFFF < c.toNat ∧ c.toNat < 0x10000) text
    rw [Char.ofNat_toNat] at hread
    exact hread
  · rename_i hplain
    have hhigh : 0xD800 ≤ 0xD800 + (c.toNat - 0x10000) / 0x400 ∧ 0xD800 + (c.toNat - 0x10000) / 0x400 < 0xDC00 := by
      omega
    have hlow : 0xDC00 ≤ 0xDC00 + (c.toNat - 0x10000) % 0x400 ∧ 0xDC00 + (c.toNat - 0x10000) % 0x400 < 0xE000 := by
      omega
    have hread := readUnicode_surrogates hhigh hlow text
    have hboth : 0x10000 + (0xD800 + (c.toNat - 0x10000) / 0x400 - 0xD800) * 0x400 +
        (0xDC00 + (c.toNat - 0x10000) % 0x400 - 0xDC00) = c.toNat := by omega
    rw [hboth, Char.ofNat_toNat] at hread
    rw [List.append_assoc]
    exact hread

theorem dumpChar_head (c : Char) : ∃ d rest, dumpChar c = d :: rest ∧ d ≠ '"' := by
  by_cases hself : dumpChar c = [c]
  · refine ⟨c, [], hself, ?_⟩
    rintro rfl
    exact absurd hself (by decide)
  · -- every other character is escaped
    have hescape : ∃ rest, dumpChar c = '\\' :: rest := by
      unfold dumpChar at hself ⊢
      repeat' split
      all_goals first
        | exact ⟨_, rfl⟩
        | simp_all
    obtain ⟨rest, hrest⟩ := hescape
    exact ⟨'\\', rest, hrest, by decide⟩

theorem readChars_succ {d : Char} (h : d ≠ '"') (n : Nat) (text : List Char) : readChars (n + 1) (d :: text) =
    (readChar (d :: text)).bind fun p => (readChars n p.2).bind fun q => some (p.1 :: q.1, q.2) := by
  rw [readChars.eq_def]
  split
  · rename_i heq
    cases heq
    exact absurd rfl h
  · rename_i heq _
    cases heq
  · rename_i heq _
    cases heq
    rfl

theorem readChars_dump (cs : List Char) (text : List Char) {n : Nat} (h : cs.length ≤ n) :
    readChars n (cs.flatMap dumpChar ++ '"' :: text) = some (cs, text) := by
  induction cs generalizing n with
  | nil => cases n <;> rfl
  | cons c cs ih =>
    obtain ⟨n, rfl⟩ : ∃ m, n = m + 1 := ⟨n - 1, by rw [List.length_cons] at h; omega⟩
    have hlength : cs.length ≤ n := Nat.le_of_succ_le_succ h
    obtain ⟨d, rest, hd, hne⟩ := dumpChar_head c
    have hread := readChar_dumpChar c (cs.flatMap dumpChar ++ '"' :: text)
    rw [List.flatMap_cons, List.append_assoc]
    rw [hd, List.cons_append] at hread ⊢
    rw [readChars_succ hne, hread, Option.bind_some, ih hlength, Option.bind_some]

theorem readString_dump (s : String) (text : List Char) :
    readString (s.toList.flatMap dumpChar ++ '"' :: text) = some (s, text) := by
  have hlength : s.toList.length ≤ (s.toList.flatMap dumpChar ++ '"' :: text).length := by
    have hchars : ∀ cs : List Char, cs.length ≤ (cs.flatMap dumpChar).length := by
      intro cs
      induction cs with
      | nil => exact Nat.le_refl _
      | cons c cs ih =>
        obtain ⟨d, rest, hd, -⟩ := dumpChar_head c
        rw [List.flatMap_cons, hd, List.length_append, List.length_cons, List.length_cons]
        omega
    have := hchars s.toList
    rw [List.length_append]
    omega
  rw [readString, readChars_dump _ _ hlength, Option.map_some, String.ofList_toList]

/-! ### Numbers -/

/-- The text does not go on with a digit. -/
def Ends (text : List Char) : Prop := ∀ c ∈ text.head?, c.isDigit = false

theorem Ends.cons {c : Char} {text : List Char} (h : c.isDigit = false) : Ends (c :: text) := by
  intro c' hc'
  cases hc'
  exact h

/-- A number has no zero in front. -/
theorem toDigits_head {n : Nat} (h : 0 < n) : (Nat.toDigits 10 n).head? ≠ some '0' := by
  induction n using Nat.strongRecOn with
  | ind n ih =>
    by_cases hn : n < 10
    · rw [Nat.toDigits_of_lt_base hn]
      have hdigit : ∀ d < 10, 0 < d → ([Nat.digitChar d] : List Char).head? ≠ some '0' := by decide
      exact hdigit n hn h
    · have hhead := ih (n / 10) (by omega) (by omega)
      rw [Nat.toDigits_of_base_le (by decide) (by omega), List.head?_append]
      cases hd : (Nat.toDigits 10 (n / 10)).head? with
      | none => exact absurd (List.head?_eq_none_iff.mp hd) Nat.toDigits_ne_nil
      | some d =>
        rw [hd] at hhead
        exact hhead

theorem readNat_toDigits (n : Nat) {text : List Char} (h : Ends text) :
    readNat (Nat.toDigits 10 n ++ text) = some (n, text) := by
  have hall : ∀ c ∈ Nat.toDigits 10 n, c.isDigit = true :=
    fun c hc => Nat.isDigit_of_mem_toDigits (by decide) (by decide) hc
  have hstop : text.takeWhile Char.isDigit = [] := by
    cases text with
    | nil => rfl
    | cons c text => rw [List.takeWhile_cons_of_neg (by simp [h c rfl])]
  have htake : (Nat.toDigits 10 n ++ text).takeWhile Char.isDigit = Nat.toDigits 10 n := by
    rw [List.takeWhile_append_of_pos hall, hstop, List.append_nil]
  unfold readNat
  rw [htake]
  rcases Nat.eq_zero_or_pos n with rfl | hn
  · rw [Nat.toDigits_zero]
    rfl
  · have hhead := toDigits_head hn
    split
    · rename_i heq
      exact absurd heq Nat.toDigits_ne_nil
    · rename_i heq
      rw [heq] at hhead
      exact absurd rfl hhead
    · rw [Nat.ofDigitChars_ten_toDigits, List.drop_left]

/-! ### Values -/

theorem isSpace_digit {c : Char} (h : c.isDigit = true) : isSpace c = false := by
  rw [Bool.eq_false_iff]
  intro hspace
  simp only [isSpace, Bool.or_eq_true, decide_eq_true_eq] at hspace
  rcases hspace with ((rfl | rfl) | rfl) | rfl <;> exact absurd h (by decide)

/-- How a value's text begins. -/
theorem dump_head (value : Json) : ∃ c rest, value.dump = c :: rest ∧ isSpace c = false ∧ c ≠ ']' ∧ c ≠ '}' := by
  cases value with
  | null => exact ⟨_, _, rfl, by decide⟩
  | bool b => cases b <;> exact ⟨_, _, rfl, by decide⟩
  | int n =>
    rw [dump, dumpInt]
    split
    · exact ⟨_, _, rfl, by decide⟩
    · cases hd : Nat.toDigits 10 n.natAbs with
      | nil => exact absurd hd Nat.toDigits_ne_nil
      | cons c rest =>
        have hc : c.isDigit = true :=
          Nat.isDigit_of_mem_toDigits (by decide) (by decide) (hd ▸ List.mem_cons_self)
        refine ⟨c, rest, rfl, isSpace_digit hc, ?_, ?_⟩
        · rintro rfl
          exact absurd hc (by decide)
        · rintro rfl
          exact absurd hc (by decide)
  | str s => exact ⟨_, _, rfl, by decide⟩
  | arr items => cases items <;> exact ⟨_, _, rfl, by decide⟩
  | obj fields => cases fields <;> exact ⟨_, _, rfl, by decide⟩

theorem dump_length_pos (value : Json) : 0 < value.dump.length := by
  obtain ⟨c, rest, h, -⟩ := value.dump_head
  rw [h]
  exact Nat.succ_pos _

theorem read_space (n : Nat) (text : List Char) : read n (' ' :: text) = read n text := by
  cases n <;> rfl

theorem readField_space (n : Nat) (text : List Char) : readField n (' ' :: text) = readField n text := by
  cases n <;> rfl

theorem ends_dumpItems (items : List Json) (text : List Char) : Ends (dumpItems items ++ text) := by
  cases items <;> exact .cons (by decide)

theorem ends_dumpFields (fields : List (String × Json)) (text : List Char) : Ends (dumpFields fields ++ text) := by
  cases fields <;> exact .cons (by decide)

theorem read_dumpInt (i : Int) (n : Nat) {text : List Char} (h : Ends text) :
    read (n + 1) (dumpInt i ++ text) = some (int i, text) := by
  unfold dumpInt
  split
  · rename_i hneg
    have hi : -(i.natAbs : Int) = i := by omega
    change (readNat (Nat.toDigits 10 i.natAbs ++ text)).map _ = _
    rw [readNat_toDigits _ h, Option.map_some, hi]
  · rename_i hpos
    have hi : (i.natAbs : Int) = i := by omega
    have hread := readNat_toDigits i.natAbs h
    cases hd : Nat.toDigits 10 i.natAbs with
    | nil => exact absurd hd Nat.toDigits_ne_nil
    | cons c rest =>
      have hc : c.isDigit = true := Nat.isDigit_of_mem_toDigits (by decide) (by decide) (hd ▸ List.mem_cons_self)
      rw [hd, List.cons_append] at hread
      rw [List.cons_append, read, skip_cons (isSpace_digit hc)]
      simp only [hc, if_true]
      rw [hread, Option.map_some, hi]

/-- A field of an object. -/
theorem readField_dump (key : String) {value : Json} {n : Nat} {text : List Char}
    (h : read n (value.dump ++ text) = some (value, text)) :
    readField (n + 1) (dumpString key ++ ':' :: ' ' :: (value.dump ++ text)) = some ((key, value), text) := by
  have hkey : dumpString key ++ ':' :: ' ' :: (value.dump ++ text) =
      '"' :: (key.toList.flatMap dumpChar ++ '"' :: ':' :: ' ' :: (value.dump ++ text)) := by simp [dumpString]
  rw [hkey, readField, skip_cons (by decide)]
  simp only [readString_dump, Option.bind_eq_bind, Option.bind_some]
  rw [skip_cons (by decide)]
  simp only [read_space, h, Option.bind_some]

/-- An array with items. -/
theorem read_arr {c : Char} (hspace : isSpace c = false) (hc : c ≠ ']') (n : Nat) (text : List Char) :
    read (n + 1) ('[' :: c :: text) =
      (read n (c :: text)).bind fun p => (readItems n p.2).bind fun q => some (arr (p.1 :: q.1), q.2) := by
  change (match skip (c :: text) with
    | ']' :: text => some (arr [], text)
    | text => (read n text).bind fun p => (readItems n p.2).bind fun q => some (arr (p.1 :: q.1), q.2)) = _
  rw [skip_cons hspace]
  split
  · rename_i heq
    cases heq
    exact absurd rfl hc
  · rfl

/-- An object with fields. -/
theorem read_obj (n : Nat) (text : List Char) : read (n + 1) ('{' :: '"' :: text) =
    (readField n ('"' :: text)).bind fun p => (readFields n p.2).bind fun q => some (obj (p.1 :: q.1), q.2) := rfl

mutual
theorem read_dump (value : Json) (n : Nat) (text : List Char) (hn : value.dump.length ≤ n) (h : Ends text) :
    read n (value.dump ++ text) = some (value, text) := by
  obtain ⟨n, rfl⟩ : ∃ m, n = m + 1 := ⟨n - 1, by have := value.dump_length_pos; omega⟩
  match value with
  | .null => rfl
  | .bool true => rfl
  | .bool false => rfl
  | .int i => exact read_dumpInt i n h
  | .str s =>
    have hs : (str s).dump ++ text = '"' :: (s.toList.flatMap dumpChar ++ '"' :: text) := by simp [dump, dumpString]
    rw [hs]
    change (readString _).map _ = _
    rw [readString_dump, Option.map_some]
  | .arr [] => rfl
  | .arr (item :: items) =>
    have hlength : item.dump.length + (dumpItems items).length ≤ n := by
      rw [dump, List.length_cons, List.length_append] at hn
      omega
    have hitem := read_dump item n (dumpItems items ++ text) (by omega) (ends_dumpItems items text)
    have hitems := readItems_dump items n text (by omega)
    obtain ⟨c, rest, hc, hspace, hclose, -⟩ := item.dump_head
    rw [dump, List.cons_append, List.append_assoc]
    rw [hc, List.cons_append] at hitem ⊢
    rw [read_arr hspace hclose, hitem, Option.bind_some, hitems, Option.bind_some]
  | .obj [] => rfl
  | .obj ((key, value) :: fields) =>
    have hlength : value.dump.length + (dumpFields fields).length + 4 ≤ n := by
      simp only [dump, dumpString, List.length_cons, List.length_append] at hn
      omega
    obtain ⟨n, rfl⟩ : ∃ m, n = m + 1 := ⟨n - 1, by omega⟩
    have hvalue := read_dump value n (dumpFields fields ++ text) (by omega) (ends_dumpFields fields text)
    have hfield := readField_dump key hvalue
    have hfields := readFields_dump fields (n + 1) text (by omega)
    have htext : (obj ((key, value) :: fields)).dump ++ text =
        '{' :: (dumpString key ++ ':' :: ' ' :: (value.dump ++ (dumpFields fields ++ text))) := by simp [dump]
    rw [htext]
    rw [dumpString, List.cons_append] at hfield ⊢
    rw [read_obj, hfield, Option.bind_some, hfields, Option.bind_some]
theorem readItems_dump (items : List Json) (n : Nat) (text : List Char) (hn : (dumpItems items).length ≤ n) :
    readItems n (dumpItems items ++ text) = some (items, text) := by
  match items with
  | [] =>
    obtain ⟨n, rfl⟩ : ∃ m, n = m + 1 := ⟨n - 1, by simp only [dumpItems, List.length_cons] at hn; omega⟩
    rfl
  | item :: items =>
    have hlength : item.dump.length + (dumpItems items).length + 2 ≤ n := by
      simp only [dumpItems, List.length_cons, List.length_append] at hn
      omega
    obtain ⟨n, rfl⟩ : ∃ m, n = m + 1 := ⟨n - 1, by omega⟩
    have hitem := read_dump item n (dumpItems items ++ text) (by omega) (ends_dumpItems items text)
    have hitems := readItems_dump items n text (by omega)
    rw [dumpItems, List.cons_append, List.cons_append, List.append_assoc]
    change ((read n (' ' :: (item.dump ++ (dumpItems items ++ text)))).bind fun p =>
      (readItems n p.2).bind fun q => some (p.1 :: q.1, q.2)) = _
    rw [read_space, hitem, Option.bind_some, hitems, Option.bind_some]
theorem readFields_dump (fields : List (String × Json)) (n : Nat) (text : List Char)
    (hn : (dumpFields fields).length ≤ n) :
    readFields n (dumpFields fields ++ text) = some (fields, text) := by
  match fields with
  | [] =>
    obtain ⟨n, rfl⟩ : ∃ m, n = m + 1 := ⟨n - 1, by simp only [dumpFields, List.length_cons] at hn; omega⟩
    rfl
  | (key, value) :: fields =>
    have hlength : value.dump.length + (dumpFields fields).length + 6 ≤ n := by
      simp only [dumpFields, dumpString, List.length_cons, List.length_append, List.length_nil] at hn
      omega
    obtain ⟨n, rfl⟩ : ∃ m, n = m + 2 := ⟨n - 2, by omega⟩
    have hvalue := read_dump value n (dumpFields fields ++ text) (by omega) (ends_dumpFields fields text)
    have hfield := readField_dump key hvalue
    have hfields := readFields_dump fields (n + 1) text (by omega)
    have htext : dumpFields ((key, value) :: fields) ++ text =
        ',' :: ' ' :: (dumpString key ++ ':' :: ' ' :: (value.dump ++ (dumpFields fields ++ text))) := by
      simp [dumpFields]
    rw [htext]
    change ((readField (n + 1) (' ' :: (dumpString key ++ ':' :: ' ' :: (value.dump ++ (dumpFields fields ++ text))))).bind
      fun p => (readFields (n + 1) p.2).bind fun q => some (p.1 :: q.1, q.2)) = _
    rw [readField_space, hfield, Option.bind_some, hfields, Option.bind_some]
end

/-- **What is written is read back.** -/
theorem loads_dumps (value : Json) : loads (dumps value) = some value := by
  have hread : read (value.dump.length + 1) (value.dump ++ []) = some (value, []) :=
    read_dump value _ [] (Nat.le_succ _) fun c hc => nomatch hc
  rw [List.append_nil] at hread
  rw [loads, dumps, String.toList_ofList, hread]
  rfl

end Json

end CodeReader.Text
