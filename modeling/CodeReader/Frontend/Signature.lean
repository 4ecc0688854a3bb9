import CodeReader.Text.Lines
import CodeReader.Text.Nesting

/-!
# The pinned signature

The sticky header of a code block shows the definition that the first visible line is in: the scan goes back from that
line to the first definition that is indented less.

* `enclosingSignature` — the scan;
* `NothingClosed` — no definition that is indented less, and whose block has ended, stands after the innermost that
  encloses the line;
* `enclosingSignature_encloses_iff` — **then, and only then, what it shows encloses the line**.
-/

namespace CodeReader.Frontend

open Text Nesting

structure Signature where
  line : Nat
  text : String
  deriving DecidableEq

/-! ## Characters -/

/-- `\s`, and what `trim` takes away. -/
def isSpaceJs (c : Char) : Bool :=
  [0x09, 0x0A, 0x0B, 0x0C, 0x0D, 0x20, 0xA0, 0x1680, 0x2028, 0x2029, 0x202F, 0x205F, 0x3000, 0xFEFF].contains c.toNat ||
    (0x2000 ≤ c.toNat && c.toNat ≤ 0x200A)

/-- `\w`. -/
def isWordJs (c : Char) : Bool := c.isAlphanum || c = '_'

def trimJs (line : List Char) : List Char := (line.dropWhile isSpaceJs).rdropWhile isSpaceJs

/-- A tab counts four. -/
def indentOf (line : List Char) : Nat :=
  ((line.takeWhile fun c => c = ' ' || c = '\t').map fun c => if c = '\t' then 4 else 1).sum

def isBlank (line : List Char) : Bool := (trimJs line).isEmpty

/-! ## Definitions -/

/-- `\s+` after a keyword. -/
def afterKeyword (keyword : String) (text : List Char) : Option (List Char) :=
  if keyword.toList.isPrefixOf text then
    match text.drop keyword.length with
    | c :: rest => if isSpaceJs c then some (rest.dropWhile isSpaceJs) else none
    | [] => none
  else none

/-- `\w+` at the front. -/
def startsWord : List Char → Bool
  | c :: _ => isWordJs c
  | [] => false

/-- `/^\s*(?:async\s+def|def|class)\s+\w+/`. -/
def pythonPattern (line : List Char) : Bool :=
  let text := line.dropWhile isSpaceJs
  ((afterKeyword "async" text).bind (afterKeyword "def")).any startsWord || (afterKeyword "def" text).any startsWord ||
    (afterKeyword "class" text).any startsWord

inductive Family
  | python | javascript
  deriving DecidableEq

/-- `FAMILY[language.toLowerCase()]`. -/
def familyOf (language : String) : Option Family :=
  let name := language.toLower
  if ["python", "py"].contains name then some .python
  else if ["javascript", "js", "jsx", "typescript", "ts", "tsx", "java", "go", "rust", "c", "cpp", "csharp"].contains name then
    some .javascript
  else none

/-! ## The scan -/

section Scan

-- the patterns of the other family
variable (javascript : List (List Char → Bool))

def patterns : Family → List (List Char → Bool)
  | .python => [pythonPattern]
  | .javascript => javascript

def codeLines (code : String) : List (List Char) := splitNewlines (trimNewlines code.toList)

def lineAt (lines : List (List Char)) (i : Nat) : List Char := lines.getD i []

/-- The first line that is not blank, from the line asked for on. -/
def referenceIndex (lines : List (List Char)) (line : Int) : Option Nat :=
  let index := (line - 1).toNat
  if line ≤ 1 ∨ lines.length ≤ index then none
  else ((lines.drop index).findIdx? fun l => !isBlank l).map (index + ·)

/-- Back from line `n`, to the first that is indented less than the reference and matches. -/
def scanBack (isDefinition : List Char → Bool) (lines : List (List Char)) (reference : Nat) : Nat → Option Signature
  | 0 => none
  | i + 1 =>
    let candidate := lineAt lines i
    if isBlank candidate then scanBack isDefinition lines reference i
    else if reference ≤ indentOf candidate then scanBack isDefinition lines reference i
    else if isDefinition candidate then some ⟨i + 1, String.ofList (trimJs candidate)⟩
    else scanBack isDefinition lines reference i

def enclosingSignature (code language : String) (line : Int) : Option Signature :=
  let lines := codeLines code
  (familyOf language).bind fun family =>
    (referenceIndex lines line).bind fun r =>
      scanBack (fun l => (patterns javascript family).any (· l)) lines (indentOf (lineAt lines r)) r

end Scan

/-! ## What encloses a line -/

/-- The indentation of a line that is not blank. -/
def depthOf (lines : List (List Char)) (i : Nat) : Option Nat :=
  if isBlank (lineAt lines i) then none else some (indentOf (lineAt lines i))

/-- Line `i`, counted from zero, is a definition. -/
def DefinitionAt (isDefinition : List Char → Bool) (lines : List (List Char)) (i : Nat) : Prop :=
  isBlank (lineAt lines i) = false ∧ isDefinition (lineAt lines i) = true

/-- The lines between line `j` and the reference, and the reference, are indented deeper; and no later definition is so
enclosing. -/
def PinsInnermost (isDefinition : List Char → Bool) (lines : List (List Char)) (r j : Nat) : Prop :=
  Encloses (depthOf lines) j r ∧
    ∀ k, j < k → k < r → DefinitionAt isDefinition lines k → ¬ Encloses (depthOf lines) k r

/-- A definition before the reference, indented less, whose block is not open there, is followed by one whose block is. -/
def NothingClosed (isDefinition : List Char → Bool) (lines : List (List Char)) (r : Nat) : Prop :=
  ∀ k < r, DefinitionAt isDefinition lines k → indentOf (lineAt lines k) < indentOf (lineAt lines r) →
    k ∉ enclosing (depthOf lines) r → ∃ k' ∈ enclosing (depthOf lines) r, k < k' ∧ DefinitionAt isDefinition lines k'

section Spec

variable {isDefinition : List Char → Bool} {lines : List (List Char)} {r j k n reference : Nat} {s : Signature}

/-- The scan stops at the last definition that is indented less. -/
theorem scanBack_eq_some (h : scanBack isDefinition lines reference n = some s) :
    ∃ j < n, s = ⟨j + 1, String.ofList (trimJs (lineAt lines j))⟩ ∧ DefinitionAt isDefinition lines j ∧
      indentOf (lineAt lines j) < reference ∧
      ∀ k, j < k → k < n → DefinitionAt isDefinition lines k → reference ≤ indentOf (lineAt lines k) := by
  induction n with
  | zero => cases h
  | succ i ih =>
    have hearlier : scanBack isDefinition lines reference i = some s →
        (DefinitionAt isDefinition lines i → reference ≤ indentOf (lineAt lines i)) →
        ∃ j < i + 1, s = ⟨j + 1, String.ofList (trimJs (lineAt lines j))⟩ ∧ DefinitionAt isDefinition lines j ∧
          indentOf (lineAt lines j) < reference ∧
          ∀ k, j < k → k < i + 1 → DefinitionAt isDefinition lines k → reference ≤ indentOf (lineAt lines k) := by
      intro hscan hi
      obtain ⟨j, hj, hs, hdef, hlt, hlast⟩ := ih hscan
      refine ⟨j, Nat.lt_succ_of_lt hj, hs, hdef, hlt, fun k hjk hk hdefk => ?_⟩
      rcases Nat.lt_or_eq_of_le (Nat.lt_succ_iff.mp hk) with hki | rfl
      · exact hlast k hjk hki hdefk
      · exact hi hdefk
    rw [scanBack] at h
    split at h
    · rename_i hblank
      exact hearlier h fun hdef => absurd hdef.1 (by rw [hblank]; exact Bool.noConfusion)
    · rename_i hblank
      split at h
      · rename_i hdeep
        exact hearlier h fun _ => hdeep
      · rename_i hshallow
        split at h
        · rename_i hdef
          cases h
          exact ⟨i, Nat.lt_succ_self i, rfl, ⟨Bool.eq_false_iff.mpr hblank, hdef⟩, Nat.not_le.mp hshallow,
            fun k hik hk => absurd hik (Nat.not_lt.mpr (Nat.lt_succ_iff.mp hk))⟩
        · rename_i hdef
          exact hearlier h fun hdef' => absurd hdef'.2 hdef

/-- Where it finds none, there is none. -/
theorem scanBack_eq_none (h : scanBack isDefinition lines reference n = none) (hk : k < n)
    (hdef : DefinitionAt isDefinition lines k) : reference ≤ indentOf (lineAt lines k) := by
  induction n with
  | zero => exact absurd hk (Nat.not_lt_zero k)
  | succ i ih =>
    rw [scanBack] at h
    have hhere : k = i → reference ≤ indentOf (lineAt lines k) := by
      rintro rfl
      rw [if_neg (by rw [hdef.1]; exact Bool.false_ne_true)] at h
      split at h
      · assumption
      · rw [if_pos hdef.2] at h
        cases h
    rcases Nat.lt_or_eq_of_le (Nat.lt_succ_iff.mp hk) with hki | hki
    · refine ih ?_ hki
      split at h
      · exact h
      · split at h
        · exact h
        · split at h
          · cases h
          · exact h
    · exact hhere hki

theorem depthOf_eq_some (h : isBlank (lineAt lines k) = false) : depthOf lines k = some (indentOf (lineAt lines k)) := by
  rw [depthOf, h, if_neg Bool.false_ne_true]

/-- What encloses the reference is indented less. -/
theorem indentOf_lt_of_encloses (hr : isBlank (lineAt lines r) = false) (hk : k < r) (hdef : DefinitionAt isDefinition lines k)
    (h : Encloses (depthOf lines) k r) : indentOf (lineAt lines k) < indentOf (lineAt lines r) := by
  obtain ⟨d, hd, hall⟩ := h
  cases (depthOf_eq_some hdef.1).symm.trans hd
  exact hall r hk (Nat.le_refl r) _ (depthOf_eq_some hr)

/-- **When the scan finds what encloses the reference.** -/
theorem scanBack_pins_iff (hr : isBlank (lineAt lines r) = false) :
    (∀ s, scanBack isDefinition lines (indentOf (lineAt lines r)) r = some s →
      ∃ j, s.line = j + 1 ∧ PinsInnermost isDefinition lines r j) ↔ NothingClosed isDefinition lines r := by
  constructor
  · intro hpins k hk hdef hlt hclosed
    cases hscan : scanBack isDefinition lines (indentOf (lineAt lines r)) r with
    | none => exact absurd hlt (Nat.not_lt.mpr (scanBack_eq_none hscan hk hdef))
    | some s =>
      obtain ⟨j, hj, rfl, hdefj, -, hlast⟩ := scanBack_eq_some hscan
      obtain ⟨j', hj', hencloses, -⟩ := hpins _ hscan
      obtain rfl : j = j' := Nat.succ.inj hj'
      have hopen := mem_enclosing.mpr ⟨hj, hencloses⟩
      -- the scan stops no earlier than at `k`, and not at it
      have hkj : k ≤ j := Nat.not_lt.mp fun hjk => absurd hlt (Nat.not_lt.mpr (hlast k hjk hk hdef))
      exact ⟨j, hopen, Nat.lt_of_le_of_ne hkj fun hsame => hclosed (hsame ▸ hopen), hdefj⟩
  · intro hcond s hscan
    obtain ⟨j, hj, rfl, hdefj, hlt, hlast⟩ := scanBack_eq_some hscan
    have hshallower : ∀ k, j < k → k < r → DefinitionAt isDefinition lines k → ¬ Encloses (depthOf lines) k r :=
      fun k hjk hk hdef hencloses =>
        absurd (indentOf_lt_of_encloses hr hk hdef hencloses) (Nat.not_lt.mpr (hlast k hjk hk hdef))
    refine ⟨j, rfl, ?_, hshallower⟩
    by_contra hnot
    obtain ⟨k, hopen, hjk, hdef⟩ := hcond j hj hdefj hlt fun hopen => hnot (mem_enclosing.mp hopen).2
    obtain ⟨hk, hencloses⟩ := mem_enclosing.mp hopen
    exact hshallower k hjk hk hdef hencloses

theorem referenceIndex_not_blank {line : Int} (h : referenceIndex lines line = some r) : isBlank (lineAt lines r) = false := by
  unfold referenceIndex at h
  dsimp only at h
  split at h
  · cases h
  · obtain ⟨i, hi, rfl⟩ := Option.map_eq_some_iff.mp h
    obtain ⟨hlt, hnot, -⟩ := List.findIdx?_eq_some_iff_getElem.mp hi
    rw [List.getElem_drop] at hnot
    have hbound : (line - 1).toNat + i < lines.length := by
      rw [List.length_drop] at hlt
      omega
    rw [lineAt, List.getD_eq_getElem?_getD, List.getElem?_eq_getElem hbound, Option.getD_some]
    simpa using hnot

end Spec

/-- **When the pinned signature encloses the first visible line.** -/
theorem enclosingSignature_encloses_iff (javascript : List (List Char → Bool)) (code language : String) (line : Int) :
    (∀ s, enclosingSignature javascript code language line = some s → ∃ family r j, familyOf language = some family ∧
      referenceIndex (codeLines code) line = some r ∧ s.line = j + 1 ∧
        PinsInnermost (fun l => (patterns javascript family).any (· l)) (codeLines code) r j) ↔
    ∀ family r, familyOf language = some family → referenceIndex (codeLines code) line = some r →
      NothingClosed (fun l => (patterns javascript family).any (· l)) (codeLines code) r := by
  constructor
  · intro hpins family r hfamily hr
    refine (scanBack_pins_iff (referenceIndex_not_blank hr)).mp fun s hs => ?_
    have hsig : enclosingSignature javascript code language line = some s := by
      rw [enclosingSignature, hfamily, Option.bind_some, hr, Option.bind_some, hs]
    obtain ⟨family', r', j, hfamily', hr', hj, hencloses⟩ := hpins s hsig
    cases hfamily.symm.trans hfamily'
    cases hr.symm.trans hr'
    exact ⟨j, hj, hencloses⟩
  · intro hcond s hs
    obtain ⟨family, hfamily, hrest⟩ := Option.bind_eq_some_iff.mp hs
    obtain ⟨r, hr, hscan⟩ := Option.bind_eq_some_iff.mp hrest
    obtain ⟨j, hj, hencloses⟩ := (scanBack_pins_iff (referenceIndex_not_blank hr)).mpr (hcond family r hfamily hr) s hscan
    exact ⟨family, r, j, hfamily, hr, hj, hencloses⟩

/-! A class that has ended, and a line in a block after it. -/

def endedClass : String := "class A:\n  x\ny\nif y:\n  z"

/-- The class is pinned, and line three stands between at its indentation. -/
theorem enclosingSignature_ended :
    enclosingSignature [] endedClass "python" 5 = some ⟨1, "class A:"⟩ ∧
      referenceIndex (codeLines endedClass) 5 = some 4 ∧ ¬ Encloses (depthOf (codeLines endedClass)) 0 4 := by
  refine ⟨by decide +kernel, by decide +kernel, fun h => ?_⟩
  have hopen := mem_enclosing.mpr ⟨by decide, h⟩
  exact absurd hopen (by decide +kernel)

end CodeReader.Frontend
