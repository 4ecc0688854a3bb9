import Mathlib.Data.List.Sort
import Mathlib.Data.List.Infix
import CodeReader.Text.Lines
import CodeReader.Python.Ast

/-!
# The static gate

Before anything runs, a candidate's code is screened: what it imports and calls, how long it is, and whether its names,
comments and docstrings hint at the bug.

* `splitIdentifier` — the parts of a name;
* `iterIdentifiers` — the names that are screened;
* `check` — the gate, with its violations in order;
* `spoilerFree_iff` — **of accepted code no name at all hints, when and only when no name that is not screened does**.
-/

namespace CodeReader.Pipeline

open Text Python

/-- The parts of Python that the gate calls: `ast.parse` with its syntax errors, the comments of the tokenizer, a search for
a pattern where letter case counts or not, `repr` and `str.lower`. -/
structure Runtime where
  parse : String → Except String Ast
  comments : String → List String
  search : (pattern : String) → (ignoreCase : Bool) → (text : String) → Bool
  repr : String → String
  lower : String → String

namespace StaticGate

/-! ## Names -/

def hintWords : List String := ["bug", "fix", "wrong", "careful", "note"]

def hintWordForms : List (String × List String) :=
  [("bug", ["bug", "bugs", "buggy"]), ("fix", ["fix", "fixes", "fixed", "fixing"]), ("wrong", ["wrong", "wrongly"]),
    ("careful", ["careful", "carefully"]), ("note", ["note", "notes", "noted", "noting"])]

def allHintForms : List String := hintWordForms.flatMap Prod.snd

/-- `[a-z0-9]`. -/
def isLowerOrDigit (c : Char) : Bool := c.isLower || c.isDigit

/-- How much of a text `[A-Z]?[a-z0-9]+` matches at its front; zero for no match. -/
def capitalized (text : List Char) : Nat :=
  let capital := if text.head?.any Char.isUpper then 1 else 0
  let run := ((text.drop capital).takeWhile isLowerOrDigit).length
  if run = 0 then 0 else capital + run

/-- How much `[A-Z]+(?![a-z])` matches: a capital before a small letter is given back. -/
def allCapitals (text : List Char) : Nat :=
  let run := (text.takeWhile Char.isUpper).length
  if (text.drop run).head?.any Char.isLower then run - 1 else run

/-- `_CAMEL_SPLIT.finditer`, for a number of rounds. -/
def camelSplit : Nat → List Char → List (List Char)
  | 0, _ | _ + 1, [] => []
  | rounds + 1, c :: text =>
    let size := if capitalized (c :: text) = 0 then allCapitals (c :: text) else capitalized (c :: text)
    if size = 0 then camelSplit rounds text
    else (c :: text).take size :: camelSplit rounds ((c :: text).drop size)

def splitIdentifier (name : String) : List String :=
  let parts := (name.toList.splitOn '_').flatMap fun part =>
    (camelSplit part.length part).map fun word => String.ofList (word.map Char.toLower)
  parts.filter (· ≠ "")

example : ["buggy_total2", "HTTPFixServer", "prefix", "Note"].map splitIdentifier =
    [["buggy", "total2"], ["http", "fix", "server"], ["prefix"], ["note"]] := by decide +kernel

/-- The names of variables, definitions and parameters. -/
def iterIdentifiers (tree : Ast) : List String :=
  tree.walk.flatMap fun
    | .name id _ => [id]
    | .definition _ name _ => [name]
    | .arg id _ => [id]
    | _ => []

/-- `sorted(hit_parts)`. -/
def hitParts (name : String) : List String :=
  (allHintForms.filter fun form => decide (form ∈ splitIdentifier name)).insertionSort (· ≤ ·)

/-! ## The screens -/

def forbiddenImports : List String :=
  ["random", "time", "os", "sys", "io", "socket", "socketserver", "ssl", "threading", "asyncio", "subprocess",
    "multiprocessing", "uuid", "urllib", "http", "ftplib", "smtplib"]

def forbiddenCallNames : List String := ["input", "id", "exec", "eval", "compile", "open", "__import__"]

def forbiddenAttrCalls : List String := ["now", "today", "utcnow"]

/-- The patterns, and whether they begin with `(?i)`. -/
def secretPatterns : List (String × Bool) :=
  [("AKIA[0-9A-Z]\x7b16\x7d", false), ("sk-[A-Za-z0-9]\x7b20,\x7d", false),
    ("(?i)api[_-]?key\\s*=\\s*['\\\"][^'\\\"]+['\\\"]", true), ("(?i)password\\s*=\\s*['\\\"][^'\\\"]+['\\\"]", true)]

def profanity : List String := ["fuck", "shit", "asshole", "bitch"]

/-- `name.split(".")[0]`. -/
def root (module : String) : String := String.ofList (module.toList.takeWhile (· ≠ '.'))

def importViolations (module : String) : List String :=
  if root module ∈ forbiddenImports then ["forbidden import: " ++ module] else []

/-- What the walk says of a node. -/
def nodeViolations : Ast → List String
  | .node .import_ _ fields => fields.flatten.flatMap fun
    | .node .alias (module :: _) _ => importViolations module
    | _ => []
  | .node (.importFrom _) names _ => importViolations (names.headD "")
  | .node .call _ ((.name id _ :: _) :: _) =>
    if id ∈ forbiddenCallNames then ["forbidden call: " ++ id ++ "(...)"] else []
  | .node .call _ ((.node (.attribute _) (attr :: _) _ :: _) :: _) =>
    if attr ∈ forbiddenAttrCalls then ["forbidden call: ." ++ attr ++ "(...)"] else []
  | .node .set _ _ | .node .setComp _ _ => ["set literal/comprehension used (nondeterministic iteration order)"]
  | _ => []

/-- The budget of lines has a minimum or not; without a budget the length is not looked at. -/
def lengthViolations (code : String) : Option (Option Nat × Nat) → List String
  | none => []
  | some (lo, hi) =>
    let lineCount := (splitlines code.toList).length
    if lo.any (lineCount < ·) || hi < lineCount then
      ["line_count " ++ toString lineCount ++ " outside budget [" ++ (lo.map toString).getD "-" ++ ", " ++ toString hi ++ "]"]
    else []

section Check

variable (py : Runtime)

def nameViolations (name : String) : List String :=
  if hitParts name = [] then []
  else ["hinting name " ++ py.repr name ++ " contains [" ++ ", ".intercalate ((hitParts name).map py.repr) ++ "]"]

/-- A comment or a docstring, with the words it holds. -/
def textViolations (place text : String) : List String :=
  hintWords.filterMap fun word =>
    if py.search ("\\b" ++ word ++ "\\b") true text then
      some ("hinting word " ++ py.repr word ++ " found in " ++ place ++ ": " ++
        py.repr (String.ofList ((strip text.toList).take 60)))
    else none

/-- The docstrings that are not empty. -/
def iterDocstrings (tree : Ast) : List String :=
  let docs := tree.walk.filterMap fun
    | .node .module _ fields => (fields.head?).bind Ast.docstring?
    | .definition kind _ fields => fields[kind.bodyIndex]?.bind Ast.docstring?
    | _ => none
  docs.filter (· ≠ "")

def secretViolations (code : String) : List String :=
  (secretPatterns.filter fun p => py.search p.1 p.2 code).map fun p => "possible secret matching pattern: " ++ p.1

def profanityViolations (code : String) : List String :=
  (profanity.filter fun word => decide (word.toList <:+: (py.lower code).toList)).map fun word =>
    "profanity screen hit: " ++ py.repr word

structure StaticGateResult where
  accepted : Bool
  violations : List String
  deriving DecidableEq

/-- The violations of code that parses. -/
def violationsOf (code : String) (lineBudget : Option (Option Nat × Nat)) (tree : Ast) : List String :=
  lengthViolations code lineBudget ++ tree.walk.flatMap nodeViolations ++
    (iterIdentifiers tree).flatMap (nameViolations py) ++
    (py.comments code).flatMap (textViolations py "comment") ++
    (iterDocstrings tree).flatMap (textViolations py "docstring") ++
    secretViolations py code ++ profanityViolations py code

def check (code : String) (lineBudget : Option (Option Nat × Nat)) : StaticGateResult :=
  match py.parse code with
  | .error exc => ⟨false, ["syntax_error: " ++ exc]⟩
  | .ok tree => ⟨(violationsOf py code lineBudget tree).isEmpty, violationsOf py code lineBudget tree⟩

end Check

/-! ## What accepted code is free of -/

/-- A part of the name is a form of a hint word. -/
def Hints (name : String) : Prop := ∃ part ∈ splitIdentifier name, part ∈ allHintForms

instance (name : String) : Decidable (Hints name) := by unfold Hints; infer_instance

/-- No identifier of the program hints. -/
def SpoilerFree (tree : Ast) : Prop := ∀ name ∈ tree.identifiers, ¬ Hints name

/-- No name hints that stands at a node of another class: an attribute, a keyword argument, an exception, a global or
nonlocal name, an import or its alias, a captured name of a pattern or the name of a type parameter. -/
def UnscreenedFree (tree : Ast) : Prop :=
  ∀ kind names fields, .node kind names fields ∈ tree.nodes → ∀ name ∈ names, ¬ Hints name

theorem hitParts_eq_nil {name : String} : hitParts name = [] ↔ ¬ Hints name := by
  have hsorted : hitParts name = [] ↔ allHintForms.filter (fun form => decide (form ∈ splitIdentifier name)) = [] :=
    ⟨fun h => List.Perm.eq_nil (h ▸ (List.perm_insertionSort _ _).symm), fun h => by rw [hitParts, h]; rfl⟩
  rw [hsorted, List.filter_eq_nil_iff]
  constructor
  · rintro hnone ⟨part, hpart, hform⟩
    exact hnone part hform (decide_eq_true hpart)
  · intro hfree form hform hpart
    exact hfree ⟨form, of_decide_eq_true hpart, hform⟩

section Accepted

variable {py : Runtime} {code : String} {lineBudget : Option (Option Nat × Nat)} {tree : Ast}

theorem nameViolations_eq_nil {name : String} : nameViolations py name = [] ↔ ¬ Hints name := by
  rw [← hitParts_eq_nil, nameViolations]
  by_cases h : hitParts name = []
  · rw [if_pos h]
    exact ⟨fun _ => h, fun _ => rfl⟩
  · rw [if_neg h]
    exact ⟨fun hempty => absurd hempty (List.cons_ne_nil _ _), fun hempty => absurd hempty h⟩

/-- A name is screened, or stands at a node of another class. -/
theorem mem_identifiers_split {name : String} : name ∈ tree.identifiers ↔
    name ∈ iterIdentifiers tree ∨ ∃ kind names fields, .node kind names fields ∈ tree.nodes ∧ name ∈ names := by
  rw [Ast.mem_identifiers, iterIdentifiers, List.mem_flatMap]
  constructor
  · rintro ⟨node, hnode, hname⟩
    cases node with
    | name id ctx => exact .inl ⟨_, Ast.mem_walk.mpr hnode, hname⟩
    | arg id fields => exact .inl ⟨_, Ast.mem_walk.mpr hnode, hname⟩
    | definition kind id fields => exact .inl ⟨_, Ast.mem_walk.mpr hnode, hname⟩
    | constant value => exact absurd hname List.not_mem_nil
    | node kind names fields => exact .inr ⟨kind, names, fields, hnode, hname⟩
  · rintro (⟨node, hnode, hname⟩ | ⟨kind, names, fields, hnode, hname⟩)
    · refine ⟨node, Ast.mem_walk.mp hnode, ?_⟩
      cases node with
      | name id ctx => exact hname
      | arg id fields => exact hname
      | definition kind id fields => exact hname
      | constant value => exact absurd hname List.not_mem_nil
      | node kind names fields => exact absurd hname List.not_mem_nil
    · exact ⟨_, hnode, hname⟩

/-- **Accepted code parses, and no screen has a word against it.** -/
theorem check_accepted : (check py code lineBudget).accepted = true ↔
    ∃ tree, py.parse code = .ok tree ∧ violationsOf py code lineBudget tree = [] := by
  cases hparse : py.parse code with
  | error exc => simp [check, hparse]
  | ok tree => simp [check, hparse, List.isEmpty_iff]

theorem violationsOf_eq_nil : violationsOf py code lineBudget tree = [] ↔
    lengthViolations code lineBudget = [] ∧ (∀ node ∈ tree.nodes, nodeViolations node = []) ∧
      (∀ name ∈ iterIdentifiers tree, ¬ Hints name) ∧ (∀ text ∈ py.comments code, textViolations py "comment" text = []) ∧
      (∀ text ∈ iterDocstrings tree, textViolations py "docstring" text = []) ∧
      secretViolations py code = [] ∧ profanityViolations py code = [] := by
  simp only [violationsOf, List.append_eq_nil_iff, List.flatMap_eq_nil_iff, nameViolations_eq_nil, Ast.mem_walk,
    and_assoc]

/-- No screened name of accepted code hints. -/
theorem not_hints_of_accepted (hparse : py.parse code = .ok tree) (h : (check py code lineBudget).accepted = true) :
    ∀ name ∈ iterIdentifiers tree, ¬ Hints name := by
  obtain ⟨tree', hparse', hnone⟩ := check_accepted.mp h
  cases hparse.symm.trans hparse'
  exact (violationsOf_eq_nil.mp hnone).2.2.1

end Accepted

/-- **No name of accepted code hints, when and only when none does that is not screened.** -/
theorem spoilerFree_iff (py : Runtime) (code : String) (lineBudget : Option (Option Nat × Nat)) (tree : Ast)
    (hparse : py.parse code = .ok tree) (haccepted : (check py code lineBudget).accepted = true) :
    SpoilerFree tree ↔ UnscreenedFree tree := by
  have hscreened := not_hints_of_accepted hparse haccepted
  constructor
  · intro h kind names fields hnode name hname
    exact h name (mem_identifiers_split.mpr (.inr ⟨kind, names, fields, hnode, hname⟩))
  · intro h name hname
    rcases mem_identifiers_split.mp hname with hiter | ⟨kind, names, fields, hnode, hown⟩
    · exact hscreened name hiter
    · exact h kind names fields hnode name hown

/-! An attribute is read whose name is that of a bug. -/

/-- `owed = order.bug`, or another attribute. -/
def readsAttribute (attr : String) : Ast :=
  .node .module [] [[.node .assign [] [[.name "owed" .store], [.node (.attribute .load) [attr] [[.name "order" .load]]]]]]

/-- Python on a text of small letters without a comment, in which no pattern is found. -/
def plainRuntime (programs : List (String × Ast)) : Runtime where
  parse code := (programs.lookup code).elim (.error "invalid syntax") .ok
  comments := fun _ => []
  search := fun _ _ _ => false
  repr text := "'" ++ text ++ "'"
  lower text := text

theorem spoiler_accepted :
    ¬ ∀ (py : Runtime) (code : String) (lineBudget : Option (Option Nat × Nat)) (tree : Ast),
      py.parse code = .ok tree → (check py code lineBudget).accepted = true → SpoilerFree tree := by
  intro hall
  have hfree := hall (plainRuntime [("owed = order.bug\n", readsAttribute "bug")]) "owed = order.bug\n" none
    (readsAttribute "bug") rfl (by decide +kernel)
  exact hfree "bug" (by decide +kernel) (by decide +kernel)

theorem spoilerFree_iff_total : SpoilerFree (readsAttribute "total") ↔ UnscreenedFree (readsAttribute "total") :=
  spoilerFree_iff (plainRuntime [("owed = order.total\n", readsAttribute "total")]) "owed = order.total\n" none _ rfl
    (by decide +kernel)

end StaticGate

end CodeReader.Pipeline
