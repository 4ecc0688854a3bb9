import CodeReader.Python.Ast

/-!
# Renaming the names that a program binds

Two programs that differ in the names one of them binds, and in the values of literals.

* `boundNames` — the names that a program binds;
* `Renames` — the second tree is the first, with its names mapped and its literals replaced by others of their kinds;
* `Cosmetic` — the map takes names apart, and moves only those that the program binds;
* `Renames.nodes` — **the nodes of the two trees correspond**.
-/

namespace CodeReader.Python

namespace Ast

/-- The names that a node binds: not those that it reads, nor what it asks of an object or of a module. -/
def binds : Ast → List String
  | .name _ .load => []
  | .name id _ => [id]
  | .arg id _ => [id]
  | .definition _ id _ => [id]
  | .constant _ => []
  | .node kind names _ =>
    match kind with
    | .exceptHandler | .global | .nonlocal | .matchAs | .matchStar | .matchMapping | .typeVar | .paramSpec | .typeVarTuple =>
      names
    | .alias => names.drop 1
    | _ => []

def boundNames (t : Ast) : List String := t.nodes.flatMap binds

end Ast

/-- A number for a number, a text for a text, bytes for bytes. -/
def Literal.SameKind : Literal → Literal → Prop
  | .number _, .number _ | .str _, .str _ | .bytes _, .bytes _ => True
  | v, v' => v = v'

section Renames

variable (ρ : String → String)

/-- The names at a node of some class. A module keeps its name, and an attribute or a keyword argument may be one of the
program or of another. -/
def Kind.RenamesNames : Kind → List String → List String → Prop
  | .attribute _, names, names' | .keyword, names, names' | .matchClass, names, names' =>
    List.Forall₂ (fun n n' => n' = n ∨ n' = ρ n) names names'
  | .alias, names, names' => names' = names.take 1 ++ (names.drop 1).map ρ
  | .importFrom _, names, names' => names' = names
  | _, names, names' => names' = names.map ρ

mutual

inductive Renames : Ast → Ast → Prop
  | name (id : String) (ctx : Context) : Renames (.name id ctx) (.name (ρ id) ctx)
  | arg (id : String) {fields fields' : List (List Ast)} (h : RenamesFields fields fields') :
      Renames (.arg id fields) (.arg (ρ id) fields')
  | definition (kind : Definition) (id : String) {fields fields' : List (List Ast)} (h : RenamesFields fields fields') :
      Renames (.definition kind id fields) (.definition kind (ρ id) fields')
  | constant {value value' : Literal} (h : value.SameKind value') : Renames (.constant value) (.constant value')
  | node {kind : Kind} {names names' : List String} {fields fields' : List (List Ast)}
      (hnames : kind.RenamesNames ρ names names') (h : RenamesFields fields fields') :
      Renames (.node kind names fields) (.node kind names' fields')

inductive RenamesList : List Ast → List Ast → Prop
  | nil : RenamesList [] []
  | cons {t t' : Ast} {ts ts' : List Ast} (h : Renames t t') (hrest : RenamesList ts ts') :
      RenamesList (t :: ts) (t' :: ts')

inductive RenamesFields : List (List Ast) → List (List Ast) → Prop
  | nil : RenamesFields [] []
  | cons {ts ts' : List Ast} {fields fields' : List (List Ast)} (h : RenamesList ts ts')
      (hrest : RenamesFields fields fields') : RenamesFields (ts :: fields) (ts' :: fields')

end

/-- **A change of names and literals only**: no two names are made one, and only names that the program binds are moved. -/
structure Cosmetic (t t' : Ast) : Prop where
  injective : ∀ n ∈ t.identifiers, ∀ n' ∈ t.identifiers, ρ n = ρ n' → n = n'
  own : ∀ n ∈ t.identifiers, n ∉ t.boundNames → ρ n = n
  renames : Renames ρ t t'

end Renames

section Nodes

variable {ρ : String → String}

theorem Kind.RenamesNames.length_eq {kind : Kind} {names names' : List String} (h : kind.RenamesNames ρ names names') :
    names'.length = names.length := by
  unfold Kind.RenamesNames at h
  split at h
  · exact h.length_eq.symm
  · exact h.length_eq.symm
  · exact h.length_eq.symm
  · rw [h, List.length_append, List.length_map, ← List.length_append, List.take_append_drop]
  · rw [h]
  · rw [h, List.length_map]

mutual

/-- **The nodes of the two trees correspond.** -/
theorem Renames.nodes {t t' : Ast} (h : Renames ρ t t') : List.Forall₂ (Renames ρ) t.nodes t'.nodes := by
  cases h with
  | name id ctx => exact .cons (.name id ctx) .nil
  | arg id h => exact .cons (.arg id h) h.nodes
  | definition kind id h => exact .cons (.definition kind id h) h.nodes
  | constant h => exact .cons (.constant h) .nil
  | node hnames h => exact .cons (.node hnames h) h.nodes

theorem RenamesList.nodes {ts ts' : List Ast} (h : RenamesList ρ ts ts') :
    List.Forall₂ (Renames ρ) (Ast.nodesOfList ts) (Ast.nodesOfList ts') := by
  cases h with
  | nil => exact .nil
  | cons h hrest => exact List.rel_append h.nodes hrest.nodes

theorem RenamesFields.nodes {fields fields' : List (List Ast)} (h : RenamesFields ρ fields fields') :
    List.Forall₂ (Renames ρ) (Ast.nodesOfFields fields) (Ast.nodesOfFields fields') := by
  cases h with
  | nil => exact .nil
  | cons h hrest => exact List.rel_append h.nodes hrest.nodes

end

/-- What is read off the nodes is renamed with them. -/
theorem Renames.flatMap_nodes {f : Ast → List String} (hf : ∀ {n n' : Ast}, Renames ρ n n' → f n' = (f n).map ρ)
    {t t' : Ast} (h : Renames ρ t t') : t'.nodes.flatMap f = (t.nodes.flatMap f).map ρ := by
  have hlists : ∀ {ns ns' : List Ast}, List.Forall₂ (Renames ρ) ns ns' → ns'.flatMap f = (ns.flatMap f).map ρ := by
    intro ns ns' hns
    induction hns with
    | nil => rfl
    | cons hn _ ih => rw [List.flatMap_cons, List.flatMap_cons, ih, hf hn, List.map_append]
  exact hlists h.nodes

theorem Literal.SameKind.str_left {value : Literal} {text : String} (h : (Literal.str text).SameKind value) :
    ∃ text', value = .str text' := by
  cases value with
  | str text' => exact ⟨text', rfl⟩
  | _ => cases h

theorem Literal.SameKind.str_right {value : Literal} {text : String} (h : value.SameKind (.str text)) :
    ∃ text', value = .str text' := by
  cases value with
  | str text' => exact ⟨text', rfl⟩
  | _ => cases h

/-- A body starts with a docstring in both. -/
theorem RenamesList.docstring {ts ts' : List Ast} (h : RenamesList ρ ts ts') :
    (Ast.docstring? ts').isSome = (Ast.docstring? ts).isSome := by
  rw [Bool.eq_iff_iff, Option.isSome_iff_exists, Option.isSome_iff_exists]
  constructor
  · rintro ⟨text, htext⟩
    obtain ⟨rest, rfl⟩ := Ast.docstring?_eq_some.mp htext
    cases h with
    | cons h hrest =>
      cases h with
      | node hnames hfields =>
        cases List.map_eq_nil_iff.mp hnames.symm
        cases hfields with
        | cons hbody hnil =>
          cases hnil
          cases hbody with
          | cons hconstant hnil =>
            cases hnil
            cases hconstant with
            | constant hvalue =>
              obtain ⟨text', rfl⟩ := hvalue.str_right
              exact ⟨text', rfl⟩
  · rintro ⟨text, htext⟩
    obtain ⟨rest, rfl⟩ := Ast.docstring?_eq_some.mp htext
    cases h with
    | cons h hrest =>
      cases h with
      | node hnames hfields =>
        cases hnames
        cases hfields with
        | cons hbody hnil =>
          cases hnil
          cases hbody with
          | cons hconstant hnil =>
            cases hnil
            cases hconstant with
            | constant hvalue =>
              obtain ⟨text', rfl⟩ := hvalue.str_left
              exact ⟨text', rfl⟩

end Nodes

end CodeReader.Python
