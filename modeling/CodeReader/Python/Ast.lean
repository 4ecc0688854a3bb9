import Mathlib.Data.List.Perm.Basic
import Mathlib.Data.List.Forall2

/-!
# Python's syntax trees

The trees of the module `ast` at Python 3.12. A node's kind is its class with its fields that are neither names nor
nodes; its names are those of its fields that are identifiers, and its fields hold the nodes, in the order of the class.

* `Ast.nodes` — a tree's nodes, each before those below it;
* `Ast.walk` — `ast.walk`, the nodes from a queue;
* `Ast.walk_perm` — **these are the same nodes**;
* `Ast.identifiers` — the names at every place of the grammar where one can stand.
-/

namespace CodeReader.Python

inductive Context
  | load | store | del
  deriving DecidableEq

inductive Definition
  | functionDef | asyncFunctionDef | classDef
  deriving DecidableEq

/-- The value of a `Constant`; a number by its `repr`. -/
inductive Literal
  | none | ellipsis
  | bool (value : Bool)
  | number (repr : String)
  | str (value : String)
  | bytes (value : List UInt8)
  deriving DecidableEq

/-- The classes without a constructor of their own in `Ast`. Operators are in their words; a flag for each item of a dict,
and for each keyword-only parameter, says whether there is a key, a default. -/
inductive Kind
  | module
  | return_ | delete | assign | typeAlias | augAssign (op : String) | annAssign (simple : Bool) | for_ | asyncFor | while_
  | if_ | with_ | asyncWith | match_ | raise | try_ | tryStar | assert_ | import_ | importFrom (level : Nat) | global
  | nonlocal | expr | pass | break_ | continue_
  | boolOp (op : String) | namedExpr | binOp (op : String) | unaryOp (op : String) | lambda | ifExp | dict (keyed : List Bool)
  | set | listComp | setComp | dictComp | generatorExp | await | yield | yieldFrom | compare (ops : List String) | call
  | formattedValue (conversion : Int) | joinedStr | attribute (ctx : Context) | subscript (ctx : Context)
  | starred (ctx : Context) | list (ctx : Context) | tuple (ctx : Context) | slice
  | comprehension (isAsync : Bool) | exceptHandler | arguments (defaulted : List Bool) | keyword | alias | withitem
  | matchCase | matchValue | matchSingleton (value : Literal) | matchSequence | matchMapping | matchClass | matchStar
  | matchAs | matchOr | typeVar | paramSpec | typeVarTuple
  deriving DecidableEq

inductive Ast
  | name (id : String) (ctx : Context)
  | arg (arg : String) (fields : List (List Ast))
  | definition (kind : Definition) (name : String) (fields : List (List Ast))
  | constant (value : Literal)
  | node (kind : Kind) (names : List String) (fields : List (List Ast))

/-- Where the fields of a definition hold its body. -/
def Definition.bodyIndex : Definition → Nat
  | .functionDef | .asyncFunctionDef => 1
  | .classDef => 2

namespace Ast

/-- `iter_child_nodes`. -/
def children : Ast → List Ast
  | .name _ _ | .constant _ => []
  | .arg _ fields | .definition _ _ fields | .node _ _ fields => fields.flatten

/-- The names that stand at a node itself. -/
def ownNames : Ast → List String
  | .name id _ => [id]
  | .arg id _ => [id]
  | .definition _ id _ => [id]
  | .constant _ => []
  | .node _ names _ => names

/-- The docstring of a body. -/
def docstring? : List Ast → Option String
  | .node .expr [] [[.constant (.str text)]] :: _ => some text
  | _ => none

theorem docstring?_eq_some {body : List Ast} {text : String} :
    docstring? body = some text ↔ ∃ rest, body = .node .expr [] [[.constant (.str text)]] :: rest := by
  constructor
  · intro h
    unfold docstring? at h
    split at h
    · cases h
      exact ⟨_, rfl⟩
    · cases h
  · rintro ⟨rest, rfl⟩
    rfl

theorem docstring?_node {kind : Kind} {names : List String} {fields : List (List Ast)} {rest : List Ast} {text : String} :
    docstring? (.node kind names fields :: rest) = some text ↔
      kind = .expr ∧ names = [] ∧ fields = [[.constant (.str text)]] := by
  rw [docstring?_eq_some]
  constructor
  · rintro ⟨_, heq⟩
    injection heq with hnode
    injection hnode with hkind hnames hfields
    exact ⟨hkind, hnames, hfields⟩
  · rintro ⟨rfl, rfl, rfl⟩
    exact ⟨rest, rfl⟩

/-! ## The nodes of a tree -/

mutual

def nodes : Ast → List Ast
  | .name id ctx => [.name id ctx]
  | .arg id fields => .arg id fields :: nodesOfFields fields
  | .definition kind id fields => .definition kind id fields :: nodesOfFields fields
  | .constant value => [.constant value]
  | .node kind names fields => .node kind names fields :: nodesOfFields fields

def nodesOfList : List Ast → List Ast
  | [] => []
  | t :: ts => nodes t ++ nodesOfList ts

def nodesOfFields : List (List Ast) → List Ast
  | [] => []
  | ts :: fields => nodesOfList ts ++ nodesOfFields fields

end

theorem nodesOfList_eq (ts : List Ast) : nodesOfList ts = ts.flatMap nodes := by
  induction ts with
  | nil => rfl
  | cons t ts ih => rw [nodesOfList, ih, List.flatMap_cons]

theorem nodesOfFields_eq (fields : List (List Ast)) : nodesOfFields fields = fields.flatten.flatMap nodes := by
  induction fields with
  | nil => rfl
  | cons ts fields ih => rw [nodesOfFields, ih, nodesOfList_eq, List.flatten_cons, List.flatMap_append]

theorem nodes_eq (t : Ast) : t.nodes = t :: t.children.flatMap nodes := by
  cases t <;> simp only [nodes, children, nodesOfFields_eq, List.flatMap_nil]

theorem self_mem_nodes (t : Ast) : t ∈ t.nodes := by
  rw [nodes_eq]
  exact List.mem_cons_self

/-- The queue of `ast.walk`, for a number of rounds. -/
def walkFrom : Nat → List Ast → List Ast
  | 0, _ | _ + 1, [] => []
  | rounds + 1, t :: todo => t :: walkFrom rounds (todo ++ t.children)

/-- `ast.walk`, in the order of its queue: a round for each node. -/
def walk (t : Ast) : List Ast := walkFrom t.nodes.length [t]

theorem walkFrom_perm (rounds : Nat) : ∀ todo : List Ast, (todo.flatMap nodes).length ≤ rounds →
    (walkFrom rounds todo).Perm (todo.flatMap nodes) := by
  induction rounds with
  | zero =>
    intro todo hrounds
    rw [List.eq_nil_of_length_eq_zero (Nat.le_zero.mp hrounds)]
    exact .refl _
  | succ rounds ih =>
    intro todo hrounds
    cases todo with
    | nil => exact .refl _
    | cons t todo =>
      have hnext : (todo ++ t.children).flatMap nodes |>.Perm (t.children.flatMap nodes ++ todo.flatMap nodes) := by
        rw [List.flatMap_append]
        exact List.perm_append_comm
      have hsplit : (t :: todo).flatMap nodes = t :: (t.children.flatMap nodes ++ todo.flatMap nodes) := by
        rw [List.flatMap_cons, nodes_eq t, List.cons_append]
      rw [hsplit] at hrounds ⊢
      have hfewer : ((todo ++ t.children).flatMap nodes).length ≤ rounds := by
        rw [hnext.length_eq]
        exact Nat.le_of_succ_le_succ hrounds
      exact ((ih _ hfewer).trans hnext).cons t

/-- **The walk lists every node of the tree once.** -/
theorem walk_perm (t : Ast) : t.walk.Perm t.nodes := by
  have h := walkFrom_perm t.nodes.length [t]
  rw [List.flatMap_singleton] at h
  exact h (Nat.le_refl _)

theorem mem_walk {t n : Ast} : n ∈ t.walk ↔ n ∈ t.nodes := t.walk_perm.mem_iff

/-! ## The names of a tree -/

/-- Every identifier of a program, wherever it stands. -/
def identifiers (t : Ast) : List String := t.nodes.flatMap ownNames

theorem mem_identifiers {t : Ast} {n : String} : n ∈ t.identifiers ↔ ∃ node ∈ t.nodes, n ∈ node.ownNames :=
  List.mem_flatMap

theorem identifiers_eq (t : Ast) : t.identifiers = t.ownNames ++ t.children.flatMap identifiers := by
  rw [identifiers, nodes_eq, List.flatMap_cons, List.flatMap_assoc]
  rfl

end Ast

end CodeReader.Python
