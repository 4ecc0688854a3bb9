import CodeReader.Python.Renaming
import CodeReader.Pipeline.Batch
import CodeReader.Pipeline.StaticGate

/-!
# Duplicates up to names and literals

A candidate is known by the hash of a canonical form of its code: the names that it binds are numbered in the order in
which they are met, and every literal is one of its kind.

* `userNames` — the names that the collector finds bound;
* `visit` — the transformer, with the numbers given so far;
* `unreached` — what it leaves as it stands;
* `visit_tracks` — of two programs that differ in names and literals, the transformer makes the same tree as far as it
  reaches;
* `normalizeAst_cosmetic_iff` — **such programs have one normal form, and one hash, when and only when they agree on what
  is left**.
-/

namespace CodeReader.Pipeline

open Text Python

namespace Dedup

/-! ## The collector -/

/-- What `_NameCollector` adds at a node: a definition, a parameter, a name that is stored or deleted. -/
def collected : Ast → List String
  | .name _ .load => []
  | .name id _ => [id]
  | .arg id _ => [id]
  | .definition _ id _ => [id]
  | .constant _ | .node _ _ _ => []

/-- `user_names`. -/
def userNames (tree : Ast) : List String := tree.nodes.flatMap collected

/-! ## The transformer -/

/-- `_name_map`, in the order in which names were put in. -/
abbrev NameMap := List (String × String)

def canonical (original : String) (nameMap : NameMap) : String × NameMap :=
  match nameMap.lookup original with
  | some known => (known, nameMap)
  | none =>
    let fresh := "_id" ++ toString nameMap.length
    (fresh, nameMap ++ [(original, fresh)])

/-- `visit_Constant`. -/
def visitConstant : Literal → Literal
  | .number _ => .number "0"
  | .str _ => .str "_LIT"
  | .bytes _ => .bytes "_LIT".toUTF8.toList
  | value => value

/-- `body.pop(0)`, where the body starts with a docstring. -/
def withoutDocstring (body : List Ast) : List Ast := if (Ast.docstring? body).isSome then body.tail else body

/-- `_strip_docstring` of a node whose body is one of its fields. -/
def stripDocstring (bodyIndex : Nat) (fields : List (List Ast)) : List (List Ast) := fields.modify bodyIndex withoutDocstring

mutual

/-- A parameter's annotation is not visited, nor is what stands at a name. -/
def visit (users : List String) : Ast → NameMap → Ast × NameMap
  | .name id ctx, nameMap =>
    if id ∈ users then (.name (canonical id nameMap).1 ctx, (canonical id nameMap).2) else (.name id ctx, nameMap)
  | .arg id fields, nameMap => (.arg (canonical id nameMap).1 fields, (canonical id nameMap).2)
  | .definition kind id fields, nameMap =>
    let visited := visitFields users fields (canonical id nameMap).2
    (.definition kind (canonical id nameMap).1 (stripDocstring kind.bodyIndex visited.1), visited.2)
  | .constant value, nameMap => (.constant (visitConstant value), nameMap)
  | .node kind names fields, nameMap =>
    let visited := visitFields users fields nameMap
    (.node kind names (if kind = .module then stripDocstring 0 visited.1 else visited.1), visited.2)

def visitList (users : List String) : List Ast → NameMap → List Ast × NameMap
  | [], nameMap => ([], nameMap)
  | t :: ts, nameMap =>
    let first := visit users t nameMap
    let rest := visitList users ts first.2
    (first.1 :: rest.1, rest.2)

def visitFields (users : List String) : List (List Ast) → NameMap → List (List Ast) × NameMap
  | [], nameMap => ([], nameMap)
  | ts :: fields, nameMap =>
    let first := visitList users ts nameMap
    let rest := visitFields users fields first.2
    (first.1 :: rest.1, rest.2)

end

/-- The tree that is written out again. -/
def normalizeTree (tree : Ast) : Ast := (visit (userNames tree) tree []).1

section Hash

variable (py : Runtime) (unparse : Ast → String) (sha256 : String → Nat)

def normalizeAst (code : String) : Except String String := (py.parse code).map fun tree => unparse (normalizeTree tree)

def contentHash (code : String) : Except String String :=
  (normalizeAst py unparse code).map fun text => String.ofList (hexDigits 64 (sha256 text))

def isDuplicate (code : String) (livePoolHashes : List String) : Except String Bool :=
  (contentHash py unparse sha256 code).map fun hash => decide (hash ∈ livePoolHashes)

/-- What a batch hashes with: it hashes only code that passed the static gate, which parses. -/
def hashing : Hashing where
  normalizeAst code := (normalizeAst py unparse code).toOption.getD ""
  sha256 := sha256

theorem normalizeAst_hashing {code text : String} (h : normalizeAst py unparse code = .ok text) :
    (hashing py unparse sha256).normalizeAst code = text := by
  show (normalizeAst py unparse code).toOption.getD "" = text
  rw [h]
  rfl

theorem contentHash_hashing {code hash : String} (h : contentHash py unparse sha256 code = .ok hash) :
    (hashing py unparse sha256).contentHash code = hash := by
  cases hnormal : normalizeAst py unparse code with
  | error exc => rw [contentHash, hnormal] at h; cases h
  | ok text =>
    rw [contentHash, hnormal, Except.map] at h
    rw [← Except.ok.inj h, Hashing.contentHash, Hashing.hexdigest, normalizeAst_hashing py unparse sha256 hnormal]
    rfl

end Hash

/-! ## What is not reached -/

/-- A name, or all that stands below a parameter. -/
inductive Unreached
  | identifier (id : String)
  | fields (fields : List (List Ast))

mutual

/-- What the transformer leaves as it stands: the names at nodes of other classes, the names read that the collector does
not know, and the annotations of parameters. -/
def unreached (users : List String) : Ast → List Unreached
  | .name id _ => if id ∈ users then [] else [.identifier id]
  | .arg _ fields => [.fields fields]
  | .definition _ _ fields => unreachedFields users fields
  | .constant _ => []
  | .node _ names fields => names.map .identifier ++ unreachedFields users fields

def unreachedList (users : List String) : List Ast → List Unreached
  | [] => []
  | t :: ts => unreached users t ++ unreachedList users ts

def unreachedFields (users : List String) : List (List Ast) → List Unreached
  | [] => []
  | ts :: fields => unreachedList users ts ++ unreachedFields users fields

end

/-! ## The numbers -/

section Numbers

variable {ρ : String → String} {names : List String}

/-- The second table is the first, with its names mapped; those that are in it are the program's. -/
structure Simulates (ρ : String → String) (names : List String) (nameMap nameMap' : NameMap) : Prop where
  eq_map : nameMap' = nameMap.map fun entry => (ρ entry.1, entry.2)
  keys : ∀ entry ∈ nameMap, entry.1 ∈ names

/-- No two names of the program are made one. -/
def TellsApart (ρ : String → String) (names : List String) : Prop :=
  ∀ n ∈ names, ∀ n' ∈ names, ρ n = ρ n' → n = n'

/-- A name is found under its new name: no other key of the table is moved onto it. -/
theorem lookup_map (hρ : TellsApart ρ names) {id : String} (hid : id ∈ names) :
    ∀ {nameMap : NameMap}, (∀ entry ∈ nameMap, entry.1 ∈ names) →
      (nameMap.map fun entry => (ρ entry.1, entry.2)).lookup (ρ id) = nameMap.lookup id := by
  intro nameMap hkeys
  induction nameMap with
  | nil => rfl
  | cons entry nameMap ih =>
    have hrest := ih fun e he => hkeys e (List.mem_cons_of_mem _ he)
    by_cases hsame : id = entry.1
    · rw [List.map_cons, hsame, List.lookup_cons_self, List.lookup_cons_self]
    · have hmoved : ρ id ≠ ρ entry.1 := fun h => hsame (hρ id hid entry.1 (hkeys entry List.mem_cons_self) h)
      rw [List.map_cons, List.lookup_cons, List.lookup_cons, beq_false_of_ne hsame, beq_false_of_ne hmoved]
      exact hrest

/-- **Corresponding names get one number.** -/
theorem canonical_simulates (hρ : TellsApart ρ names) {id : String} (hid : id ∈ names) {nameMap nameMap' : NameMap}
    (h : Simulates ρ names nameMap nameMap') :
    (canonical (ρ id) nameMap').1 = (canonical id nameMap).1 ∧
      Simulates ρ names (canonical id nameMap).2 (canonical (ρ id) nameMap').2 := by
  have hlookup : nameMap'.lookup (ρ id) = nameMap.lookup id := h.eq_map ▸ lookup_map hρ hid h.keys
  cases hknown : nameMap.lookup id with
  | some known =>
    rw [canonical, canonical, hlookup, hknown]
    exact ⟨rfl, h⟩
  | none =>
    have hlength : nameMap'.length = nameMap.length := by rw [h.eq_map, List.length_map]
    rw [canonical, canonical, hlookup, hknown]
    dsimp only
    rw [hlength]
    refine ⟨rfl, ?_, fun entry hentry => ?_⟩
    · rw [h.eq_map, List.map_append, List.map_singleton]
    · rcases List.mem_append.mp hentry with hold | hnew
      · exact h.keys entry hold
      · rw [List.mem_singleton.mp hnew]
        exact hid

end Numbers

/-! ## Docstrings -/

section Docstrings

variable {ρ : String → String}

/-- Only a text is made the text of every literal. -/
theorem visit_eq_str {users : List String} {t : Ast} {nameMap : NameMap} {text : String} :
    (visit users t nameMap).1 = .constant (.str text) ↔ text = "_LIT" ∧ ∃ text', t = .constant (.str text') := by
  constructor
  · intro h
    cases t with
    | name id ctx =>
      rw [visit] at h
      split_ifs at h
    | constant value =>
      cases value with
      | str text' =>
        cases h
        exact ⟨rfl, text', rfl⟩
      | _ => cases h
    | _ => cases h
  · rintro ⟨rfl, text', rfl⟩
    rfl

theorem visitFields_eq_str {users : List String} {fields : List (List Ast)} {nameMap : NameMap} {text : String} :
    (visitFields users fields nameMap).1 = [[.constant (.str text)]] ↔
      text = "_LIT" ∧ ∃ text', fields = [[.constant (.str text')]] := by
  constructor
  · intro h
    rcases fields with _ | ⟨_ | ⟨t, _ | ⟨second, rest⟩⟩, _ | ⟨field, fields⟩⟩
    case cons.cons.nil.nil =>
      have ht : (visit users t nameMap).1 = .constant (.str text) := by
        simpa only [visitFields, visitList, List.cons.injEq, and_true] using h
      obtain ⟨htext, text', rfl⟩ := visit_eq_str.mp ht
      exact ⟨htext, text', rfl⟩
    all_goals simp [visitFields, visitList] at h
  · rintro ⟨rfl, text', rfl⟩
    rfl

/-- A visited body starts with a docstring if it did before, and then with the text of every literal. -/
theorem docstring?_visitList (users : List String) (ts : List Ast) (nameMap : NameMap) :
    Ast.docstring? (visitList users ts nameMap).1 = (Ast.docstring? ts).map fun _ => "_LIT" := by
  cases ts with
  | nil => rfl
  | cons t ts =>
    cases t with
    | name id ctx =>
      rw [visitList, visit]
      split_ifs <;> rfl
    | arg id fields => rfl
    | definition kind id fields => rfl
    | constant value => rfl
    | node kind names fields =>
      refine Option.ext fun text => ?_
      rw [Option.map_eq_some_iff, visitList, visit, Ast.docstring?_node]
      simp only [Ast.docstring?_node]
      constructor
      · rintro ⟨rfl, hnames, hfields⟩
        obtain ⟨htext, text', htext'⟩ := visitFields_eq_str.mp hfields
        exact ⟨text', ⟨rfl, hnames, htext'⟩, htext.symm⟩
      · rintro ⟨text', ⟨rfl, hnames, hfields⟩, htext⟩
        exact ⟨rfl, hnames, visitFields_eq_str.mpr ⟨htext.symm, text', hfields⟩⟩

/-- Two bodies that start with the same docstring, or with none, are told apart by what follows. -/
theorem withoutDocstring_inj {body body' : List Ast} (h : Ast.docstring? body' = Ast.docstring? body) :
    withoutDocstring body' = withoutDocstring body ↔ body' = body := by
  cases hdoc : Ast.docstring? body with
  | none => rw [withoutDocstring, withoutDocstring, h, hdoc]; exact Iff.rfl
  | some text =>
    obtain ⟨rest, rfl⟩ := Ast.docstring?_eq_some.mp hdoc
    obtain ⟨rest', rfl⟩ := Ast.docstring?_eq_some.mp (h.trans hdoc)
    exact ⟨fun hrest => congrArg _ hrest, fun hbody => (List.cons.inj hbody).2⟩

theorem stripDocstring_inj {fields fields' : List (List Ast)}
    (h : List.Forall₂ (fun body body' => Ast.docstring? body' = Ast.docstring? body) fields fields') :
    ∀ bodyIndex, stripDocstring bodyIndex fields' = stripDocstring bodyIndex fields ↔ fields' = fields := by
  induction h with
  | nil => exact fun bodyIndex => ⟨fun _ => rfl, fun _ => rfl⟩
  | @cons body body' fields fields' hbody _ ih =>
    intro bodyIndex
    cases bodyIndex with
    | zero =>
      show withoutDocstring body' :: fields' = withoutDocstring body :: fields ↔ _
      rw [List.cons.injEq, List.cons.injEq, withoutDocstring_inj hbody]
    | succ bodyIndex =>
      show body' :: stripDocstring bodyIndex fields' = body :: stripDocstring bodyIndex fields ↔ _
      rw [List.cons.injEq, List.cons.injEq, ih]

theorem visitFields_docstrings {fields fields' : List (List Ast)} (h : RenamesFields ρ fields fields')
    (users users' : List String) : ∀ nameMap nameMap' : NameMap,
      List.Forall₂ (fun body body' => Ast.docstring? body' = Ast.docstring? body)
        (visitFields users fields nameMap).1 (visitFields users' fields' nameMap').1 := by
  induction fields generalizing fields' with
  | nil =>
    cases h
    exact fun nameMap nameMap' => .nil
  | cons ts fields ih =>
    cases h with
    | cons hlist hrest =>
      refine fun nameMap nameMap' => .cons ?_ (ih hrest _ _)
      have hsome := hlist.docstring
      rw [docstring?_visitList, docstring?_visitList]
      cases hdoc : Ast.docstring? ts with
      | none =>
        rw [hdoc] at hsome
        rw [Option.not_isSome_iff_eq_none.mp (Bool.eq_false_iff.mp hsome)]
      | some text =>
        rw [hdoc] at hsome
        obtain ⟨text', htext'⟩ := Option.isSome_iff_exists.mp hsome
        rw [htext']
        rfl

end Docstrings

/-! ## The transformer on two programs -/

section Tracks

variable {ρ : String → String} {names : List String}

/-- Two visits, of two programs: what they make is the same when and only when what they leave is. -/
structure Tracks {α : Type} (ρ : String → String) (names : List String) (r r' : α × NameMap) (left left' : List Unreached) :
    Prop where
  simulates : Simulates ρ names r.2 r'.2
  length : left'.length = left.length
  eq_iff : r'.1 = r.1 ↔ left' = left

theorem visitConstant_sameKind {value value' : Literal} (h : value.SameKind value') :
    visitConstant value' = visitConstant value := by
  unfold Literal.SameKind at h
  split at h
  · rfl
  · rfl
  · rfl
  · rw [h]

theorem append_eq_iff {α : Type} {l l' m m' : List α} (h : l'.length = l.length) :
    l' ++ m' = l ++ m ↔ l' = l ∧ m' = m :=
  ⟨fun heq => List.append_inj heq h, fun ⟨hl, hm⟩ => by rw [hl, hm]⟩

/-- A visit, and then that of the rest. -/
theorem Tracks.cons {α : Type} {first first' : α × NameMap} {rest rest' : List α × NameMap}
    {left left' leftRest leftRest' : List Unreached} (h : Tracks ρ names first first' left left')
    (hrest : Tracks ρ names rest rest' leftRest leftRest') :
    Tracks ρ names (first.1 :: rest.1, rest.2) (first'.1 :: rest'.1, rest'.2) (left ++ leftRest) (left' ++ leftRest') where
  simulates := hrest.simulates
  length := by rw [List.length_append, List.length_append, h.length, hrest.length]
  eq_iff := by rw [List.cons.injEq, append_eq_iff h.length, h.eq_iff, hrest.eq_iff]

/-- The map takes the names of the program apart, and of the two collectors both know a name or neither does. -/
structure Knows (ρ : String → String) (names users users' : List String) : Prop where
  apart : TellsApart ρ names
  users_iff : ∀ n ∈ names, ρ n ∈ users' ↔ n ∈ users

variable {users users' : List String}

mutual

/-- **The transformer makes one tree of two programs, as far as it reaches.** -/
theorem visit_tracks (hρ : Knows ρ names users users') {t t' : Ast} (h : Renames ρ t t')
    (hnames : ∀ n ∈ t.identifiers, n ∈ names) {nameMap nameMap' : NameMap} (hsim : Simulates ρ names nameMap nameMap') :
    Tracks ρ names (visit users t nameMap) (visit users' t' nameMap') (unreached users t) (unreached users' t') := by
  cases h with
  | name id ctx =>
    have hid : id ∈ names := hnames id (List.mem_flatMap.mpr ⟨_, List.mem_singleton_self _, List.mem_singleton_self _⟩)
    obtain ⟨hsame, hnext⟩ := canonical_simulates hρ.apart hid hsim
    rw [visit, visit, unreached, unreached]
    by_cases huser : id ∈ users
    · rw [if_pos huser, if_pos huser, if_pos ((hρ.users_iff id hid).mpr huser), if_pos ((hρ.users_iff id hid).mpr huser), hsame]
      exact ⟨hnext, rfl, fun _ => rfl, fun _ => rfl⟩
    · have huser' : ρ id ∉ users' := fun h => huser ((hρ.users_iff id hid).mp h)
      rw [if_neg huser, if_neg huser, if_neg huser', if_neg huser']
      exact ⟨hsim, rfl, by simp⟩
  | @arg id fields fields' h =>
    have hid : id ∈ names := hnames id (List.mem_flatMap.mpr ⟨_, Ast.self_mem_nodes _, List.mem_singleton_self _⟩)
    obtain ⟨hsame, hnext⟩ := canonical_simulates hρ.apart hid hsim
    rw [visit, visit, unreached, unreached, hsame]
    exact ⟨hnext, rfl, by simp⟩
  | @definition kind id fields fields' h =>
    have hid : id ∈ names := hnames id (List.mem_flatMap.mpr ⟨_, Ast.self_mem_nodes _, List.mem_singleton_self _⟩)
    obtain ⟨hsame, hnext⟩ := canonical_simulates hρ.apart hid hsim
    have hfields := visitFields_tracks hρ h (fun n hn => hnames n (by
      rw [Ast.identifiers_eq]
      exact List.mem_append_right _ hn)) hnext
    rw [visit, visit, unreached, unreached, hsame]
    refine ⟨hfields.simulates, hfields.length, ?_⟩
    rw [← hfields.eq_iff, ← stripDocstring_inj (visitFields_docstrings h users users' _ _) kind.bodyIndex]
    simp
  | @constant value value' h =>
    rw [visit, visit, visitConstant_sameKind h]
    exact ⟨hsim, rfl, fun _ => rfl, fun _ => rfl⟩
  | @node kind ids ids' fields fields' hids h =>
    have hfields := visitFields_tracks hρ h (fun n hn => hnames n (by
      rw [Ast.identifiers_eq]
      exact List.mem_append_right _ hn)) hsim
    have hlength : (ids'.map Unreached.identifier).length = (ids.map Unreached.identifier).length := by
      rw [List.length_map, List.length_map, hids.length_eq]
    have hbody : (if kind = .module then stripDocstring 0 (visitFields users' fields' nameMap').1
        else (visitFields users' fields' nameMap').1) =
        (if kind = .module then stripDocstring 0 (visitFields users fields nameMap).1
          else (visitFields users fields nameMap).1) ↔ unreachedFields users' fields' = unreachedFields users fields := by
      rw [← hfields.eq_iff]
      by_cases hkind : kind = .module
      · rw [if_pos hkind, if_pos hkind, stripDocstring_inj (visitFields_docstrings h users users' _ _)]
      · rw [if_neg hkind, if_neg hkind]
    rw [visit, visit, unreached, unreached]
    refine ⟨hfields.simulates, ?_, ?_⟩
    · rw [List.length_append, List.length_append, hfields.length, hlength]
    · have hids : ids'.map Unreached.identifier = ids.map Unreached.identifier ↔ ids' = ids :=
        (List.map_injective_iff.mpr fun _ _ => Unreached.identifier.inj).eq_iff
      rw [Ast.node.injEq, append_eq_iff hlength, hids, ← hbody]
      exact ⟨fun h => h.2, fun h => ⟨rfl, h⟩⟩

theorem visitList_tracks (hρ : Knows ρ names users users') {ts ts' : List Ast} (h : RenamesList ρ ts ts')
    (hnames : ∀ n ∈ ts.flatMap Ast.identifiers, n ∈ names) {nameMap nameMap' : NameMap} (hsim : Simulates ρ names nameMap nameMap') :
    Tracks ρ names (visitList users ts nameMap) (visitList users' ts' nameMap') (unreachedList users ts)
      (unreachedList users' ts') := by
  cases h with
  | nil => exact ⟨hsim, rfl, fun _ => rfl, fun _ => rfl⟩
  | @cons t t' ts ts' h hrest =>
    have hfirst := visit_tracks hρ h (fun n hn => hnames n (List.mem_append_left _ hn)) hsim
    exact hfirst.cons (visitList_tracks hρ hrest (fun n hn => hnames n (List.mem_append_right _ hn)) hfirst.simulates)

theorem visitFields_tracks (hρ : Knows ρ names users users') {fields fields' : List (List Ast)}
    (h : RenamesFields ρ fields fields') (hnames : ∀ n ∈ fields.flatten.flatMap Ast.identifiers, n ∈ names) {nameMap nameMap' : NameMap}
    (hsim : Simulates ρ names nameMap nameMap') :
    Tracks ρ names (visitFields users fields nameMap) (visitFields users' fields' nameMap') (unreachedFields users fields)
      (unreachedFields users' fields') := by
  cases h with
  | nil => exact ⟨hsim, rfl, fun _ => rfl, fun _ => rfl⟩
  | @cons ts ts' fields fields' h hrest =>
    rw [List.flatten_cons, List.flatMap_append] at hnames
    have hfirst := visitList_tracks hρ h (fun n hn => hnames n (List.mem_append_left _ hn)) hsim
    exact hfirst.cons (visitFields_tracks hρ hrest (fun n hn => hnames n (List.mem_append_right _ hn)) hfirst.simulates)

end

end Tracks

/-! ## Normal forms -/

section Normal

variable {ρ : String → String} {t t' : Ast}

theorem collected_renames {n n' : Ast} (h : Renames ρ n n') : collected n' = (collected n).map ρ := by
  cases h with
  | name id ctx => cases ctx <;> rfl
  | _ => rfl

theorem collected_subset (n : Ast) : collected n ⊆ n.ownNames := by
  cases n with
  | name id ctx =>
    cases ctx with
    | load => exact List.nil_subset _
    | _ => exact List.Subset.refl _
  | node kind names fields => exact List.nil_subset _
  | _ => exact List.Subset.refl _

theorem userNames_subset (t : Ast) : userNames t ⊆ t.identifiers := by
  intro n hn
  obtain ⟨node, hnode, hown⟩ := List.mem_flatMap.mp hn
  exact List.mem_flatMap.mpr ⟨node, hnode, collected_subset node hown⟩

/-- The collector knows the new names of those that it knew. -/
theorem knows_of_cosmetic (h : Cosmetic ρ t t') : Knows ρ t.identifiers (userNames t) (userNames t') where
  apart := h.injective
  users_iff n hn := by
    have husers : userNames t' = (userNames t).map ρ := h.renames.flatMap_nodes collected_renames
    rw [husers, List.mem_map]
    constructor
    · rintro ⟨n', hn', hsame⟩
      exact h.injective n' (userNames_subset t hn') n hn hsame ▸ hn'
    · exact fun huser => ⟨n, huser, rfl⟩

/-- The two programs agree on what the transformer leaves. -/
def SameUnreached (t t' : Ast) : Prop := unreached (userNames t') t' = unreached (userNames t) t

/-- **Programs that differ in names and literals have one normal form when and only when they agree on what is left.** -/
theorem normalizeTree_cosmetic_iff (h : Cosmetic ρ t t') : normalizeTree t' = normalizeTree t ↔ SameUnreached t t' :=
  (visit_tracks (knows_of_cosmetic h) h.renames (fun _ hn => hn) ⟨rfl, fun _ hentry => absurd hentry List.not_mem_nil⟩).eq_iff

end Normal

/-- Two texts have one normal form and one hash. -/
def SameHash (py : Runtime) (unparse : Ast → String) (sha256 : String → Nat) (code code' : String) : Prop :=
  normalizeAst py unparse code' = normalizeAst py unparse code ∧
    contentHash py unparse sha256 code' = contentHash py unparse sha256 code

/-- `ast.unparse` writes two different normal forms as two different texts. -/
def UnparsesApart (py : Runtime) (unparse : Ast → String) : Prop :=
  ∀ code code' t t', py.parse code = .ok t → py.parse code' = .ok t' →
    unparse (normalizeTree t') = unparse (normalizeTree t) → normalizeTree t' = normalizeTree t

/-- **Programs that differ in names, literals, docstrings and comments have one hash when they agree on what the
transformer leaves, and only then.** -/
theorem normalizeAst_cosmetic_iff (py : Runtime) (unparse : Ast → String) (sha256 : String → Nat) (code code' : String)
    (t t' : Ast) (hparse : py.parse code = .ok t) (hparse' : py.parse code' = .ok t') (ρ : String → String)
    (h : Cosmetic ρ t t') :
    (SameUnreached t t' → SameHash py unparse sha256 code code') ∧
      (UnparsesApart py unparse → (SameHash py unparse sha256 code code' ↔ SameUnreached t t')) := by
  have hsufficient : SameUnreached t t' → SameHash py unparse sha256 code code' := by
    intro hsame
    have hnormal : normalizeAst py unparse code' = normalizeAst py unparse code := by
      rw [normalizeAst, normalizeAst, hparse, hparse', Except.map, Except.map, (normalizeTree_cosmetic_iff h).mpr hsame]
    exact ⟨hnormal, by rw [contentHash, contentHash, hnormal]⟩
  refine ⟨hsufficient, fun hunparse => ⟨?_, hsufficient⟩⟩
  rintro ⟨hnormal, -⟩
  rw [normalizeAst, normalizeAst, hparse, hparse'] at hnormal
  exact (normalizeTree_cosmetic_iff h).mp (hunparse code code' t t' hparse hparse' (Except.ok.inj hnormal))

/-! A function is called with a keyword, and its parameter is renamed together with the keyword. -/

/-- `def f(a): return a`, and `owed = f(a=1)`. -/
def callsWithKeyword (f a owed : String) : Ast :=
  .node .module [] [[
    .definition .functionDef f
      [[.node (.arguments []) [] [[], [.arg a [[]]], [], [], [], [], []]], [.node .return_ [] [[.name a .load]]], [], [], []],
    .node .assign [] [[.name owed .store],
      [.node .call [] [[.name f .load], [], [.node .keyword [a] [[.constant (.number "1")]]]]]]]]

/-- `ast.unparse` of such a call, and of an assignment of a number. -/
def unparseFew : Ast → String
  | .node .module [] [[
      .definition .functionDef f [[.node (.arguments _) [] (_ :: [.arg a _] :: _)], [.node .return_ [] [[.name r .load]]], [], [], []],
      .node .assign [] [[.name owed .store],
        [.node .call [] [[.name g .load], [], [.node .keyword [k] [[.constant (.number n)]]]]]]]] =>
    "def " ++ f ++ "(" ++ a ++ "):\n    return " ++ r ++ "\n" ++ owed ++ " = " ++ g ++ "(" ++ k ++ "=" ++ n ++ ")"
  | .node .module [] [[.node .assign [] [[.name owed .store], [.constant (.number n)]]]] => owed ++ " = " ++ n
  | _ => ""

def keywordCode (a : String) : String := "def f(" ++ a ++ "):\n    return " ++ a ++ "\nowed = f(" ++ a ++ "=1)\n"

def keywordRuntime : Runtime :=
  StaticGate.plainRuntime [(keywordCode "a", callsWithKeyword "f" "a" "owed"), (keywordCode "b", callsWithKeyword "f" "b" "owed")]

theorem renames_callsWithKeyword (ρ : String → String) (f a owed : String) :
    Renames ρ (callsWithKeyword f a owed) (callsWithKeyword (ρ f) (ρ a) (ρ owed)) := by
  have hparameters : Renames ρ (.node (.arguments []) [] [[], [.arg a [[]]], [], [], [], [], []])
      (.node (.arguments []) [] [[], [.arg (ρ a) [[]]], [], [], [], [], []]) :=
    .node rfl (.cons .nil (.cons (.cons (.arg a (.cons .nil .nil)) .nil)
      (.cons .nil (.cons .nil (.cons .nil (.cons .nil (.cons .nil .nil)))))))
  have hbody : Renames ρ (.node .return_ [] [[.name a .load]]) (.node .return_ [] [[.name (ρ a) .load]]) :=
    .node rfl (.cons (.cons (.name a .load) .nil) .nil)
  have hkeyword : Renames ρ (.node .keyword [a] [[.constant (.number "1")]])
      (.node .keyword [ρ a] [[.constant (.number "1")]]) :=
    .node (.cons (.inr rfl) .nil) (.cons (.cons (.constant trivial) .nil) .nil)
  have hcall : Renames ρ (.node .call [] [[.name f .load], [], [.node .keyword [a] [[.constant (.number "1")]]]])
      (.node .call [] [[.name (ρ f) .load], [], [.node .keyword [ρ a] [[.constant (.number "1")]]]]) :=
    .node rfl (.cons (.cons (.name f .load) .nil) (.cons .nil (.cons (.cons hkeyword .nil) .nil)))
  refine .node rfl (.cons (.cons (.definition _ f ?_) (.cons (.node rfl ?_) .nil)) .nil)
  · exact .cons (.cons hparameters .nil) (.cons (.cons hbody .nil) (.cons .nil (.cons .nil (.cons .nil .nil))))
  · exact .cons (.cons (.name owed .store) .nil) (.cons (.cons hcall .nil) .nil)

/-- Two names, swapped. -/
def swapNames (a b n : String) : String := if n = a then b else if n = b then a else n

theorem keyword_hashed_apart :
    ¬ ∀ (py : Runtime) (unparse : Ast → String) (sha256 : String → Nat) (code code' : String) (t t' : Ast),
      py.parse code = .ok t → py.parse code' = .ok t' →
      (StaticGate.check py code none).accepted = true → (StaticGate.check py code' none).accepted = true →
      ∀ ρ, Cosmetic ρ t t' → SameHash py unparse sha256 code code' := by
  intro hall
  have hrenames := renames_callsWithKeyword (swapNames "a" "b") "f" "a" "owed"
  rw [show swapNames "a" "b" "f" = "f" by decide, show swapNames "a" "b" "a" = "b" by decide,
    show swapNames "a" "b" "owed" = "owed" by decide] at hrenames
  have hcosmetic : Cosmetic (swapNames "a" "b") (callsWithKeyword "f" "a" "owed") (callsWithKeyword "f" "b" "owed") :=
    ⟨by decide +kernel, by decide +kernel, hrenames⟩
  have hsame := hall keywordRuntime unparseFew (fun _ => 0) (keywordCode "a") (keywordCode "b") _ _ rfl rfl
    (by decide +kernel) (by decide +kernel) _ hcosmetic
  have hdiffer : normalizeAst keywordRuntime unparseFew (keywordCode "b") ≠
      normalizeAst keywordRuntime unparseFew (keywordCode "a") := by
    decide +kernel
  exact hdiffer hsame.1

/-- `owed = 1`. -/
def assignsNumber (owed number : String) : Ast :=
  .node .module [] [[.node .assign [] [[.name owed .store], [.constant (.number number)]]]]

def assignRuntime : Runtime :=
  StaticGate.plainRuntime [("owed = 1\n", assignsNumber "owed" "1"), ("due = 2\n", assignsNumber "due" "2")]

theorem normalizeAst_cosmetic_assignment :
    SameHash assignRuntime unparseFew (fun _ => 0) "owed = 1\n" "due = 2\n" ∧
      (SameHash assignRuntime unparseFew (fun _ => 0) "owed = 1\n" "due = 2\n" ↔
        SameUnreached (assignsNumber "owed" "1") (assignsNumber "due" "2")) := by
  have hrenames : Renames (swapNames "owed" "due") (assignsNumber "owed" "1")
      (assignsNumber (swapNames "owed" "due" "owed") "2") :=
    .node rfl (.cons (.cons (.node rfl (.cons (.cons (.name "owed" .store) .nil)
      (.cons (.cons (.constant trivial) .nil) .nil))) .nil) .nil)
  rw [show swapNames "owed" "due" "owed" = "due" by decide] at hrenames
  have hcosmetic : Cosmetic (swapNames "owed" "due") (assignsNumber "owed" "1") (assignsNumber "due" "2") :=
    ⟨by decide +kernel, by decide +kernel, hrenames⟩
  have happly := normalizeAst_cosmetic_iff assignRuntime unparseFew (fun _ => 0) "owed = 1\n" "due = 2\n"
    (assignsNumber "owed" "1") (assignsNumber "due" "2") rfl rfl _ hcosmetic
  refine ⟨happly.1 rfl, happly.2 ?_⟩
  -- both programs have the normal form `_id0 = 0`
  have hparsed : ∀ code t, assignRuntime.parse code = .ok t → normalizeTree t = assignsNumber "_id0" "0" := by
    intro code t hparse
    by_cases howed : code = "owed = 1\n"
    · subst howed
      cases hparse
      rfl
    · by_cases hdue : code = "due = 2\n"
      · subst hdue
        cases hparse
        rfl
      · rw [assignRuntime, StaticGate.plainRuntime] at hparse
        dsimp only at hparse
        rw [List.lookup_cons, beq_false_of_ne howed, List.lookup_cons, beq_false_of_ne hdue] at hparse
        cases hparse
  intro code code' t t' hparse hparse' _
  rw [hparsed code t hparse, hparsed code' t' hparse']

end Dedup

end CodeReader.Pipeline
