import CodeReader.Core.Batches
import CodeReader.Pipeline.Schemas
import CodeReader.Text.PyJson
import CodeReader.Text.Uuids

/-!
# Batches of hand-written candidates

A file holds an array of candidates with their specifications, or of wrong fixes for exercises that are published. An item
is loaded, or a report says why not; some of what the loops do with an item is outside of what they guard.

* `Raised`, `Raised.detail` — what an item raises, and what of it the loop catches;
* `Ingest.loadItem`, `PtfIngest.loadItem` — an item of either file;
* `loadBatch` — a file;
* `Ingest.Orderly`, `PtfIngest.Orderly` — the items at which nothing is raised past the guard;
* `loadBatch_eachOnce_iff` — **a batch is loaded item by item when and only when all of them are such**.
-/

namespace CodeReader.Pipeline

open Text

/-! ## What is raised -/

inductive Raised
  /-- `IngestLoadError`, `PTFIngestLoadError`. -/
  | loadError (text : String)
  /-- Of pydantic. -/
  | validationError (text : String)
  | attributeError | typeError | valueError | overflowError
  /-- A file cannot be created. -/
  | osError
  deriving DecidableEq

/-- `except (IngestLoadError, ValidationError) as exc`, and `str(exc)`. -/
def Raised.detail : Raised → Option String
  | .loadError text | .validationError text => some text
  | _ => none

/-- `repr`, the two schemas, and whether a reject report's file can be created under a name with this concept in it. -/
structure IngestRuntime where
  repr : PyJson → String
  validateStb : PyJson → Except String STBCandidate
  validatePtf : PyJson → Except String PredictFixCandidate
  creates : List Nat → Bool

namespace PyValue

/-- `bool(value)`. -/
def truthy : PyJson → Bool
  | .null => false
  | .bool b => b
  | .int n => n ≠ 0
  | .float (.finite _ mantissa _) => mantissa ≠ 0
  | .float _ => true
  | .str s => s ≠ []
  | .arr items => !items.isEmpty
  | .obj fields => !fields.isEmpty

def isNone : PyJson → Bool
  | .null => true
  | _ => false

def isDict : PyJson → Bool
  | .obj _ => true
  | _ => false

/-- `value == text`. -/
def isText (value : PyJson) (text : String) : Bool :=
  match value with
  | .str s => s == codes text
  | _ => false

/-- Lists and dicts are not. -/
def hashable : PyJson → Bool
  | .arr _ | .obj _ => false
  | _ => true

/-- `item.get(key)`, `None` where there is no such key, or no dict. -/
def get (item : PyJson) (key : String) : PyJson :=
  match item with
  | .obj fields => (PyJson.get? fields key).getD .null
  | _ => .null

/-- `key in item`. -/
def has (item : PyJson) (key : String) : Bool :=
  match item with
  | .obj fields => (PyJson.get? fields key).isSome
  | _ => false

/-- The characters of a text; a surrogate is one that says nothing to `int` and `uuid.UUID`. -/
def chars (text : List Nat) : List Char := text.map fun n => if isSurrogate n then '?' else Char.ofNat n

/-- An integral number: `bool` is a subclass of `int`. -/
def int? : PyJson → Option Int
  | .int n => some n
  | .bool b => some (if b then 1 else 0)
  | _ => none

/-- `int(x)` of a finite double: towards zero. -/
def truncate (negative : Bool) (mantissa : Nat) (exponent : Int) : Int :=
  let magnitude := if 0 ≤ exponent then mantissa * 2 ^ exponent.toNat else mantissa / 2 ^ (-exponent).toNat
  if negative then -(magnitude : Int) else magnitude

/-- `int(value)`. -/
def toInt : PyJson → Except Raised Int
  | .int n => .ok n
  | .bool b => .ok (if b then 1 else 0)
  | .float .nan => .error .valueError
  | .float (.infinite _) => .error .overflowError
  | .float (.finite negative mantissa exponent) => .ok (truncate negative mantissa exponent)
  | .str s => (intOfText 10 (chars s)).elim (.error .valueError) .ok
  | .null | .arr _ | .obj _ => .error .typeError

end PyValue

open PyValue

section Guard

variable (py : IngestRuntime)

/-- `str(value)`. -/
def strOf : PyJson → List Nat
  | .str s => s
  | value => codes (py.repr value)

/-- The handler of the guarded block: a report is written under a name with the concept in it, and kept. -/
def reject {Loaded Report : Type} (concept : PyJson) (report : String → Report) (raised : Raised) :
    Except Raised (Loaded ⊕ Report) :=
  match raised.detail with
  | some detail => if py.creates (strOf py concept) then .ok (.inr (report detail)) else .error .osError
  | none => .error raised

theorem reject_ok_iff {Loaded Report : Type} {concept : PyJson} {report : String → Report} {raised : Raised} :
    (∃ outcome : Loaded ⊕ Report, reject py concept report raised = .ok outcome) ↔
      raised.detail.isSome ∧ py.creates (strOf py concept) := by
  cases hdetail : raised.detail with
  | none => simp [reject, hdetail]
  | some detail =>
    by_cases hcreates : py.creates (strOf py concept)
    · simp [reject, hdetail, hcreates]
    · simp [reject, hdetail, hcreates]

/-- A report of the handler is what it makes of some text. -/
theorem eq_of_reject_inr {Loaded Report : Type} {concept : PyJson} {report : String → Report} {raised : Raised} {r : Report}
    (h : reject py concept report raised = .ok (Sum.inr r : Loaded ⊕ Report)) : ∃ detail, r = report detail := by
  unfold reject at h
  split at h
  · split_ifs at h
    cases h
    exact ⟨_, rfl⟩
  · cases h

end Guard

/-! ## Concepts -/

/-- A concept, the types of exercise that it applies to, and whether something forbids it, for every type or only for
spotting a bug. -/
structure Concept where
  slug : String
  appliesTo : List String := ["spot_the_bug", "trace"]
  requiresForbidden : Bool := false
  stbUnsamplable : Bool := false

/-- `CONCEPTS`. -/
def concepts : List Concept :=
  [{ slug := "mutable-default-arg" }, { slug := "aliasing-vs-copy" },
    { slug := "shallow-vs-deep-copy" }, { slug := "shared-class-attribute" }, { slug := "dict-mutation-during-iteration" },
    { slug := "list-mutation-during-iteration" }, { slug := "closure-late-binding" }, { slug := "global-state-mutation" },
    { slug := "variable-shadowing" }, { slug := "walrus-scope" }, { slug := "off-by-one" }, { slug := "off-by-one-slicing" },
    { slug := "early-return-skipped-path", appliesTo := ["trace"] }, { slug := "exception-swallowing" },
    { slug := "exception-type-too-broad", stbUnsamplable := true },
    { slug := "resource-leak-unclosed-file", appliesTo := ["spot_the_bug"], requiresForbidden := true },
    { slug := "context-manager-misuse" }, { slug := "generator-exhaustion" }, { slug := "sorting-stability-assumption" },
    { slug := "key-function-misuse" }, { slug := "integer-division-truncation" }, { slug := "float-precision" },
    { slug := "string-formatting-mismatch" }, { slug := "string-immutability-misuse" }, { slug := "string-vs-bytes-confusion" },
    { slug := "encoding-decoding-mismatch", appliesTo := ["spot_the_bug"] },
    { slug := "timezone-naive-vs-aware", appliesTo := ["spot_the_bug"] }, { slug := "boolean-short-circuit-side-effect" },
    { slug := "truthy-falsy-empty-check" }, { slug := "is-vs-equality" },
    { slug := "decorator-losing-metadata", appliesTo := ["spot_the_bug"], stbUnsamplable := true },
    { slug := "recursion-missing-base-case" }, { slug := "memoization-cache-staleness", appliesTo := ["spot_the_bug"] },
    { slug := "dataclass-mutable-default", appliesTo := ["spot_the_bug"] },
    { slug := "unpacking-order-assumption", appliesTo := ["trace"] },
    { slug := "n-plus-one-pattern", appliesTo := ["spot_the_bug"], stbUnsamplable := true },
    { slug := "retry-without-backoff", appliesTo := ["spot_the_bug"], requiresForbidden := true },
    { slug := "idempotency-missing", appliesTo := ["spot_the_bug"], stbUnsamplable := true },
    { slug := "injection-string-concat", appliesTo := ["spot_the_bug"] },
    { slug := "concurrency-conceptual", appliesTo := ["spot_the_bug"], stbUnsamplable := true }]

def conceptsForType (exerciseType : String) : List Concept :=
  concepts.filter fun c => exerciseType ∈ c.appliesTo && !c.requiresForbidden &&
    !(exerciseType == "spot_the_bug" && c.stbUnsamplable)

/-! ## Candidates with their specifications -/

namespace Ingest

def requiredTemplateId : String := "handauthored_stb_v1"

/-- `_DEFAULT_DOMAIN`. -/
def defaultDomain : String := "hand-authored exercise"

def stbConceptSlugs : List String := (conceptsForType "spot_the_bug").map (·.slug)

/-- A specification of an item; a domain of any type is taken. -/
structure ItemSpec where
  concept : String
  difficulty : Difficulty
  domain : PyJson
  hasBug : Bool
  samplable : concept ∈ stbConceptSlugs

def ItemSpec.lineBudget (spec : ItemSpec) : Int × Int := lineBudgetForDifficulty spec.difficulty.1

structure IngestItem where
  spec : ItemSpec
  candidate : STBCandidate

/-- The report of an item that is not loaded; its stage is `load`. -/
structure LoadReject where
  index : Nat
  spec : PyJson
  candidate : PyJson
  error : String

section Load

variable (py : IngestRuntime)

/-- `_build_spec` from the concept on. -/
def buildChecked (raw : PyJson) : Except Raised ItemSpec :=
  let concept := get raw "concept"
  let difficulty := get raw "difficulty"
  if !hashable concept then .error .typeError
  else
    match hslug : stbConceptSlugs.find? (isText concept) with
    | none => .error (.loadError ("spec.concept " ++ py.repr concept ++ " is not a valid, samplable spot_the_bug concept " ++
        "(unknown slug, or flagged requires_forbidden/stb_unsamplable in pipeline.taxonomy)"))
    | some slug =>
      match int? difficulty with
      | none => .error (.loadError ("spec.difficulty must be an int in [1, 10], got " ++ py.repr difficulty))
      | some d =>
        if hd : 1 ≤ d ∧ d ≤ 10 then
          .ok {
            concept := slug
            difficulty := ⟨d, hd⟩
            domain := if has raw "domain" then get raw "domain" else .str (codes defaultDomain)
            hasBug := truthy (get raw "has_bug")
            samplable := List.mem_of_find?_eq_some hslug }
        else .error (.loadError ("spec.difficulty must be an int in [1, 10], got " ++ py.repr difficulty))

def buildSpec (raw : PyJson) : Except Raised ItemSpec :=
  if !isDict raw then .error .attributeError
  else if !isText (get raw "type") "spot_the_bug" then
    .error (.loadError ("unsupported spec.type " ++ py.repr (get raw "type") ++
      ": ingest currently only handles spot_the_bug"))
  else if has raw "language" && !isText (get raw "language") "python" then
    .error (.loadError ("unsupported spec.language " ++ py.repr (get raw "language") ++ ": python only"))
  else
    match ["concept", "difficulty", "has_bug"].find? (fun key => !has raw key) with
    | some key => .error (.loadError ("spec missing required key '" ++ key ++ "'"))
    | none => buildChecked py raw

/-- `(raw_spec or {}).get("concept", "unknown")`, before anything is guarded. -/
def conceptOf (rawSpec : PyJson) : Except Raised PyJson :=
  if !truthy rawSpec then .ok (.str (codes "unknown"))
  else if !isDict rawSpec then .error .attributeError
  else .ok (if has rawSpec "concept" then get rawSpec "concept" else .str (codes "unknown"))

/-- The guarded block. -/
def parseItem (item : PyJson) : Except Raised IngestItem :=
  if !isText (get item "prompt_template_id") requiredTemplateId then
    .error (.loadError ("prompt_template_id must be '" ++ requiredTemplateId ++ "', got " ++
      py.repr (get item "prompt_template_id")))
  else if isNone (get item "spec") then .error (.loadError "item missing required key 'spec'")
  else if isNone (get item "candidate") then .error (.loadError "item missing required key 'candidate'")
  else
    match buildSpec py (get item "spec") with
    | .error raised => .error raised
    | .ok spec =>
      match py.validateStb (get item "candidate") with
      | .error text => .error (.validationError text)
      | .ok candidate => .ok ⟨spec, candidate⟩

def loadItem (index : Nat) (item : PyJson) : Except Raised (IngestItem ⊕ LoadReject) :=
  match conceptOf (get item "spec") with
  | .error raised => .error raised
  | .ok concept =>
    match parseItem py item with
    | .ok loaded => .ok (.inl loaded)
    | .error raised => reject py concept (⟨index, get item "spec", get item "candidate", ·⟩) raised

end Load

end Ingest

/-! ## Wrong fixes -/

namespace PtfIngest

def requiredTemplateId : String := "handauthored_ptf_v1"

structure PTFIngestItem where
  stbExerciseId : Nat
  stbExerciseVersion : Int
  wrongFixes : PredictFixCandidate

/-- The report of an item that is not loaded; its stage is `load`. -/
structure LoadReject where
  index : Nat
  item : PyJson
  error : String

section Load

variable (py : IngestRuntime)

/-- The guarded block: the id and the fixes. -/
def parseItem (index : Nat) (item : PyJson) : Except Raised (Nat × PredictFixCandidate) :=
  if !isDict item then .error (.loadError ("item " ++ toString index ++ " must be a JSON object"))
  else if !isText (get item "prompt_template_id") requiredTemplateId then
    .error (.loadError ("prompt_template_id must be '" ++ requiredTemplateId ++ "', got " ++
      py.repr (get item "prompt_template_id")))
  else if isNone (get item "stb_exercise_id") || isNone (get item "stb_exercise_version") then
    .error (.loadError "item missing required key 'stb_exercise_id' or 'stb_exercise_version'")
  else
    match uuidOfHex (chars (strOf py (get item "stb_exercise_id"))) with
    | none => .error (.loadError ("stb_exercise_id " ++ py.repr (get item "stb_exercise_id") ++ " is not a valid UUID"))
    | some id =>
      if !has item "wrong_fixes" then .error (.loadError "item missing required key 'wrong_fixes'")
      else
        match py.validatePtf (.obj [(codes "wrong_fixes", get item "wrong_fixes")]) with
        | .error text => .error (.validationError text)
        | .ok wrongFixes => .ok (id, wrongFixes)

/-- The version is converted behind the guarded block. -/
def loadItem (index : Nat) (item : PyJson) : Except Raised (PTFIngestItem ⊕ LoadReject) :=
  match parseItem py index item with
  | .error raised => reject py (.str (codes "unknown")) (⟨index, item, ·⟩) raised
  | .ok (id, wrongFixes) =>
    match toInt (get item "stb_exercise_version") with
    | .error raised => .error raised
    | .ok version => .ok (.inl ⟨id, version, wrongFixes⟩)

end Load

end PtfIngest

/-- `load_batch` of either module, of the value that the file holds. -/
def loadBatch {Loaded Report : Type} (load : Nat → PyJson → Except Raised (Loaded ⊕ Report)) (path : String) :
    PyJson → Except Raised (List Loaded × List Report)
  | .arr items => Batches.ingest load items
  | _ => .error (.loadError (path ++ " must contain a JSON array of batch items"))

/-! ## What escapes the guard -/

/-- What a guarded computation came to: a value, something caught, or something that escapes. -/
inductive Verdict {α : Type} (loads guarded : Prop) : Except Raised α → Prop
  | loaded (value : α) (h : loads) : Verdict loads guarded (.ok value)
  | caught (raised : Raised) (hdetail : raised.detail.isSome) (hloads : ¬ loads) (h : guarded) :
      Verdict loads guarded (.error raised)
  | escapes (raised : Raised) (hdetail : raised.detail = none) (h : ¬ guarded) : Verdict loads guarded (.error raised)

theorem Verdict.congr {α : Type} {loads guarded loads' guarded' : Prop} {result : Except Raised α}
    (h : Verdict loads guarded result) (hloads : loads ↔ loads') (hguarded : guarded ↔ guarded') :
    Verdict loads' guarded' result := by
  rw [← hloads, ← hguarded]
  exact h

namespace Ingest

/-- The item has the template that is asked for, a specification and a candidate. -/
def Reached (item : PyJson) : Prop :=
  isText (get item "prompt_template_id") requiredTemplateId = true ∧ isNone (get item "spec") = false ∧
    isNone (get item "candidate") = false

/-- The specification is one whose concept is looked up. -/
def LooksUp (raw : PyJson) : Prop :=
  isText (get raw "type") "spot_the_bug" = true ∧
    (has raw "language" = true → isText (get raw "language") "python" = true) ∧
    ∀ key ∈ ["concept", "difficulty", "has_bug"], has raw key = true

/-- Its concept is one of the slugs, its difficulty an integer from one to ten. -/
def Known (raw : PyJson) : Prop :=
  (∃ slug ∈ stbConceptSlugs, isText (get raw "concept") slug = true) ∧
    ∃ d, int? (get raw "difficulty") = some d ∧ 1 ≤ d ∧ d ≤ 10

/-- The item is one that is loaded. -/
def Loads (py : IngestRuntime) (item : PyJson) : Prop :=
  Reached item ∧ isDict (get item "spec") = true ∧ LooksUp (get item "spec") ∧ Known (get item "spec") ∧
    ∃ candidate, py.validateStb (get item "candidate") = .ok candidate

/-- A specification that is read is a dict, and a concept that is looked up is neither a list nor a dict. -/
def Guarded (item : PyJson) : Prop :=
  Reached item → isDict (get item "spec") = true ∧
    (LooksUp (get item "spec") → hashable (get (get item "spec") "concept") = true)

/-- The concept that a report is named by. -/
def conceptName (rawSpec : PyJson) : PyJson :=
  if has rawSpec "concept" then get rawSpec "concept" else .str (codes "unknown")

/-- **An item at which nothing escapes**: a specification that is not empty is a dict, what is guarded raises what is caught,
and of an item that is not loaded the report's file can be created. -/
structure Orderly (py : IngestRuntime) (item : PyJson) : Prop where
  spec_dict : truthy (get item "spec") = true → isDict (get item "spec") = true
  guarded : Guarded item
  written : Loads py item ∨ py.creates (strOf py (conceptName (get item "spec"))) = true

section Verdicts

variable (py : IngestRuntime)

theorem hashable_of_isText {value : PyJson} {text : String} (h : isText value text = true) : hashable value = true := by
  cases value with
  | str s => rfl
  | _ => cases h

theorem buildChecked_verdict (raw : PyJson) :
    Verdict (Known raw) (hashable (get raw "concept") = true) (buildChecked py raw) := by
  unfold buildChecked
  dsimp only
  split
  · next h => exact .escapes _ rfl fun hhash => by rw [hhash] at h; cases h
  · next h =>
    have hhash : hashable (get raw "concept") = true := by
      cases hconcept : hashable (get raw "concept") with
      | true => rfl
      | false => rw [hconcept] at h; exact absurd rfl h
    split
    · next hslug =>
      refine .caught _ rfl (fun hknown => ?_) hhash
      obtain ⟨⟨slug, hmem, htext⟩, -⟩ := hknown
      exact absurd htext (List.find?_eq_none.mp hslug slug hmem)
    · next slug hslug =>
      split
      · next hint =>
        refine .caught _ rfl (fun hknown => ?_) hhash
        obtain ⟨-, d, hd, -⟩ := hknown
        rw [hint] at hd
        cases hd
      · next d hint =>
        split
        · next hd => exact .loaded _ ⟨⟨slug, List.mem_of_find?_eq_some hslug, List.find?_some hslug⟩, d, hint, hd⟩
        · next hd =>
          refine .caught _ rfl (fun hknown => ?_) hhash
          obtain ⟨-, d', hd', hrange⟩ := hknown
          rw [hint] at hd'
          cases hd'
          exact hd hrange

theorem known_hashable {raw : PyJson} (h : Known raw) : hashable (get raw "concept") = true := by
  obtain ⟨⟨slug, -, htext⟩, -⟩ := h
  exact hashable_of_isText htext

theorem buildSpec_verdict (raw : PyJson) :
    Verdict (isDict raw = true ∧ LooksUp raw ∧ Known raw)
      (isDict raw = true ∧ (LooksUp raw → hashable (get raw "concept") = true)) (buildSpec py raw) := by
  unfold buildSpec
  split
  · next h => exact .escapes _ rfl fun hguarded => by rw [hguarded.1] at h; cases h
  · next h =>
    have hdict : isDict raw = true := by
      cases hraw : isDict raw with
      | true => rfl
      | false => rw [hraw] at h; exact absurd rfl h
    split
    · next htype =>
      have hnot : ¬ LooksUp raw := fun hlook => by rw [hlook.1] at htype; cases htype
      exact .caught _ rfl (fun hloads => hnot hloads.2.1) ⟨hdict, fun hlook => absurd hlook hnot⟩
    · next htype =>
      split
      · next hlanguage =>
        have hnot : ¬ LooksUp raw := by
          intro hlook
          obtain ⟨hhas, htext⟩ := Bool.and_eq_true_iff.mp hlanguage
          rw [hlook.2.1 hhas] at htext
          cases htext
        exact .caught _ rfl (fun hloads => hnot hloads.2.1) ⟨hdict, fun hlook => absurd hlook hnot⟩
      · next hlanguage =>
        split
        · next key hkey =>
          have hnot : ¬ LooksUp raw := by
            intro hlook
            have hmissing := List.find?_some hkey
            rw [hlook.2.2 key (List.mem_of_find?_eq_some hkey)] at hmissing
            cases hmissing
          exact .caught _ rfl (fun hloads => hnot hloads.2.1) ⟨hdict, fun hlook => absurd hlook hnot⟩
        · next hkeys =>
          have hlook : LooksUp raw := by
            refine ⟨by simpa using htype, fun hhas => by simpa [hhas] using hlanguage, fun key hkey => ?_⟩
            simpa using List.find?_eq_none.mp hkeys key hkey
          exact (buildChecked_verdict py raw).congr ⟨fun h => ⟨hdict, hlook, h⟩, fun h => h.2.2⟩
            ⟨fun h => ⟨hdict, fun _ => h⟩, fun h => h.2 hlook⟩

theorem loads_guarded {item : PyJson} (h : Loads py item) : Guarded item :=
  fun _ => ⟨h.2.1, fun _ => known_hashable h.2.2.2.1⟩

theorem parseItem_verdict (item : PyJson) : Verdict (Loads py item) (Guarded item) (parseItem py item) := by
  unfold parseItem
  split
  · next h =>
    have hnot : ¬ Reached item := fun hreached => by rw [hreached.1] at h; cases h
    exact .caught _ rfl (fun hloads => hnot hloads.1) fun hreached => absurd hreached hnot
  · next htemplate =>
    split
    · next h =>
      have hnot : ¬ Reached item := fun hreached => by rw [hreached.2.1] at h; cases h
      exact .caught _ rfl (fun hloads => hnot hloads.1) fun hreached => absurd hreached hnot
    · next hspec =>
      split
      · next h =>
        have hnot : ¬ Reached item := fun hreached => by rw [hreached.2.2] at h; cases h
        exact .caught _ rfl (fun hloads => hnot hloads.1) fun hreached => absurd hreached hnot
      · next hcandidate =>
        have hreached : Reached item := ⟨by simpa using htemplate, by simpa using hspec, by simpa using hcandidate⟩
        have hverdict := buildSpec_verdict py (get item "spec")
        generalize buildSpec py (get item "spec") = built at hverdict ⊢
        cases hverdict with
        | loaded spec h =>
          have hguarded : Guarded item := fun _ => ⟨h.1, fun _ => known_hashable h.2.2⟩
          cases hvalid : py.validateStb (get item "candidate") with
          | ok candidate => exact .loaded _ ⟨hreached, h.1, h.2.1, h.2.2, candidate, hvalid⟩
          | error text =>
            refine .caught _ rfl (fun hloads => ?_) hguarded
            obtain ⟨-, -, -, -, candidate, hok⟩ := hloads
            rw [hvalid] at hok
            cases hok
        | caught raised hdetail hloads h =>
          exact .caught raised hdetail (fun h => hloads ⟨h.2.1, h.2.2.1, h.2.2.2.1⟩) fun _ => h
        | escapes raised hdetail h => exact .escapes raised hdetail fun hguarded => h (hguarded hreached)

/-- Nothing is raised when a specification that is not empty is a dict. -/
theorem conceptOf_eq {rawSpec : PyJson} (h : truthy rawSpec = true → isDict rawSpec = true) :
    conceptOf rawSpec = .ok (conceptName rawSpec) := by
  unfold conceptOf conceptName
  cases htruthy : truthy rawSpec with
  | true => rw [h htruthy]; rfl
  | false =>
    have hhas : has rawSpec "concept" = false := by
      cases rawSpec with
      | obj fields =>
        have hempty : fields = [] := by simpa [truthy] using htruthy
        rw [hempty]
        rfl
      | _ => rfl
    rw [hhas]
    rfl

theorem conceptOf_eq_error {rawSpec : PyJson} (h : ¬ (truthy rawSpec = true → isDict rawSpec = true)) :
    conceptOf rawSpec = .error .attributeError := by
  obtain ⟨htruthy, hdict⟩ := Classical.not_imp.mp h
  rw [conceptOf, htruthy, Bool.eq_false_iff.mpr hdict]
  rfl

/-- **Nothing is raised at an orderly item, and something at any other.** -/
theorem loadItem_ok_iff (index : Nat) (item : PyJson) :
    (∃ outcome, loadItem py index item = .ok outcome) ↔ Orderly py item := by
  by_cases hdict : truthy (get item "spec") = true → isDict (get item "spec") = true
  · have hverdict := parseItem_verdict py item
    have hguarded : Loads py item → Guarded item := loads_guarded py
    rw [loadItem, conceptOf_eq hdict]
    generalize parseItem py item = parsed at hverdict ⊢
    cases hverdict with
    | loaded loaded h => exact ⟨fun _ => ⟨hdict, hguarded h, .inl h⟩, fun _ => ⟨_, rfl⟩⟩
    | caught raised hdetail hloads h =>
      exact (reject_ok_iff py).trans ⟨fun hok => ⟨hdict, h, .inr hok.2⟩, fun ho => ⟨hdetail, ho.written.resolve_left hloads⟩⟩
    | escapes raised hdetail h =>
      refine (reject_ok_iff py).trans ⟨fun hok => ?_, fun ho => absurd ho.guarded h⟩
      rw [hdetail] at hok
      exact absurd hok.1 Bool.false_ne_true
  · rw [loadItem, conceptOf_eq_error hdict]
    exact ⟨fun ⟨_, h⟩ => (by cases h), fun h => absurd h.spec_dict hdict⟩

/-- A report is of the item's index. -/
theorem index_of_loadItem {index : Nat} {item : PyJson} {report : LoadReject}
    (h : loadItem py index item = .ok (.inr report)) : report.index = index := by
  unfold loadItem at h
  split at h
  · cases h
  · split at h
    · cases h
    · obtain ⟨detail, rfl⟩ := eq_of_reject_inr py h
      rfl

end Verdicts

end Ingest

namespace PtfIngest

/-- `int` takes the value. -/
def IsNumeric : PyJson → Prop
  | .int _ | .bool _ | .float (.finite _ _ _) => True
  | .str s => (intOfText 10 (chars s)).isSome = true
  | _ => False

/-- The item passes the guarded block. -/
def Passes (py : IngestRuntime) (item : PyJson) : Prop :=
  isDict item = true ∧ isText (get item "prompt_template_id") requiredTemplateId = true ∧
    isNone (get item "stb_exercise_id") = false ∧ isNone (get item "stb_exercise_version") = false ∧
    (uuidOfHex (chars (strOf py (get item "stb_exercise_id")))).isSome = true ∧ has item "wrong_fixes" = true ∧
    ∃ wrongFixes, py.validatePtf (.obj [(codes "wrong_fixes", get item "wrong_fixes")]) = .ok wrongFixes

/-- **An item at which nothing escapes**: if it passes the guarded block its version is a number or the text of one, and if
not, the report's file can be created. -/
structure Orderly (py : IngestRuntime) (item : PyJson) : Prop where
  numeric : Passes py item → IsNumeric (get item "stb_exercise_version")
  written : Passes py item ∨ py.creates (codes "unknown") = true

section Verdicts

variable (py : IngestRuntime)

theorem toInt_ok_iff {value : PyJson} : (∃ n, toInt value = .ok n) ↔ IsNumeric value := by
  cases value with
  | int n => exact ⟨fun _ => trivial, fun _ => ⟨_, rfl⟩⟩
  | bool b => exact ⟨fun _ => trivial, fun _ => ⟨_, rfl⟩⟩
  | float x =>
    cases x with
    | finite negative mantissa exponent => exact ⟨fun _ => trivial, fun _ => ⟨_, rfl⟩⟩
    | _ => exact ⟨fun ⟨_, h⟩ => (by cases h), fun h => h.elim⟩
  | str s =>
    rw [toInt, IsNumeric]
    cases intOfText 10 (chars s) with
    | none => exact ⟨fun ⟨_, h⟩ => (by cases h), fun h => (by cases h)⟩
    | some n => exact ⟨fun _ => rfl, fun _ => ⟨n, rfl⟩⟩
  | _ => exact ⟨fun ⟨_, h⟩ => (by cases h), fun h => h.elim⟩

theorem parseItem_verdict (index : Nat) (item : PyJson) : Verdict (Passes py item) True (parseItem py index item) := by
  have hcaught : ∀ text, ¬ Passes py item →
      Verdict (Passes py item) True (.error (.loadError text) : Except Raised (Nat × PredictFixCandidate)) :=
    fun text hnot => .caught _ rfl hnot trivial
  unfold parseItem
  split
  · next h => exact hcaught _ fun hpasses => by rw [hpasses.1] at h; cases h
  · next hdict =>
    split
    · next h => exact hcaught _ fun hpasses => by rw [hpasses.2.1] at h; cases h
    · next htemplate =>
      split
      · next h => exact hcaught _ fun hpasses => by rw [hpasses.2.2.1, hpasses.2.2.2.1] at h; cases h
      · next hkeys =>
        split
        · next h =>
          refine hcaught _ fun hpasses => ?_
          have hid := hpasses.2.2.2.2.1
          rw [h] at hid
          cases hid
        · next id hid =>
          split
          · next h => exact hcaught _ fun hpasses => by rw [hpasses.2.2.2.2.2.1] at h; cases h
          · next hfixes =>
            obtain ⟨hexercise, hversion⟩ : isNone (get item "stb_exercise_id") = false ∧
                isNone (get item "stb_exercise_version") = false := by simpa using hkeys
            cases hvalid : py.validatePtf (.obj [(codes "wrong_fixes", get item "wrong_fixes")]) with
            | ok wrongFixes =>
              exact .loaded _ ⟨by simpa using hdict, by simpa using htemplate, hexercise, hversion, by rw [hid]; rfl,
                by simpa using hfixes, wrongFixes, hvalid⟩
            | error text =>
              refine .caught _ rfl (fun hpasses => ?_) trivial
              obtain ⟨wrongFixes, hok⟩ := hpasses.2.2.2.2.2.2
              rw [hvalid] at hok
              cases hok

/-- **Nothing is raised at an orderly item, and something at any other.** -/
theorem loadItem_ok_iff (index : Nat) (item : PyJson) :
    (∃ outcome, loadItem py index item = .ok outcome) ↔ Orderly py item := by
  have hverdict := parseItem_verdict py index item
  rw [loadItem]
  generalize parseItem py index item = parsed at hverdict ⊢
  cases hverdict with
  | loaded loaded h =>
    have hint : (∃ n, toInt (get item "stb_exercise_version") = .ok n) ↔ IsNumeric (get item "stb_exercise_version") :=
      toInt_ok_iff
    constructor
    · rintro ⟨outcome, hok⟩
      refine ⟨fun _ => hint.mp ?_, .inl h⟩
      cases hversion : toInt (get item "stb_exercise_version") with
      | ok version => exact ⟨version, rfl⟩
      | error raised =>
        dsimp only at hok
        rw [hversion] at hok
        cases hok
    · intro ho
      obtain ⟨version, hversion⟩ := hint.mpr (ho.numeric h)
      dsimp only
      rw [hversion]
      exact ⟨_, rfl⟩
  | caught raised hdetail hpasses h =>
    exact (reject_ok_iff py).trans ⟨fun hok => ⟨fun h => absurd h hpasses, .inr hok.2⟩, fun ho =>
      ⟨hdetail, ho.written.resolve_left hpasses⟩⟩
  | escapes raised hdetail h => exact absurd trivial h

/-- A report is of the item's index. -/
theorem index_of_loadItem {index : Nat} {item : PyJson} {report : LoadReject}
    (h : loadItem py index item = .ok (.inr report)) : report.index = index := by
  unfold loadItem at h
  split at h
  · obtain ⟨detail, rfl⟩ := eq_of_reject_inr py h
    rfl
  · split at h <;> cases h

end Verdicts

end PtfIngest

/-! ## Batches -/

/-- **A batch of either kind is loaded item by item, whatever the others are, when and only when nothing escapes at any of
its items.** -/
theorem loadBatch_eachOnce_iff (py : IngestRuntime) (path : String) (items : List PyJson) :
    (Batches.EachOnce (Ingest.loadItem py) Ingest.LoadReject.index items (loadBatch (Ingest.loadItem py) path (.arr items)) ↔
        ∀ item ∈ items, Ingest.Orderly py item) ∧
      (Batches.EachOnce (PtfIngest.loadItem py) PtfIngest.LoadReject.index items
          (loadBatch (PtfIngest.loadItem py) path (.arr items)) ↔
        ∀ item ∈ items, PtfIngest.Orderly py item) := by
  have hmem : ∀ P : PyJson → Prop, (∀ (index : Nat) (item : PyJson), items[index]? = some item → P item) ↔ ∀ item ∈ items, P item :=
    fun P => ⟨fun h item hitem => (List.mem_iff_getElem?.mp hitem).elim fun index => h index item,
      fun h index item hitem => h item (List.mem_of_getElem? hitem)⟩
  rw [loadBatch, loadBatch, Batches.eachOnce_iff fun index item report => Ingest.index_of_loadItem py,
    Batches.eachOnce_iff fun index item report => PtfIngest.index_of_loadItem py]
  simp only [Ingest.loadItem_ok_iff, PtfIngest.loadItem_ok_iff]
  exact ⟨hmem _, hmem _⟩

/-! An item without anything, and one with a specification that is a text; wrong fixes for the version `latest`. -/

def threeFixes : PredictFixCandidate := ⟨[⟨"a", ""⟩, ⟨"b", ""⟩, ⟨"c", ""⟩], rfl⟩

/-- File names without a slash and without a null character; the only candidate is of the three fixes. -/
def fewRuntime : IngestRuntime where
  repr value := if isNone value then "None" else ""
  validateStb := fun _ => .error "24 validation errors for STBCandidate"
  validatePtf := fun _ => .ok threeFixes
  creates name := name.all fun c => c ≠ 47 && c ≠ 0

def textSpec : PyJson := .obj [(codes "spec", .str (codes "off-by-one"))]

def fix (code : String) : PyJson := .obj [(codes "code", .str (codes code)), (codes "note", .str [])]

def latestVersion : PyJson :=
  .obj [(codes "prompt_template_id", .str (codes "handauthored_ptf_v1")),
    (codes "stb_exercise_id", .str (codes "00000000-0000-0000-0000-000000000001")),
    (codes "stb_exercise_version", .str (codes "latest")), (codes "wrong_fixes", .arr [fix "a", fix "b", fix "c"])]

theorem loadBatch_raises :
    (¬ ∀ (py : IngestRuntime) (path : String) (items : List PyJson),
      Batches.EachOnce (Ingest.loadItem py) Ingest.LoadReject.index items (loadBatch (Ingest.loadItem py) path (.arr items))) ∧
    ¬ ∀ (py : IngestRuntime) (path : String) (items : List PyJson),
      Batches.EachOnce (PtfIngest.loadItem py) PtfIngest.LoadReject.index items
        (loadBatch (PtfIngest.loadItem py) path (.arr items)) := by
  constructor
  · intro hall
    obtain ⟨outcomes, -, hresult, -⟩ := hall fewRuntime "batch.json" [.obj [], textSpec]
    have hraises : loadBatch (Ingest.loadItem fewRuntime) "batch.json" (.arr [.obj [], textSpec]) = .error .attributeError := rfl
    rw [hraises] at hresult
    cases hresult
  · intro hall
    obtain ⟨outcomes, -, hresult, -⟩ := hall fewRuntime "batch.json" [latestVersion]
    have hraises : (loadBatch (PtfIngest.loadItem fewRuntime) "batch.json" (.arr [latestVersion])).toOption.isSome = false := by
      decide +kernel
    rw [hresult] at hraises
    cases hraises

end CodeReader.Pipeline
