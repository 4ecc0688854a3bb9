import CodeReader.Sessions.Spec
import CodeReader.Txn.Alike

/-!
# What a session shows of its exercises

`GET /session/today` with the payload of every exercise, and what it cannot show.

* `SessionExercisePayload`, `CodeDocument` — the shapes on the wire, which forbid every other field;
* `serializePayload`, `payloadDocuments` — from a stored payload to the wire, by the type of the exercise;
* `Wire.getTodaySession` — the request; without the payloads it is `getTodaySession` (`Wire.exec_getTodaySession`);
* `SameButKeys` — tables that differ in the grading objects, the explanations and the misconception tags only:
  **the responses from them are the same** (`Wire.alike_getTodaySession`).
-/

namespace CodeReader.Sessions

open Txn Prog Grading Text

/-! ## Shapes -/

structure ReasonOption where
  id : String
  text : String
  deriving DecidableEq

structure TraceChoice where
  id : String
  text : String
  deriving DecidableEq

inductive DocumentRole
  | primary | failingTest | choice
  deriving DecidableEq

structure CodeDocument where
  id : String
  role : DocumentRole
  code : String
  language : String
  label : Option String
  deriving DecidableEq

structure SessionExercisePayload where
  code : String
  documents : List CodeDocument
  contextNote : String
  answerMode : Option String
  reasonOptions : Option (List ReasonOption)
  question : Option String
  choices : Option (List TraceChoice)
  maxWords : Option Int
  failingTest : Option String
  testOutput : Option String
  deriving DecidableEq

/-! ## Values as Python and pydantic read them -/

/-- `payload.get(key)`. -/
def field (key : String) (payload : Json) : Json := (payload.get? key).getD .null

/-- `bool(value)`. -/
def truthy : Json → Bool
  | .null | .bool false | .int 0 | .str "" | .arr [] | .obj [] => false
  | _ => true

/-- What a `for` goes over; `none` is a `TypeError`. -/
def iterated : Json → Option (List Json)
  | .arr items => some items
  | .obj fields => some ((fields.map (·.1)).eraseDups.map .str)
  | .str s => some (s.toList.map fun c => .str (String.singleton c))
  | _ => none

/-- A field `str`. -/
def readStr : Json → Option String
  | .str s => some s
  | _ => none

/-- A field that may be `None`. -/
def readOptional {α : Type} (read : Json → Option α) : Json → Option (Option α)
  | .null => some none
  | value => (read value).map some

/-- A field `int`; `intOfText` is what pydantic reads from a string. -/
def readInt (intOfText : String → Option Int) : Json → Option Int
  | .int n => some n
  | .bool b => some b.toNat
  | .str s => intOfText s
  | _ => none

/-- A field `list`. -/
def readList {α : Type} (read : Json → Option α) : Json → Option (List α)
  | .arr items => items.mapM read
  | _ => none

/-- `extra="forbid"`. -/
def hasOnly (known : List String) : Json → Bool
  | .obj fields => fields.all fun f => known.contains f.1
  | _ => false

def readReasonOption (value : Json) : Option ReasonOption :=
  if hasOnly ["id", "text"] value then do
    let id ← (value.get? "id").bind readStr
    let text ← (value.get? "text").bind readStr
    some ⟨id, text⟩
  else none

def readTraceChoice (value : Json) : Option TraceChoice :=
  if hasOnly ["id", "text"] value then do
    let id ← (value.get? "id").bind readStr
    let text ← (value.get? "text").bind readStr
    some ⟨id, text⟩
  else none

def readRole : Json → Option DocumentRole
  | .str "primary" => some .primary
  | .str "failing_test" => some .failingTest
  | .str "choice" => some .choice
  | _ => none

def readCodeDocument (value : Json) : Option CodeDocument :=
  if hasOnly ["id", "role", "code", "language", "label"] value then do
    let id ← (value.get? "id").bind readStr
    let role ← (value.get? "role").bind readRole
    let code ← (value.get? "code").bind readStr
    let language ← (value.get? "language").bind readStr
    let label ← readOptional readStr (field "label" value)
    some ⟨id, role, code, language, label⟩
  else none

/-! ## Serializing -/

/-- The dictionary `fields`; a key that is not set is `None`. -/
structure PayloadFields where
  code : Json
  contextNote : Json
  answerMode : Json := .null
  reasonOptions : Json := .null
  question : Json := .null
  choices : Json := .null
  maxWords : Json := .null
  failingTest : Json := .null
  testOutput : Json := .null

/-- `{"id": item["id"], "text": item["text"]}`; `none` is a `KeyError` or a `TypeError`. -/
def idAndText (item : Json) : Option Json := do
  let id ← item.get? "id"
  let text ← item.get? "text"
  some (.obj [("id", id), ("text", text)])

/-- `[{"id": ..., "text": ...} for item in payload.get(key, [])]`. -/
def idsAndTexts (key : String) (payload : Json) : Option Json := do
  let items ← iterated ((payload.get? key).getD (.arr []))
  (items.mapM idAndText).map .arr

/-- What `_serialize_payload` copies, by type. -/
def payloadFields (type : String) (payload : Json) : Option PayloadFields :=
  let fields : PayloadFields := { code := field "code" payload, contextNote := field "context_note" payload }
  if type = "spot_the_bug" then do
    let options ← idsAndTexts "reason_options" payload
    some { fields with answerMode := field "answer_mode" payload, reasonOptions := options }
  else if type = "trace" then do
    -- a choice's `misconception` tags distractors only: it would give the answer away
    let choices ← idsAndTexts "choices" payload
    some { fields with question := field "question" payload, choices := choices }
  else if type = "predict_the_fix" then do
    let choices ← idsAndTexts "choices" payload
    some { fields with
      answerMode := field "answer_mode" payload
      question := field "question" payload
      failingTest := field "failing_test" payload
      testOutput := field "test_output" payload
      choices := choices }
  else if type = "summarize" then some { fields with maxWords := field "max_words" payload }
  else some fields

/-- The items of `fields.get("choices") or []`. -/
def choiceItems : Json → List Json
  | .arr items => items
  | _ => []

/-- `_payload_documents`. -/
def payloadDocuments (type language : String) (payload : Json) (fields : PayloadFields) : Json :=
  match payload.get? "documents" with
  | some (.arr (document :: documents)) => .arr (document :: documents)
  | _ =>
    let code := if truthy fields.code then fields.code else .str ""
    let primary := Json.obj
      [("id", .str "primary"), ("role", .str "primary"), ("code", code), ("language", .str language)]
    let failingTest := if truthy fields.failingTest then
      [Json.obj [("id", .str "failing_test"), ("role", .str "failing_test"), ("code", fields.failingTest),
        ("language", .str language), ("label", .str "Failing test")]] else []
    let choices := if type = "predict_the_fix" then (choiceItems fields.choices).map fun choice =>
      Json.obj [("id", field "id" choice), ("role", .str "choice"), ("code", field "text" choice),
        ("language", .str language)] else []
    .arr (primary :: failingTest ++ choices)

/-- `SessionExercisePayload(**fields)`. -/
def readPayload (intOfText : String → Option Int) (fields : PayloadFields) (documents : Json) :
    Option SessionExercisePayload := do
  let code ← readStr fields.code
  let documents ← readList readCodeDocument documents
  let contextNote ← readStr fields.contextNote
  let answerMode ← readOptional readStr fields.answerMode
  let reasonOptions ← readOptional (readList readReasonOption) fields.reasonOptions
  let question ← readOptional readStr fields.question
  let choices ← readOptional (readList readTraceChoice) fields.choices
  let maxWords ← readOptional (readInt intOfText) fields.maxWords
  let failingTest ← readOptional readStr fields.failingTest
  let testOutput ← readOptional readStr fields.testOutput
  some ⟨code, documents, contextNote, answerMode, reasonOptions, question, choices, maxWords, failingTest, testOutput⟩

/-- `_serialize_payload`, of the value of the column. -/
def serializeValue (intOfText : String → Option Int) (type language : String) : Json → Option SessionExercisePayload
  | .obj members => do
    let fields ← payloadFields type (.obj members)
    readPayload intOfText fields (payloadDocuments type language (.obj members) fields)
  | _ => none

/-- `_serialize_payload`. -/
def serializePayload (intOfText : String → Option Int) (e : Exercise) : Option SessionExercisePayload :=
  (Json.loads e.payload).bind (serializeValue intOfText e.type e.language)

/-! ## The request -/

namespace Wire

structure SessionExercise extends Sessions.SessionExercise where
  payload : SessionExercisePayload
  deriving DecidableEq

structure SessionResponse where
  sessionDate : Int
  completed : Bool
  firstCompletedSession : Bool
  exercises : List SessionExercise
  tomorrow : Option TomorrowTeaser
  deriving DecidableEq

/-- The response without the payloads. -/
def SessionResponse.bare (r : SessionResponse) : Sessions.SessionResponse :=
  ⟨r.sessionDate, r.completed, r.firstCompletedSession, r.exercises.map (·.toSessionExercise), r.tomorrow⟩

/-- What the request takes from outside, with pydantic's reading of integers. -/
structure Env extends SessionEnv where
  intOfText : String → Option Int

/-- The types that `SessionExercise.type` admits. -/
def exerciseTypes : List String := ["spot_the_bug", "trace", "summarize", "predict_the_fix"]

/-- `SessionExercise(...)` of a row; `none` is any of its exceptions. -/
def sessionExercise (env : Env) (attemptedIds : List ExerciseId) (s : SessionSlot) (e : Exercise) :
    Option SessionExercise := do
  let payload ← serializePayload env.intOfText e
  if exerciseTypes.contains e.type then
    some {
      slot := s.slot
      exerciseId := e.id
      version := e.version
      type := e.type
      concepts := e.concepts.1
      language := e.language
      difficultyBand := difficultyBand e.difficultyAuthored.1 s.isBoss
      estTimeS := e.estTimeS
      isBoss := s.isBoss
      attempted := attemptedIds.contains e.id
      payload := payload }
  else none

/-- The slots whose exercise exists, each with its row. -/
def slotRows (exercises : Exercises) (slots : List SessionSlot) : List (SessionSlot × Exercise) :=
  slots.filterMap fun s => (exercises.find s.exerciseId s.version).map fun e => (s, e)

def sessionExercises (env : Env) (exercises : Exercises) (attemptedIds : List ExerciseId) (slots : List SessionSlot) :
    Option (List SessionExercise) :=
  (slotRows exercises slots).mapM fun row => sessionExercise env attemptedIds row.1 row.2

def built : Option (List SessionExercise) → SessionHandler (List SessionExercise)
  | some exercises => ret exercises
  | none => raise .malformed

/-- `get_today_session`. -/
def getTodaySession (env : Env) : SessionHandler SessionResponse := do
  let slots ← getTodaySlots env.toSessionEnv
  note (.served env.today slots)
  if slots = [] then ret ⟨env.today, false, false, [], none⟩
  else do
    let exercises ← query .exercises (·.exercises)
    let attemptedIds ← query attemptsTbl (·.attemptedIds env.today)
    let shown ← built (sessionExercises env exercises attemptedIds slots)
    if allAttempted attemptedIds slots then do
      let firstCompleted ← isFirstCompletedSession
      let tomorrow ← tomorrowTeaser env.toSessionEnv firstCompleted
      ret ⟨env.today, true, firstCompleted, shown, tomorrow⟩
    else ret ⟨env.today, false, false, shown, none⟩

end Wire

/-! ## What a serializer cannot see -/

/-- A choice without its `misconception`. -/
def dropTag : Json → Json
  | .obj fields => .obj (fields.filter fun f => f.1 != "misconception")
  | value => value

/-- Choices without their tags. -/
def untagChoices : Json → Json
  | .arr items => .arr (items.map dropTag)
  | value => value

def untagField (f : String × Json) : String × Json := if f.1 = "choices" then (f.1, untagChoices f.2) else f

/-- A payload without the tags of its choices. -/
def untag : Json → Json
  | .obj fields => .obj (fields.map untagField)
  | value => value

theorem untagField_fst (f : String × Json) : (untagField f).1 = f.1 := by
  unfold untagField
  split <;> rfl

theorem get?_untag (key : String) (payload : Json) :
    (untag payload).get? key = (payload.get? key).map fun value => (untagField (key, value)).2 := by
  cases payload with
  | obj fields =>
    have hpred : ((fun f : String × Json => f.1 == key) ∘ untagField) = fun f => f.1 == key := by
      funext f
      rw [Function.comp_apply, untagField_fst]
    rw [untag, Json.get?, Json.get?, ← List.map_reverse, List.find?_map, hpred]
    cases hfind : fields.reverse.find? (·.1 == key) with
    | none => rfl
    | some f =>
      have hkey : f.1 = key := by simpa using List.find?_some hfind
      rw [← hkey]
      rfl
  | _ => rfl

theorem get?_untag_of_ne {key : String} (h : key ≠ "choices") (payload : Json) :
    (untag payload).get? key = payload.get? key := by
  rw [get?_untag]
  simp [untagField, h]

theorem field_untag {key : String} (h : key ≠ "choices") (payload : Json) :
    field key (untag payload) = field key payload := by
  rw [field, field, get?_untag_of_ne h]

/-- Only the two fields of a choice are read. -/
theorem idAndText_dropTag (item : Json) : idAndText (dropTag item) = idAndText item := by
  have hget : ∀ {key : String}, key ≠ "misconception" → (dropTag item).get? key = item.get? key := by
    intro key hkey
    cases item with
    | obj fields =>
      rw [dropTag, Json.get?, Json.get?, ← List.filter_reverse, List.find?_filter]
      congr 2
      funext f
      by_cases hf : f.1 = key <;> simp [hf, hkey]
    | _ => rfl
  rw [idAndText, idAndText, hget (by decide), hget (by decide)]

theorem mapM_idAndText_untag (items : List Json) : (items.map dropTag).mapM idAndText = items.mapM idAndText := by
  rw [List.mapM_map]
  exact congrArg (fun f => items.mapM f) (funext idAndText_dropTag)

theorem idsAndTexts_untag (key : String) (payload : Json) :
    idsAndTexts key (untag payload) = idsAndTexts key payload := by
  by_cases hkey : key = "choices"
  · rw [idsAndTexts, idsAndTexts, get?_untag]
    cases payload.get? key with
    | none => rfl
    | some value =>
      cases value with
      | arr items =>
        simp only [untagField, hkey, if_true, untagChoices, iterated, Option.map_some, Option.getD_some,
          Option.bind_eq_bind, Option.bind_some]
        rw [mapM_idAndText_untag]
      | _ => simp [untagField, hkey, untagChoices]
  · rw [idsAndTexts, idsAndTexts, get?_untag_of_ne hkey]

theorem payloadFields_untag (type : String) (payload : Json) :
    payloadFields type (untag payload) = payloadFields type payload := by
  unfold payloadFields
  simp only [idsAndTexts_untag]
  rw [field_untag (by decide), field_untag (by decide), field_untag (by decide), field_untag (by decide),
    field_untag (by decide), field_untag (by decide), field_untag (by decide)]

theorem payloadDocuments_untag (type language : String) (payload : Json) (fields : PayloadFields) :
    payloadDocuments type language (untag payload) fields = payloadDocuments type language payload fields := by
  rw [payloadDocuments, payloadDocuments, get?_untag_of_ne (by decide)]

/-- **The tags of the choices do not reach the wire.** -/
theorem serializeValue_untag (intOfText : String → Option Int) (type language : String) (payload : Json) :
    serializeValue intOfText type language (untag payload) = serializeValue intOfText type language payload := by
  cases payload with
  | obj fields =>
    have hfields := payloadFields_untag type (.obj fields)
    have hdocuments := payloadDocuments_untag type language (.obj fields)
    simp only [untag] at hfields hdocuments ⊢
    simp only [serializeValue, hfields, hdocuments]
  | _ => rfl

/-! ## Rows and tables that differ in their keys -/

/-- The rows differ in the grading object, the explanation and the tags of the choices only. -/
structure SameButKey (e e' : Exercise) : Prop where
  rest : { e with payload := e'.payload, grading := e'.grading, explanation := e'.explanation } = e'
  payload : (Json.loads e.payload).map untag = (Json.loads e'.payload).map untag

/-- The tables differ in such columns of the exercises only. -/
structure SameButKeys (rows rows' : SessionTables) : Prop where
  rest : { rows with exercises := rows'.exercises } = rows'
  exercises : List.Forall₂ SameButKey rows.exercises.rows rows'.exercises.rows

/-- Rows that differ in such columns only come in one order. -/
def KeyBlind (o : RowOrder Exercise) : Prop :=
  ∀ l l', List.Forall₂ SameButKey l l' → List.Forall₂ SameButKey (o.order l) (o.order l')

variable {e e' : Exercise} {c c' : Exercises} {rows rows' : SessionTables}

/-- **One wire form.** -/
theorem SameButKey.serializePayload_eq (h : SameButKey e e') (intOfText : String → Option Int) :
    serializePayload intOfText e = serializePayload intOfText e' := by
  have hread : ∀ value : Option Json, value.bind (serializeValue intOfText e.type e.language) =
      (value.map untag).bind (serializeValue intOfText e.type e.language) := by
    intro value
    cases value with
    | none => rfl
    | some payload => exact (serializeValue_untag _ _ _ payload).symm
  have htype : e.type = e'.type := h.rest ▸ rfl
  have hlanguage : e.language = e'.language := h.rest ▸ rfl
  rw [serializePayload, serializePayload, ← htype, ← hlanguage, hread, h.payload, ← hread]

theorem SameButKey.sessionExercise_eq (h : SameButKey e e') (env : Wire.Env) (attemptedIds : List ExerciseId)
    (s : SessionSlot) : Wire.sessionExercise env attemptedIds s e = Wire.sessionExercise env attemptedIds s e' := by
  have hserial := h.serializePayload_eq env.intOfText
  have hrest := h.rest
  unfold Wire.sessionExercise
  rw [hserial, ← hrest]

theorem SameButKey.key_eq (h : SameButKey e e') : e.key = e'.key := h.rest ▸ rfl

/-- A function that gives the same for related rows. -/
theorem map_sameButKey {γ : Type} {f : Exercise → γ} {l l' : List Exercise} (h : List.Forall₂ SameButKey l l')
    (hf : ∀ e e', SameButKey e e' → f e = f e') : l.map f = l'.map f := by
  have hmap := List.rel_map (R := SameButKey) (P := Eq) (fun {e e'} he => hf e e' he) h
  rwa [List.forall₂_eq_eq_eq] at hmap

theorem filter_sameButKey {p p' : Exercise → Bool} {l l' : List Exercise} (h : List.Forall₂ SameButKey l l')
    (hp : ∀ e e', SameButKey e e' → p e = p' e') : List.Forall₂ SameButKey (l.filter p) (l'.filter p') :=
  List.rel_filter (fun {e e'} he => Bool.eq_iff_iff.mp (hp e e' he)) h

/-- Related rows are found under one key. -/
theorem find?_sameButKey {p : Exercise → Bool} {l l' : List Exercise} (h : List.Forall₂ SameButKey l l')
    (hp : ∀ e e', SameButKey e e' → p e = p e') : Option.Rel SameButKey (l.find? p) (l'.find? p) := by
  induction h with
  | nil => exact .none
  | cons he _ ih =>
    rw [List.find?_cons, List.find?_cons, hp _ _ he]
    split
    · exact .some he
    · exact ih

/-- The sampler sees related rows. -/
theorem fetchCandidates_sameButKey (h : List.Forall₂ SameButKey c.rows c'.rows) (language : String)
    (types : List String) :
    List.Forall₂ SameButKey (fetchCandidates c language types) (fetchCandidates c' language types) := by
  refine filter_sameButKey (filter_sameButKey h fun e e' he => ?_) fun e e' he => ?_
  · -- the view asks for a live row of the same id and a higher version
    have hany : c.rows.any (fun f => f.status == .live && f.id == e.id && decide (e.version < f.version)) =
        c'.rows.any fun f => f.status == .live && f.id == e.id && decide (e.version < f.version) := by
      have hmap := map_sameButKey h fun f f' hf =>
        show (f.status == .live && f.id == e.id && decide (e.version < f.version)) =
          (f'.status == .live && f'.id == e.id && decide (e.version < f'.version)) by rw [← hf.rest]
      simpa only [List.any_map, Function.id_comp] using congrArg (List.any · id) hmap
    rw [hany, ← he.rest]
  · rw [← he.rest]

theorem SameButKeys.fetchedCandidates_eq {env : SessionEnv} (horder : KeyBlind env.exerciseOrder)
    (h : SameButKeys rows rows') (types : List String) :
    fetchedCandidates env types rows = fetchedCandidates env types rows' := by
  unfold fetchedCandidates
  rw [← h.rest]
  exact map_sameButKey (horder _ _ (fetchCandidates_sameButKey h.exercises "python" types)) fun e e' he => by
    rw [← he.rest]

/-- The exercises of the response. -/
theorem sessionExercises_sameButKey (h : List.Forall₂ SameButKey c.rows c'.rows) (env : Wire.Env)
    (attemptedIds : List ExerciseId) (slots : List SessionSlot) :
    Wire.sessionExercises env c attemptedIds slots = Wire.sessionExercises env c' attemptedIds slots := by
  have hrows : List.Forall₂ (fun row row' : SessionSlot × Exercise => row.1 = row'.1 ∧ SameButKey row.2 row'.2)
      (Wire.slotRows c slots) (Wire.slotRows c' slots) := by
    induction slots with
    | nil => exact .nil
    | cons s slots ih =>
      unfold Wire.slotRows Exercises.find
      rw [List.filterMap_cons, List.filterMap_cons]
      have hfind := find?_sameButKey h fun e e' he =>
        show (e.key == (s.exerciseId, s.version)) = (e'.key == (s.exerciseId, s.version)) by rw [he.key_eq]
      generalize c.rows.find? (fun e => e.key == (s.exerciseId, s.version)) = found at hfind
      generalize c'.rows.find? (fun e => e.key == (s.exerciseId, s.version)) = found' at hfind
      cases hfind with
      | none => exact ih
      | some he => exact .cons ⟨rfl, he⟩ ih
  unfold Wire.sessionExercises
  generalize Wire.slotRows c slots = shown at hrows
  generalize Wire.slotRows c' slots = shown' at hrows
  induction hrows with
  | nil => rfl
  | cons hrow _ ih =>
    rw [List.mapM_cons, List.mapM_cons, ih, hrow.1, hrow.2.sessionExercise_eq]

/-! ## The request on two databases -/

/-- What is read besides the exercises is the same. -/
theorem SameButKeys.read_eq {γ : Type} (h : SameButKeys rows rows') {f : SessionTables → γ}
    (hf : ∀ exercises, f { rows with exercises := exercises } = f rows) : f rows = f rows' := by
  rw [← h.rest]
  exact (hf _).symm

/-- A write to the sessions. -/
theorem SameButKeys.insertSession (h : SameButKeys rows rows') (d : Int) (slots : List SessionSlot) :
    SameButKeys (insertSession d slots rows) (insertSession d slots rows') where
  rest := by rw [← h.rest]; rfl
  exercises := h.exercises

theorem SameButKeys.deleteSeen (h : SameButKeys rows rows') (d : Int) (seen : Json) :
    SameButKeys (deleteSeen d seen rows) (deleteSeen d seen rows') := by
  have hlist : rows.exerciseList = rows'.exerciseList := h.read_eq fun _ => rfl
  unfold Sessions.deleteSeen
  rw [hlist]
  split
  · exact ⟨by rw [← h.rest]; rfl, h.exercises⟩
  · exact h

section Programs

variable {env : SessionEnv}

/-- A read of anything besides the exercises. -/
theorem alike_read {γ : Type} (t : SessionTbl) {f : SessionTables → γ}
    (hf : ∀ rows exercises, f { rows with exercises := exercises } = f rows) :
    Alike SameButKeys Eq (query t f : SessionHandler γ) (query t f) :=
  @alike_query SessionApp _ SameButKeys t f f fun rows _ h => SameButKeys.read_eq h (hf rows)

theorem alike_decoded (value : Option (List SessionSlot)) : Alike SameButKeys Eq (decoded value) (decoded value) := by
  cases value with
  | none => exact alike_raise _
  | some slots => exact alike_ret slots

theorem alike_stored (d : Int) :
    Alike SameButKeys Eq (query sessionsTbl (·.stored d) : SessionHandler (Option Json)) (query sessionsTbl (·.stored d)) :=
  alike_read _ fun _ _ => rfl

theorem alike_deleteSession (d : Int) : Alike SameButKeys Eq (deleteSession d) (deleteSession d) := by
  refine (alike_stored d).bind_eq fun seen => ?_
  cases seen with
  | none => exact alike_ret ()
  | some seen => exact (alike_lockOn _).bind_eq fun _ => alike_update fun _ _ h => h.deleteSeen d seen

theorem alike_persistSession (slots : List SessionSlot) :
    Alike SameButKeys Eq (persistSession env slots) (persistSession env slots) := by
  refine (alike_note _).bind_eq fun _ => ?_
  split
  · exact alike_ret []
  · refine (alike_lockOn _).bind_eq fun _ => ?_
    refine (alike_read _ fun _ _ => rfl).bind_eq fun taken => ?_
    split
    · exact alike_raise _
    · refine (alike_update fun _ _ h => h.insertSession env.today slots).bind_eq fun _ => ?_
      exact alike_commitTx.bind_eq fun _ => alike_ret slots

theorem alike_sampleSession (horder : KeyBlind env.exerciseOrder) :
    Alike SameButKeys Eq (sampleSession env) (sampleSession env) := by
  unfold sampleSession
  refine (alike_query _ fun _ _ h => h.fetchedCandidates_eq horder _).bind_eq fun candidates => ?_
  refine (alike_read _ fun _ _ => rfl).bind_eq fun due => ?_
  refine (alike_read _ fun _ _ => rfl).bind_eq fun mastery => ?_
  exact (alike_read _ fun _ _ => rfl).bind_eq fun recent => alike_persistSession _

theorem alike_buildAndPersistSession (horder : KeyBlind env.exerciseOrder) :
    Alike SameButKeys Eq (buildAndPersistSession env) (buildAndPersistSession env) := by
  refine (alike_lockOn _).bind_eq fun _ => (alike_stored env.today).bind_eq fun stored => ?_
  cases stored with
  | none => exact alike_sampleSession horder
  | some list =>
    dsimp only
    split
    · exact alike_decoded _
    · exact alike_sampleSession horder

theorem alike_cacheSession (d : Int) (slots : List SessionSlot) :
    Alike SameButKeys Eq (cacheSession d slots) (cacheSession d slots) := alike_cmd _

theorem alike_buildAndCache (horder : KeyBlind env.exerciseOrder) :
    Alike SameButKeys Eq (buildAndCache env) (buildAndCache env) := by
  refine (alike_buildAndPersistSession horder).bind_eq fun slots => ?_
  split
  · exact alike_ret []
  · exact (alike_cacheSession _ _).bind_eq fun _ => alike_ret slots

theorem alike_getTodaySlots (horder : KeyBlind env.exerciseOrder) :
    Alike SameButKeys Eq (getTodaySlots env) (getTodaySlots env) := by
  refine (alike_cmd _).bind_eq fun cached => ?_
  cases cached with
  | some text => exact alike_decoded _
  | none =>
    refine (alike_stored env.today).bind_eq fun stored => ?_
    cases stored with
    | none => exact alike_buildAndCache horder
    | some list =>
      dsimp only
      split
      · exact (alike_decoded _).bind_eq fun slots => (alike_cacheSession _ _).bind_eq fun _ => alike_ret slots
      · exact (alike_deleteSession _).bind_eq fun _ => alike_buildAndCache horder

theorem alike_tomorrowTeaser (firstCompleted : Bool) :
    Alike SameButKeys Eq (tomorrowTeaser env firstCompleted) (tomorrowTeaser env firstCompleted) := by
  refine (alike_read _ fun _ _ => rfl).bind_eq fun scheduled => ?_
  cases scheduled with
  | some concept => exact alike_ret _
  | none =>
    dsimp only
    split
    · exact (alike_read _ fun _ _ => rfl).bind_eq fun fallback => alike_ret _
    · exact alike_ret none

theorem alike_built (shown : Option (List Wire.SessionExercise)) :
    Alike SameButKeys Eq (Wire.built shown) (Wire.built shown) := by
  cases shown with
  | none => exact alike_raise _
  | some exercises => exact alike_ret exercises

end Programs

namespace Wire

/-- **The request cannot tell tables apart that differ in their keys.** -/
theorem alike_getTodaySession {env : Env} (horder : KeyBlind env.exerciseOrder) :
    Alike SameButKeys Eq (getTodaySession env) (getTodaySession env) := by
  refine (alike_getTodaySlots horder).bind_eq fun slots => (alike_note _).bind_eq fun _ => ?_
  split
  · exact alike_ret _
  -- the rows are read whole; what the response takes of them is the same
  refine .select (fun c c' => List.Forall₂ SameButKey c.rows c'.rows) _ (fun _ _ h => h.exercises) fun c c' hc => ?_
  refine (alike_read _ fun _ _ => rfl).bind_eq fun attemptedIds => ?_
  rw [sessionExercises_sameButKey hc]
  refine (alike_built _).bind_eq fun shown => ?_
  split
  · refine (alike_read _ fun _ _ => rfl).bind_eq fun firstCompleted => ?_
    exact (alike_tomorrowTeaser firstCompleted).bind_eq fun tomorrow => alike_ret _
  · exact alike_ret _

/-- **Nothing of the answer before the submission**: the responses from tables that differ in the grading objects, the
explanations and the tags of the choices only are one response. -/
theorem response_blind {env : Env} (horder : KeyBlind env.exerciseOrder) (h : SameButKeys rows rows')
    (redis : SessionRedis) :
    ((getTodaySession env).exec rows ⟨rows, redis⟩).res = ((getTodaySession env).exec rows' ⟨rows', redis⟩).res := by
  have hrun : SameRun SameButKeys Eq ((getTodaySession env).exec rows ⟨rows, redis⟩)
      ((getTodaySession env).exec rows' ⟨rows', redis⟩) := (alike_getTodaySession horder).exec h h rfl
  exact hrun.res.eq

/-- A choice, tagged or not. -/
def keyedChoice (id text : String) (tags : List (String × Json)) : Json :=
  .obj ([("id", .str id), ("text", .str text)] ++ tags)

/-- A question whose answer is the choice without a tag. -/
def keyedTrace (tagsA tagsB : List (String × Json)) (key explanation : String) : Exercise :=
  { dailyExercise 1 with
    payload := Json.dumps (.obj [("code", .str "print(1)"), ("context_note", .str ""), ("question", .str "What is printed?"),
      ("choices", .arr [keyedChoice "a" "1" tagsA, keyedChoice "b" "2" tagsB])])
    grading := key
    explanation := explanation }

def keyedTables (tagsA tagsB : List (String × Json)) (key explanation : String) : SessionTables :=
  (newUserWith ⟨[keyedTrace tagsA tagsB key explanation], by simp⟩).db

/-- With the key turned around, the response is the same. -/
theorem response_blind_keys :
    ((getTodaySession ⟨requestOn 20000, fun _ => none⟩).exec
        (keyedTables [] [("misconception", .str "off by one")] "a" "one")
        ⟨keyedTables [] [("misconception", .str "off by one")] "a" "one", (newUserWith .empty).kv⟩).res =
      ((getTodaySession ⟨requestOn 20000, fun _ => none⟩).exec
        (keyedTables [("misconception", .str "never called")] [] "b" "two")
        ⟨keyedTables [("misconception", .str "never called")] [] "b" "two", (newUserWith .empty).kv⟩).res :=
  response_blind (fun _ _ h => h) ⟨rfl, .cons ⟨rfl, by
    rw [keyedTrace, keyedTrace, Json.loads_dumps, Json.loads_dumps]
    rfl⟩ .nil⟩ _

end Wire

/-! ## The request without its payloads -/

namespace Wire

theorem sessionExercise_bare {env : Env} {attemptedIds : List ExerciseId} {s : SessionSlot} {shown : SessionExercise}
    (h : sessionExercise env attemptedIds s e = some shown) : shown.toSessionExercise =
      { slot := s.slot
        exerciseId := e.id
        version := e.version
        type := e.type
        concepts := e.concepts.1
        language := e.language
        difficultyBand := difficultyBand e.difficultyAuthored.1 s.isBoss
        estTimeS := e.estTimeS
        isBoss := s.isBoss
        attempted := attemptedIds.contains e.id } := by
  obtain ⟨payload, -, h⟩ := Option.bind_eq_some_iff.mp h
  split at h
  · rw [← Option.some.inj h]
  · exact absurd h.symm (Option.some_ne_none shown)

theorem sessionExercises_bare {env : Env} {attemptedIds : List ExerciseId} {slots : List SessionSlot}
    {shown : List SessionExercise} (h : sessionExercises env c attemptedIds slots = some shown) :
    shown.map (·.toSessionExercise) = Sessions.sessionExercises c attemptedIds slots := by
  unfold sessionExercises slotRows at h
  unfold Sessions.sessionExercises
  induction slots generalizing shown with
  | nil =>
    rw [← Option.some.inj h]
    rfl
  | cons s slots ih =>
    rw [List.filterMap_cons] at h ⊢
    cases hfind : c.find s.exerciseId s.version with
    | none =>
      rw [hfind] at h
      exact ih h
    | some e =>
      rw [hfind] at h
      dsimp only [Option.map_some] at h ⊢
      rw [List.mapM_cons] at h
      obtain ⟨first, hfirst, h⟩ := Option.bind_eq_some_iff.mp h
      obtain ⟨rest, hrest, h⟩ := Option.bind_eq_some_iff.mp h
      rw [← Option.some.inj h, List.map_cons, ih hrest, sessionExercise_bare hfirst]

/-- **A response without its payloads** is what `getTodaySession` responds, and the two requests leave the same. -/
theorem exec_getTodaySession {env : Env} {cur : SessionTables} {s : Store SessionApp} {r : SessionResponse}
    (h : ((getTodaySession env).exec cur s).res = .ok r) :
    (Sessions.getTodaySession env.toSessionEnv).exec cur s =
      ⟨.ok r.bare, ((getTodaySession env).exec cur s).cur, ((getTodaySession env).exec cur s).store⟩ := by
  unfold getTodaySession Sessions.getTodaySession at *
  rw [exec_bind] at h ⊢
  rw [exec_bind]
  generalize (getTodaySlots env.toSessionEnv).exec cur s = run at h ⊢
  obtain ⟨res, cur, s⟩ := run
  cases res with
  | error e => exact absurd h (by simp [andThen])
  | ok slots =>
    simp only [andThen, note_bind, exec_emit] at h ⊢
    split at h
    · rename_i hempty
      simp only [hempty, if_true, exec_ret] at h ⊢
      rw [← Except.ok.inj h]
      rfl
    · rename_i hsome
      simp only [hsome, if_false, query_bind, exec_select] at h ⊢
      cases hshown : sessionExercises env cur.exercises (cur.attemptedIds env.today) slots with
      | none => exact absurd h (by simp [hshown, built])
      | some shown =>
        simp only [hshown, built, ret_bind] at h ⊢
        have hbare := sessionExercises_bare hshown
        split at h
        · rename_i hall
          simp only [hall, if_true, isFirstCompletedSession, query_bind, exec_select] at h ⊢
          rw [exec_bind] at h ⊢
          rw [exec_bind]
          generalize (tomorrowTeaser env.toSessionEnv _).exec cur s = run at h ⊢
          obtain ⟨res, cur, s⟩ := run
          cases res with
          | error e => exact absurd h (by simp [andThen])
          | ok tomorrow =>
            simp only [andThen, exec_ret] at h ⊢
            rw [← Except.ok.inj h, SessionResponse.bare, hbare]
        · rename_i hall
          simp only [hall] at h ⊢
          rw [← Except.ok.inj h]
          simp only [SessionResponse.bare, hbare]
          rfl

end Wire

end CodeReader.Sessions
