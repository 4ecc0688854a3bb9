import CodeReader.Text.Lines
import Mathlib.Data.List.Forall2

/-!
# Scrubbing of error reports

* `Value` — what an event holds: texts, lists, maps, and scalars of any kind;
* `secretEnvValues`, `sensitiveKey` — the secrets of the environment, and the names of what is always hidden;
* `scrubValue`, `scrubMapping`, `scrubHeaders`, `scrubEvent` — the scrubber, section by section;
* `Value.at?`, `Clean`, `Kept` — what is at a path; that nothing to hide is left, and that all else is as it was;
* `scrubEvent_scrubs` — **the result**, for the sections, the request, and the rest of an event;
* `scrub_keeps_lists` — what is left as it is: a section that is not a map.
-/

namespace CodeReader.Sentry

open Text

/-! ## Values -/

/-- A key of a map. -/
inductive Key (σ : Type)
  | str (s : String)
  | scalar (x : σ)
  deriving DecidableEq

inductive Value (σ : Type)
  | str (s : String)
  | scalar (x : σ)
  | list (items : List (Value σ))
  | dict (entries : List (Key σ × Value σ))

variable {σ : Type}

/-- `REDACTED`. -/
def redacted : String := "[Filtered]"

/-- `REFRESH_COOKIE_NAME`. -/
def refreshCookieName : List Char := "rt".toList

/-! ## What is to be hidden -/

/-- How `re.IGNORECASE` compares a letter of the pattern. -/
def foldCase (c : Char) : Char :=
  if c.toNat = 0x212A then 'k'
  else if c.toNat = 0x17F then 's'
  else if c.toNat = 0x130 ∨ c.toNat = 0x131 then 'i'
  else c.toLower

/-- The alternatives of `_SENSITIVE_KEY_PATTERN`. -/
def sensitiveNames : List (List Char) :=
  ["apikey", "api_key", "api-key", "secret", "token_enc_key", "jwt_secret", "password", "authorization",
    "answer"].map String.toList

/-- `_SENSITIVE_KEY_PATTERN.search(key)`. -/
def sensitiveText (key : List Char) : Bool :=
  (key.map foldCase).tails.any fun rest => sensitiveNames.any fun name => name.isPrefixOf rest

def sensitiveKey : Key σ → Bool
  | .str s => sensitiveText s.toList
  | .scalar _ => false

/-- A name of a secret, as it ends the text. -/
def endsAsSecret (name : List Char) : Bool :=
  "_API_KEY".toList.isSuffixOf name || "_SECRET".toList.isSuffixOf name || name == "TOKEN_ENC_KEY".toList ||
    name == "JWT_SECRET".toList

/-- `_ENV_SECRET_NAME_PATTERN.search(key)`; `$` also matches before a last newline. -/
def secretName (name : List Char) : Bool :=
  endsAsSecret name || name.getLast? == some '\n' && endsAsSecret name.dropLast

/-- The parts of a value, between commas. -/
def secretParts (value : String) : List String :=
  ((value.toList.splitOn ',').map fun part => String.ofList (strip part)).filter (· ≠ "")

def secretEnvValues (environ : List (String × String)) : List String :=
  (environ.filter fun item => item.2 ≠ "" && secretName item.1.toList).flatMap fun item =>
    secretParts item.2

/-! ## The scrubber -/

section Scrubber

variable (secretValues : List String)

mutual

def scrubValue : Value σ → Value σ
  | .str s => if s ∈ secretValues then .str redacted else .str s
  | .dict entries => .dict (scrubMapping entries)
  | .list items => .list (scrubItems items)
  | .scalar x => .scalar x

def scrubItems : List (Value σ) → List (Value σ)
  | [] => []
  | item :: items => scrubValue item :: scrubItems items

def scrubMapping : List (Key σ × Value σ) → List (Key σ × Value σ)
  | [] => []
  | (key, value) :: entries =>
    (key, if sensitiveKey key then .str redacted else scrubValue value) :: scrubMapping entries

end

end Scrubber

/-- The name of a cookie: what is before the first `=`. -/
def cookieName (chunk : List Char) : List Char := chunk.takeWhile (· ≠ '=')

/-- The cookies of a header. -/
def cookieChunks (value : List Char) : List (List Char) := (value.splitOn ';').map strip

/-- The refresh cookie, without its value. -/
def filteredCookie : List Char := refreshCookieName ++ '=' :: redacted.toList

def scrubCookie (chunk : List Char) : List Char :=
  if cookieName chunk = refreshCookieName then filteredCookie else chunk

def scrubCookieHeader (value : List Char) : List Char := [';', ' '].intercalate ((cookieChunks value).map scrubCookie)

/-- `_scrub_headers`; `lower` is `str.lower`. -/
def scrubHeaders (lower : String → String) : List (String × String) → List (String × String)
  | [] => []
  | (name, value) :: headers =>
    if lower name = "authorization" ∨ lower name = "set-cookie" then scrubHeaders lower headers
    else if lower name = "cookie" then
      (name, String.ofList (scrubCookieHeader value.toList)) :: scrubHeaders lower headers
    else (name, value) :: scrubHeaders lower headers

/-! ### Events -/

/-- The request of an event; `other` is what else there is. -/
structure Request (σ : Type) where
  headers : Option (List (String × String))
  data : Option (Value σ)
  cookies : Option (Value σ)
  other : List (Key σ × Value σ)

structure Frame (σ : Type) where
  vars : Option (List (Key σ × Value σ))
  other : List (Key σ × Value σ)

structure Stacktrace (σ : Type) where
  frames : List (Frame σ)
  other : List (Key σ × Value σ)

/-- One of the exceptions of an event. -/
structure ExcValue (σ : Type) where
  stacktrace : Option (Stacktrace σ)
  other : List (Key σ × Value σ)

structure Exceptions (σ : Type) where
  values : List (ExcValue σ)
  other : List (Key σ × Value σ)

structure Event (σ : Type) where
  request : Option (Request σ)
  extra : Option (Value σ)
  contexts : Option (Value σ)
  exception : Option (Exceptions σ)
  other : List (Key σ × Value σ)

def scrubRequest (lower : String → String) (request : Request σ) : Request σ :=
  { request with headers := request.headers.map (scrubHeaders lower), data := none }

/-- `extra` and `contexts`: scrubbed if they are maps. -/
def scrubSection (secretValues : List String) : Value σ → Value σ
  | .dict entries => .dict (scrubMapping secretValues entries)
  | value => value

def scrubFrame (secretValues : List String) (frame : Frame σ) : Frame σ :=
  { frame with vars := frame.vars.map (scrubMapping secretValues) }

def scrubStacktrace (secretValues : List String) (stacktrace : Stacktrace σ) : Stacktrace σ :=
  { stacktrace with frames := stacktrace.frames.map (scrubFrame secretValues) }

def scrubExcValue (secretValues : List String) (exc : ExcValue σ) : ExcValue σ :=
  { exc with stacktrace := exc.stacktrace.map (scrubStacktrace secretValues) }

def scrubEvent (environ : List (String × String)) (lower : String → String) (event : Event σ) : Event σ :=
  let secretValues := secretEnvValues environ
  { event with
    request := event.request.map (scrubRequest lower)
    extra := event.extra.map (scrubSection secretValues)
    contexts := event.contexts.map (scrubSection secretValues)
    exception := event.exception.map fun exception =>
      { exception with values := exception.values.map (scrubExcValue secretValues) } }

/-! ## What is left, and what is kept -/

/-- A configured secret: a part of a value of the environment that has the name of one. -/
def IsSecret (environ : List (String × String)) (s : String) : Prop :=
  ∃ name value, (name, value) ∈ environ ∧ secretName name.toList = true ∧ s ∈ secretParts value

/-- A step into a value. -/
inductive Step (σ : Type)
  | key (k : Key σ)
  | index (n : Nat)

/-- A path without sensitive names. -/
def PlainPath (path : List (Step σ)) : Prop := ∀ k, Step.key k ∈ path → sensitiveKey k = false

/-- The same text, or the mark for a secret; else the same scalar, as many items, or the same keys. -/
def Alike (secret : String → Prop) : Value σ → Value σ → Prop
  | .str s, value => (secret s → value = .str redacted) ∧ (¬ secret s → value = .str s)
  | .scalar x, value => value = .scalar x
  | .list items, value => ∃ items', value = .list items' ∧ items'.length = items.length
  | .dict entries, value => ∃ entries', value = .dict entries' ∧ entries'.map Prod.fst = entries.map Prod.fst

section Specification

variable [DecidableEq σ]

/-- What is at a path. -/
def Value.at? : List (Step σ) → Value σ → Option (Value σ)
  | [], value => some value
  | .key k :: path, .dict entries => (entries.lookup k).bind (Value.at? path)
  | .index n :: path, .list items => items[n]?.bind (Value.at? path)
  | _, _ => none

/-- Nothing is left at any depth: no text is a secret, and what has a sensitive name is the mark. -/
structure Clean (secret : String → Prop) (value : Value σ) : Prop where
  leaves : ∀ path s, value.at? path = some (.str s) → secret s → s = redacted
  entries : ∀ path k x, sensitiveKey k = true → value.at? (path ++ [.key k]) = some x → x = .str redacted

/-- All else is as it was: what is at a path without sensitive names. -/
def Kept (secret : String → Prop) (value value' : Value σ) : Prop :=
  ∀ path, PlainPath path → Option.Rel (Alike secret) (value.at? path) (value'.at? path)

structure Scrubbed (secret : String → Prop) (value value' : Value σ) : Prop where
  clean : Clean secret value'
  kept : Kept secret value value'

/-- A section that is not a map is left as it is. -/
def SectionScrubbed (secret : String → Prop) : Value σ → Value σ → Prop
  | .dict entries, value' => Scrubbed secret (.dict entries) value'
  | value, value' => value' = value

def FrameScrubbed (secret : String → Prop) (frame frame' : Frame σ) : Prop :=
  Option.Rel (fun vars vars' => Scrubbed secret (.dict vars) (.dict vars')) frame.vars frame'.vars

end Specification

/-- The other cookies are as they were. -/
def CookiesKept (value value' : String) : Prop :=
  List.Forall₂ (fun chunk chunk' => strip (cookieName chunk) ≠ refreshCookieName → chunk' = chunk)
    (cookieChunks value.toList) (cookieChunks value'.toList)

/-- The headers without the two that are dropped, and without the value of the refresh cookie. -/
structure HeadersScrubbed (lower : String → String) (headers headers' : List (String × String)) : Prop where
  dropped : ∀ header ∈ headers', lower header.1 ≠ "authorization" ∧ lower header.1 ≠ "set-cookie"
  cookie : ∀ header ∈ headers', lower header.1 = "cookie" → ∀ chunk ∈ cookieChunks header.2.toList,
    cookieName chunk = refreshCookieName → chunk = filteredCookie
  kept : List.Forall₂ (fun header header' => header'.1 = header.1 ∧
      (lower header.1 = "cookie" → CookiesKept header.2 header'.2) ∧ (lower header.1 ≠ "cookie" → header'.2 = header.2))
    (headers.filter fun header => lower header.1 ≠ "authorization" ∧ lower header.1 ≠ "set-cookie") headers'

structure RequestScrubbed (lower : String → String) (request request' : Request σ) : Prop where
  body : request'.data = none
  headers : Option.Rel (HeadersScrubbed lower) request.headers request'.headers

/-- The frames of all exceptions. -/
def Event.frames (event : Event σ) : List (Frame σ) :=
  (event.exception.toList.flatMap (·.values)).flatMap fun exc => exc.stacktrace.toList.flatMap (·.frames)

/-- An event without the sections that are scrubbed, and without the cookies beside the headers. -/
def Event.rest (event : Event σ) : Event σ :=
  { event with
    request := event.request.map fun request => { request with headers := none, data := none, cookies := none }
    extra := none
    contexts := none
    exception := event.exception.map fun exception =>
      { exception with values := exception.values.map fun exc =>
        { exc with stacktrace := exc.stacktrace.map fun stacktrace =>
          { stacktrace with frames := stacktrace.frames.map fun frame => { frame with vars := none } } } } }

/-- A scrubbed event. -/
structure EventScrubbed [DecidableEq σ] (environ : List (String × String)) (lower : String → String)
    (event event' : Event σ) : Prop where
  extra : Option.Rel (SectionScrubbed (IsSecret environ)) event.extra event'.extra
  contexts : Option.Rel (SectionScrubbed (IsSecret environ)) event.contexts event'.contexts
  vars : List.Forall₂ (FrameScrubbed (IsSecret environ)) event.frames event'.frames
  request : Option.Rel (RequestScrubbed lower) event.request event'.request
  rest : event'.rest = event.rest

theorem rel_map {α : Type} {R : α → α → Prop} {f : α → α} (h : ∀ a, R a (f a)) (x : Option α) :
    Option.Rel R x (x.map f) := by
  cases x with
  | none => exact .none
  | some a => exact .some (h a)

theorem secretParts_empty : secretParts "" = [] := by decide

theorem mem_secretEnvValues {environ : List (String × String)} {s : String} :
    s ∈ secretEnvValues environ ↔ IsSecret environ s := by
  simp only [secretEnvValues, List.mem_flatMap, List.mem_filter, Bool.and_eq_true, decide_eq_true_eq]
  constructor
  · rintro ⟨⟨name, value⟩, ⟨hmem, -, hname⟩, hs⟩
    exact ⟨name, value, hmem, hname, hs⟩
  · rintro ⟨name, value, hmem, hname, hs⟩
    have hne : value ≠ "" := by
      rintro rfl
      exact absurd hs (secretParts_empty ▸ List.not_mem_nil)
    exact ⟨⟨name, value⟩, ⟨hmem, hne, hname⟩, hs⟩

/-! ### Values -/

section Values

variable {secretValues : List String} {path : List (Step σ)} {value x : Value σ} {entries : List (Key σ × Value σ)}
  {items : List (Value σ)} {k : Key σ}

theorem getElem?_scrubItems (n : Nat) :
    (scrubItems secretValues items)[n]? = items[n]?.map (scrubValue secretValues) := by
  induction items generalizing n with
  | nil => rfl
  | cons item items ih =>
    rw [scrubItems]
    cases n with
    | zero => rfl
    | succ n => exact ih n

theorem length_scrubItems : (scrubItems secretValues items).length = items.length := by
  induction items with
  | nil => rfl
  | cons item items ih => rw [scrubItems, List.length_cons, List.length_cons, ih]

theorem keys_scrubMapping : (scrubMapping secretValues entries).map Prod.fst = entries.map Prod.fst := by
  induction entries with
  | nil => rfl
  | cons entry entries ih => rw [scrubMapping, List.map_cons, List.map_cons, ih]

theorem plainPath_nil : PlainPath ([] : List (Step σ)) := fun _ hk => absurd hk List.not_mem_nil

theorem plainPath_index {n : Nat} : PlainPath (.index n :: path) ↔ PlainPath path := by
  simp [PlainPath]

theorem plainPath_key : PlainPath (.key k :: path) ↔ sensitiveKey k = false ∧ PlainPath path := by
  simp [PlainPath]

theorem scrubValue_alike {secret : String → Prop} (hsecret : ∀ s, s ∈ secretValues ↔ secret s) (value : Value σ) :
    Alike secret value (scrubValue secretValues value) := by
  cases value with
  | str s =>
    rw [scrubValue]
    refine ⟨fun hs => ?_, fun hs => ?_⟩
    · rw [if_pos ((hsecret s).mpr hs)]
    · rw [if_neg (mt (hsecret s).mp hs)]
  | scalar x => exact rfl
  | list items => exact ⟨_, rfl, length_scrubItems⟩
  | dict entries => exact ⟨_, rfl, keys_scrubMapping⟩

/-- A text of the scrubbed value is no secret, but for the mark. -/
theorem not_secret_of_scrubValue {s : String} (h : scrubValue secretValues value = .str s) (hs : s ∈ secretValues) :
    s = redacted := by
  cases value with
  | str t =>
    rw [scrubValue] at h
    split at h
    · cases h
      rfl
    · cases h
      contradiction
  | scalar x => cases h
  | list items => cases h
  | dict entries => cases h

variable [DecidableEq σ]

theorem lookup_scrubMapping : (scrubMapping secretValues entries).lookup k =
    (entries.lookup k).map fun value => if sensitiveKey k = true then .str redacted else scrubValue secretValues value := by
  induction entries with
  | nil => rfl
  | cons entry entries ih =>
    obtain ⟨key, value⟩ := entry
    rw [scrubMapping, List.lookup_cons, List.lookup_cons, ih]
    by_cases hk : k = key
    · rw [hk]
      simp only [beq_self_eq_true, Option.map_some]
    · simp only [beq_eq_false_iff_ne.mpr hk]

/-- What is at a path of the scrubbed value, as long as no name is sensitive: what was there, scrubbed. -/
theorem at?_scrubValue (hpath : PlainPath path) :
    (scrubValue secretValues value).at? path = (value.at? path).map (scrubValue secretValues) := by
  induction path generalizing value with
  | nil => rfl
  | cons step path ih =>
    cases value with
    | str s =>
      rw [scrubValue]
      split <;> cases step <;> rfl
    | scalar x => cases step <;> rfl
    | list items =>
      cases step with
      | key k => rfl
      | index n =>
        rw [scrubValue, Value.at?, Value.at?, getElem?_scrubItems, Option.bind_map, Option.map_bind]
        exact congrArg _ (funext fun item => ih (plainPath_index.mp hpath))
    | dict entries =>
      cases step with
      | index n => rfl
      | key k =>
        obtain ⟨hk, hrest⟩ := plainPath_key.mp hpath
        rw [scrubValue, Value.at?, Value.at?, lookup_scrubMapping, hk, Option.bind_map, Option.map_bind]
        exact congrArg _ (funext fun item => ih hrest)

/-- Below the mark there is nothing. -/
theorem eq_of_at?_redacted (h : (Value.str redacted : Value σ).at? path = some x) : x = .str redacted := by
  cases path with
  | nil => exact (Option.some.inj h).symm
  | cons step path => cases step <;> cases h

/-- From a sensitive name on: the mark. -/
theorem at?_scrubValue_sensitive (hpath : ¬ PlainPath path)
    (h : (scrubValue secretValues value).at? path = some x) : x = .str redacted := by
  induction path generalizing value with
  | nil => exact absurd plainPath_nil hpath
  | cons step path ih =>
    cases value with
    | str s =>
      rw [scrubValue] at h
      split at h <;> cases step <;> cases h
    | scalar x => cases step <;> cases h
    | list items =>
      cases step with
      | key k => cases h
      | index n =>
        rw [scrubValue, Value.at?, getElem?_scrubItems] at h
        obtain ⟨item, hitem, hat⟩ := Option.bind_eq_some_iff.mp h
        obtain ⟨item, -, rfl⟩ := Option.map_eq_some_iff.mp hitem
        exact ih (mt plainPath_index.mpr hpath) hat
    | dict entries =>
      cases step with
      | index n => cases h
      | key k =>
        rw [scrubValue, Value.at?, lookup_scrubMapping] at h
        obtain ⟨item, hitem, hat⟩ := Option.bind_eq_some_iff.mp h
        obtain ⟨item, -, rfl⟩ := Option.map_eq_some_iff.mp hitem
        by_cases hk : sensitiveKey k = true
        · rw [if_pos hk] at hat
          exact eq_of_at?_redacted hat
        · have hrest : ¬ PlainPath path := fun hplain => hpath (plainPath_key.mpr ⟨Bool.eq_false_iff.mpr hk, hplain⟩)
          rw [if_neg hk] at hat
          exact ih hrest hat

/-- **At any depth**: scrubbing leaves nothing to hide, and all else as it was. -/
theorem scrubValue_scrubbed {secret : String → Prop} (hsecret : ∀ s, s ∈ secretValues ↔ secret s) (value : Value σ) :
    Scrubbed secret value (scrubValue secretValues value) where
  clean := by
    refine ⟨fun path s h hs => ?_, fun path k x hk h => ?_⟩
    · by_cases hpath : PlainPath path
      · rw [at?_scrubValue hpath] at h
        obtain ⟨x, -, hx⟩ := Option.map_eq_some_iff.mp h
        exact not_secret_of_scrubValue hx ((hsecret s).mpr hs)
      · exact Value.str.inj (at?_scrubValue_sensitive hpath h)
    · have hpath : ¬ PlainPath (path ++ [Step.key k]) := fun hplain =>
        Bool.false_ne_true ((hplain k (List.mem_append_right path List.mem_cons_self)).symm.trans hk)
      exact at?_scrubValue_sensitive hpath h
  kept := fun path hpath => by
    rw [at?_scrubValue hpath]
    exact rel_map (scrubValue_alike hsecret) _

end Values

/-! ### Headers -/

section Headers

variable {pieces : List (List Char)}

/-- Cookies that are joined are found again. -/
theorem cookieChunks_intercalate (hne : pieces ≠ []) (hsemi : ∀ piece ∈ pieces, ';' ∉ piece)
    (hstrip : ∀ piece ∈ pieces, strip piece = piece) : cookieChunks ([';', ' '].intercalate pieces) = pieces := by
  cases pieces with
  | nil => exact absurd rfl hne
  | cons first pieces =>
    have hblank : ∀ piece ∈ first :: pieces.map (' ' :: ·), ';' ∉ piece := by
      intro piece hpiece
      obtain rfl | hpiece := List.mem_cons.mp hpiece
      · exact hsemi _ List.mem_cons_self
      · obtain ⟨rest, hrest, rfl⟩ := List.mem_map.mp hpiece
        rw [List.mem_cons, not_or]
        exact ⟨by decide, hsemi rest (List.mem_cons_of_mem first hrest)⟩
    rw [cookieChunks, intercalate_cons_blank, List.splitOn_intercalate ';' hblank (List.cons_ne_nil _ _), List.map_cons,
      hstrip first List.mem_cons_self, List.map_map]
    refine congrArg (first :: ·) ((List.map_congr_left fun piece hpiece => ?_).trans (List.map_id _))
    exact (strip_cons_blank (by decide) piece).trans (hstrip piece (List.mem_cons_of_mem first hpiece))

theorem notMem_cookieChunks {value chunk : List Char} (h : chunk ∈ cookieChunks value) : ';' ∉ chunk := by
  obtain ⟨piece, hpiece, rfl⟩ := List.mem_map.mp h
  exact fun hc => notMem_of_mem_splitOn hpiece (strip_subset piece hc)

theorem strip_cookieChunks {value chunk : List Char} (h : chunk ∈ cookieChunks value) : strip chunk = chunk := by
  obtain ⟨piece, -, rfl⟩ := List.mem_map.mp h
  exact strip_strip piece

/-- The cookies of the scrubbed header are those of the header, each scrubbed. -/
theorem cookieChunks_scrubCookieHeader (value : List Char) :
    cookieChunks (scrubCookieHeader value) = (cookieChunks value).map scrubCookie := by
  have hmark : ';' ∉ filteredCookie ∧ strip filteredCookie = filteredCookie := by decide
  refine cookieChunks_intercalate ?_ (fun piece hpiece => ?_) fun piece hpiece => ?_
  · exact fun hnil => List.splitOn_ne_nil ';' value (List.map_eq_nil_iff.mp (List.map_eq_nil_iff.mp hnil))
  · obtain ⟨chunk, hchunk, rfl⟩ := List.mem_map.mp hpiece
    unfold scrubCookie
    split
    · exact hmark.1
    · exact notMem_cookieChunks hchunk
  · obtain ⟨chunk, hchunk, rfl⟩ := List.mem_map.mp hpiece
    unfold scrubCookie
    split
    · exact hmark.2
    · exact strip_cookieChunks hchunk

theorem cookieName_scrubCookie {chunk : List Char} (h : cookieName (scrubCookie chunk) = refreshCookieName) :
    scrubCookie chunk = filteredCookie := by
  unfold scrubCookie at h ⊢
  split
  · rfl
  · rename_i hne
    rw [if_neg hne] at h
    exact absurd h hne

theorem scrubCookieHeader_kept (value : String) :
    CookiesKept value (String.ofList (scrubCookieHeader value.toList)) := by
  have hname : strip refreshCookieName = refreshCookieName := by decide
  rw [CookiesKept, String.toList_ofList, cookieChunks_scrubCookieHeader, List.forall₂_map_right_iff, List.forall₂_same]
  intro chunk _ hother
  exact if_neg fun he => hother ((congrArg strip he).trans hname)

variable {lower : String → String} {headers : List (String × String)}

/-- A header that is not dropped. -/
def scrubHeader (lower : String → String) (header : String × String) : String × String :=
  (header.1, if lower header.1 = "cookie" then String.ofList (scrubCookieHeader header.2.toList) else header.2)

theorem scrubHeaders_eq : scrubHeaders lower headers = (headers.filter fun header =>
    lower header.1 ≠ "authorization" ∧ lower header.1 ≠ "set-cookie").map (scrubHeader lower) := by
  induction headers with
  | nil => rfl
  | cons header headers ih =>
    obtain ⟨name, value⟩ := header
    rw [scrubHeaders]
    by_cases hdrop : lower name = "authorization" ∨ lower name = "set-cookie"
    · rw [if_pos hdrop, ih, List.filter_cons_of_neg (by simpa using or_iff_not_imp_left.mp hdrop)]
    · rw [if_neg hdrop, List.filter_cons_of_pos (by simpa using not_or.mp hdrop), List.map_cons, ih]
      by_cases hcookie : lower name = "cookie"
      · rw [if_pos hcookie, scrubHeader, if_pos hcookie]
      · rw [if_neg hcookie, scrubHeader, if_neg hcookie]

theorem scrubHeaders_scrubbed (lower : String → String) (headers : List (String × String)) :
    HeadersScrubbed lower headers (scrubHeaders lower headers) where
  dropped := fun header' h' => by
    rw [scrubHeaders_eq] at h'
    obtain ⟨header, hheader, rfl⟩ := List.mem_map.mp h'
    exact of_decide_eq_true (List.mem_filter.mp hheader).2
  cookie := fun header' h' hcookie chunk' hchunk' hname => by
    rw [scrubHeaders_eq] at h'
    obtain ⟨header, hheader, rfl⟩ := List.mem_map.mp h'
    have hlower : lower header.1 = "cookie" := hcookie
    rw [scrubHeader, if_pos hlower, String.toList_ofList, cookieChunks_scrubCookieHeader] at hchunk'
    obtain ⟨chunk, -, rfl⟩ := List.mem_map.mp hchunk'
    exact cookieName_scrubCookie hname
  kept := by
    rw [scrubHeaders_eq, List.forall₂_map_right_iff, List.forall₂_same]
    refine fun header _ => ⟨rfl, fun hcookie => ?_, fun hcookie => if_neg hcookie⟩
    rw [scrubHeader, if_pos hcookie]
    exact scrubCookieHeader_kept header.2

end Headers

/-! ### Events -/

section Events

variable {secretValues : List String} {event : Event σ} {environ : List (String × String)} {lower : String → String}

theorem frames_scrubEvent : (scrubEvent environ lower event).frames =
    event.frames.map (scrubFrame (secretEnvValues environ)) := by
  have hexc : ∀ exc : ExcValue σ, (scrubExcValue (secretEnvValues environ) exc).stacktrace.toList.flatMap (·.frames) =
      (exc.stacktrace.toList.flatMap (·.frames)).map (scrubFrame (secretEnvValues environ)) := by
    intro exc
    cases h : exc.stacktrace <;> simp [scrubExcValue, scrubStacktrace, h]
  cases h : event.exception with
  | none => simp [Event.frames, scrubEvent, h]
  | some exception =>
    simp [Event.frames, scrubEvent, h, List.flatMap_map, hexc, List.map_flatMap]

theorem rest_scrubEvent : (scrubEvent environ lower event).rest = event.rest := by
  simp [Event.rest, scrubEvent, scrubRequest, scrubExcValue, scrubStacktrace, scrubFrame, Function.comp_def]

variable [DecidableEq σ]

theorem scrubSection_scrubbed {secret : String → Prop} (hsecret : ∀ s, s ∈ secretValues ↔ secret s) (value : Value σ) :
    SectionScrubbed secret value (scrubSection secretValues value) := by
  cases value with
  | dict entries => exact scrubValue_scrubbed hsecret (.dict entries)
  | str s => exact rfl
  | scalar x => exact rfl
  | list items => exact rfl

/-- **Scrubbing is complete**: in the sections that are maps, and in the variables of all frames, no text is a secret and
what has a sensitive name is the mark, at any depth; the request has no body, no authorization header and no value of the
refresh cookie; and all else is as it was. -/
theorem scrubEvent_scrubs (environ : List (String × String)) (lower : String → String) (event : Event σ) :
    EventScrubbed environ lower event (scrubEvent environ lower event) where
  extra := rel_map (scrubSection_scrubbed fun _ => mem_secretEnvValues) _
  contexts := rel_map (scrubSection_scrubbed fun _ => mem_secretEnvValues) _
  vars := by
    rw [frames_scrubEvent, List.forall₂_map_right_iff, List.forall₂_same]
    exact fun frame _ => rel_map (fun vars => scrubValue_scrubbed (fun _ => mem_secretEnvValues) (.dict vars)) _
  request := rel_map (fun request => ⟨rfl, rel_map (scrubHeaders_scrubbed lower) _⟩) _
  rest := rest_scrubEvent

end Events

/-- **What is not so**: a section that is a list keeps its secrets, a header beside the cookies and the authorization is
dropped, and cookies are joined anew. -/
theorem scrub_keeps_lists :
    IsSecret [("OPENAI_API_KEY", "sk-1")] "sk-1" ∧
    (scrubEvent (σ := Unit) [("OPENAI_API_KEY", "sk-1")] id ⟨none, some (.list [.str "sk-1"]), none, none, []⟩).extra =
      some (.list [.str "sk-1"]) ∧
    scrubHeaders (fun name => String.ofList (name.toList.map Char.toLower))
      [("Set-Cookie", "a=1"), ("Cookie", "a=1;b=2"), ("Accept", "*/*")] = [("Cookie", "a=1; b=2"), ("Accept", "*/*")] := by
  refine ⟨⟨"OPENAI_API_KEY", "sk-1", List.mem_cons_self, by decide, by decide⟩, rfl, by decide⟩

end CodeReader.Sentry
