import CodeReader.Text.Base64
import CodeReader.Text.Json
import CodeReader.Text.PyJson
import CodeReader.Text.Uuids

/-!
# Access tokens

Three texts in base64, joined by dots: a header, a payload and a signature of both.

* `issueAccessToken` — a token with its claims;
* `verifyAccessToken` — the claims of a token, or what is raised;
* `Orderly` — what a token must be for its verification to raise only what it declares;
* `verifyAccessToken_declared_iff` — **when a verification fails only as declared**.
-/

namespace CodeReader.Auth

open Text

/-! ## Signatures -/

/-- `hmac.new(key, message, hashlib.sha256).digest()`. -/
abbrev Hmac := List UInt8 → List UInt8 → List UInt8

/-- `text.encode("utf-8")`. -/
def utf8 (text : String) : List UInt8 := text.toUTF8.data.toList

/-- What is raised, of the exceptions that the operations of a verification can raise. -/
inductive Raised
  | tokenError | tokenExpiredError
  | typeError | valueError | attributeError | overflowError | keyError | recursionError
  deriving DecidableEq

/-- What a verification says that it raises. -/
def Raised.IsDeclared (raised : Raised) : Prop := raised = .tokenError ∨ raised = .tokenExpiredError

/-- `text.encode("ascii")`. -/
def asciiEncode (text : List Char) : Except Raised (List UInt8) :=
  if text.all isAscii then .ok (text.map fun c => UInt8.ofNat c.toNat) else .error .valueError

def b64encode (data : List UInt8) : List Char := stripPadding (urlsafeB64encode data)

/-- `_b64decode`; `none` is a `ValueError`. -/
def b64decode (data : List Char) : Option (List UInt8) := urlsafeB64decode (data ++ padding data)

/-- `_sign`. -/
def sign (hmac : Hmac) (message : List Char) (secret : String) : Except Raised (List Char) :=
  (asciiEncode message).map fun bytes => b64encode (hmac (utf8 secret) bytes)

/-- `hmac.compare_digest` of two texts: it refuses what is not ASCII. -/
def compareDigest (a b : List Char) : Except Raised Bool :=
  if a.all isAscii && b.all isAscii then .ok (a == b) else .error .typeError

/-- `any(compare_digest(_sign(message, secret), signature) for secret in secrets)`. -/
def anyMatches (hmac : Hmac) (message signature : List Char) : List String → Except Raised Bool
  | [] => .ok false
  | secret :: secrets => do
    let signed ← sign hmac message secret
    if ← compareDigest signed signature then return true else anyMatches hmac message signature secrets

/-! ## Issuing -/

/-- `json.dumps(fields, separators=(",", ":"))`, of fields that are no objects or arrays. -/
def dumpCompact (fields : List (String × Json)) : List Char :=
  '\x7b' :: ((fields.map fun f => Json.dumpString f.1 ++ ':' :: f.2.dump).intersperse [',']).flatten ++ ['\x7d']

/-- `_json_b64`; what `dumps` writes is ASCII. -/
def jsonB64 (fields : List (String × Json)) : List Char := b64encode ((dumpCompact fields).map fun c => UInt8.ofNat c.toNat)

def tokenHeader : List (String × Json) := [("alg", .str "HS256"), ("typ", .str "JWT")]

/-- `jti` is the random part. -/
def accessPayload (userId : Nat) (iat ttlSeconds : Int) (jti : String) : List (String × Json) :=
  [("sub", .str (uuidText userId)), ("plan", .str "free"), ("exp", .int (iat + ttlSeconds)), ("iat", .int iat),
    ("jti", .str jti)]

def signingInput (userId : Nat) (iat ttlSeconds : Int) (jti : String) : List Char :=
  jsonB64 tokenHeader ++ '.' :: jsonB64 (accessPayload userId iat ttlSeconds jti)

def issueAccessToken (hmac : Hmac) (userId : Nat) (secret : String) (iat ttlSeconds : Int) (jti : String) :
    Except Raised String :=
  let input := signingInput userId iat ttlSeconds jti
  (sign hmac input secret).map fun signature => String.ofList (input ++ '.' :: signature)

/-! ## Verification -/

/-- A token that was taken apart. -/
structure ReadToken where
  headerB64 : List Char
  payloadB64 : List Char
  signature : List Char
  header : PyJson
  payload : PyJson

def ReadToken.signingInput (t : ReadToken) : List Char := t.headerB64 ++ '.' :: t.payloadB64

/-- Three parts, two of them JSON in base64; whatever is raised here becomes a `TokenError`. -/
def readToken (recursionLimit : Nat) (token : List Char) : Option ReadToken :=
  match token.splitOn '.' with
  | [headerB64, payloadB64, signature] => do
    let header ← PyJson.loads recursionLimit (← b64decode headerB64)
    let payload ← PyJson.loads recursionLimit (← b64decode payloadB64)
    return ⟨headerB64, payloadB64, signature, header, payload⟩
  | _ => none

def isText (text : String) : PyJson → Bool
  | .str s => s == codes text
  | _ => false

/-- The elements are these texts, in any order and any number of times. -/
def sameTexts (texts : List String) (elements : List PyJson) : Bool :=
  elements.all (fun x => texts.any fun text => isText text x) && texts.all fun text => elements.any (isText text)

def keysOf (fields : List (List Nat × PyJson)) : List PyJson := fields.map fun f => .str f.1

/-- `header == {"alg": "HS256", "typ": "JWT"}`. -/
def isTokenHeader : PyJson → Bool
  | .obj fields => sameTexts ["alg", "typ"] (keysOf fields) && (PyJson.get? fields "alg").any (isText "HS256") &&
      (PyJson.get? fields "typ").any (isText "JWT")
  | _ => false

def accessClaimNames : List String := ["sub", "plan", "exp", "iat", "jti"]

def isHashable : PyJson → Bool
  | .arr _ | .obj _ => false
  | _ => true

/-- `set(payload)`. -/
def setOf : PyJson → Except Raised (List PyJson)
  | .str s => .ok (s.map fun c => .str [c])
  | .arr items => if items.all isHashable then .ok items else .error .typeError
  | .obj fields => .ok (keysOf fields)
  | .null | .bool _ | .int _ | .float _ => .error .typeError

/-- `payload.get(name)`. -/
def getOf (name : String) : PyJson → Except Raised (Option PyJson)
  | .obj fields => .ok (PyJson.get? fields name)
  | _ => .error .attributeError

/-- `payload[name]`, of an object. -/
def fieldOf (name : String) : PyJson → Except Raised PyJson
  | .obj fields =>
    match PyJson.get? fields name with
    | some value => .ok value
    | none => .error .keyError
  | _ => .error .typeError

/-- The characters of code points; surrogates are none. -/
def charsOf (text : List Nat) : Option (List Char) :=
  text.mapM fun n => if h : n.isValidChar then some (Char.ofNatAux n h) else none

/-- `int(x)` of a float: towards zero. -/
def truncated (negative : Bool) (mantissa : Nat) (exponent : Int) : Int :=
  let size : Nat := if 0 ≤ exponent then mantissa * 2 ^ exponent.toNat else mantissa / 2 ^ (-exponent).toNat
  if negative then -(size : Int) else size

/-- `int(x)`. -/
def intOf : PyJson → Except Raised Int
  | .bool b => .ok (if b then 1 else 0)
  | .int n => .ok n
  | .float (.finite negative mantissa exponent) => .ok (truncated negative mantissa exponent)
  | .float .nan => .error .valueError
  | .float (.infinite _) => .error .overflowError
  | .str s =>
    match (charsOf s).bind (intOfText 10) with
    | some n => .ok n
    | none => .error .valueError
  | .null | .arr _ | .obj _ => .error .typeError

structure AccessClaims where
  sub : Nat
  plan : PyJson
  exp : Int
  iat : Int
  jti : List Nat

/-- `uuid.UUID(x)`. -/
def uuidOf : PyJson → Except Raised Nat
  | .str s =>
    match (charsOf s).bind uuidOfHex with
    | some id => .ok id
    | none => .error .valueError
  | .null => .error .typeError
  | _ => .error .attributeError

/-- `str(x)`; `render` is the text of what is no text, which nested too deep has none. -/
def strOf (render : PyJson → Option (List Nat)) : PyJson → Except Raised (List Nat)
  | .str s => .ok s
  | x =>
    match render x with
    | some text => .ok text
    | none => .error .recursionError

/-- `AccessClaims(..)`. -/
def claimsOf (render : PyJson → Option (List Nat)) (payload : PyJson) : Except Raised AccessClaims := do
  let sub ← uuidOf (← fieldOf "sub" payload)
  let plan ← fieldOf "plan" payload
  let exp ← intOf (← fieldOf "exp" payload)
  let iat ← intOf (← fieldOf "iat" payload)
  let jti ← strOf render (← fieldOf "jti" payload)
  return ⟨sub, plan, exp, iat, jti⟩

/-- The claims of a payload whose signature is valid, if it has not expired. -/
def liveClaims (render : PyJson → Option (List Nat)) (payload : PyJson) (nowTs : Int) : Except Raised AccessClaims := do
  let exp ← intOf (← fieldOf "exp" payload)
  if exp ≤ nowTs then .error .tokenExpiredError
  else
    match claimsOf render payload with
    | .ok claims => .ok claims
    | .error _ => .error .tokenError

section Verify

variable (hmac : Hmac) (recursionLimit : Nat) (render : PyJson → Option (List Nat))

/-- The verification of a token that was taken apart. -/
def verifyRead (t : ReadToken) (secrets : List String) (nowTs : Int) : Except Raised AccessClaims :=
  if !isTokenHeader t.header then .error .tokenError
  else do
    let names ← setOf t.payload
    if !sameTexts accessClaimNames names then .error .tokenError
    else do
      let plan ← getOf "plan" t.payload
      if !plan.any (isText "free") then .error .tokenError
      else do
        let validSignature ← anyMatches hmac t.signingInput t.signature secrets
        if !validSignature then .error .tokenError else liveClaims render t.payload nowTs

def verifyAccessToken (token : String) (secrets : List String) (nowTs : Int) : Except Raised AccessClaims :=
  match readToken recursionLimit token.toList with
  | none => .error .tokenError
  | some t => verifyRead hmac render t secrets nowTs

end Verify

/-! ## Signatures that are compared -/

/-- The signature of an ASCII text. -/
def signatureOf (hmac : Hmac) (message : List Char) (secret : String) : List Char :=
  b64encode (hmac (utf8 secret) (message.map fun c => UInt8.ofNat c.toNat))

/-- A configured secret gives the signature that the token has. -/
def SignedBy (hmac : Hmac) (secrets : List String) (t : ReadToken) : Prop :=
  ∃ secret ∈ secrets, signatureOf hmac t.signingInput secret = t.signature

theorem sign_ascii {message : List Char} (h : message.all isAscii = true) (hmac : Hmac) (secret : String) :
    sign hmac message secret = .ok (signatureOf hmac message secret) := by
  rw [sign, asciiEncode, if_pos h]
  rfl

theorem isAscii_b64encode (data : List UInt8) : (b64encode data).all isAscii = true := by
  refine List.all_eq_true.mpr fun c hc => isAscii_encode data c ?_
  rw [← strip_padding]
  exact List.mem_append_left _ hc

/-- What is issued: two texts in base64, and their signature. -/
theorem issueAccessToken_eq (hmac : Hmac) (userId : Nat) (secret : String) (iat ttlSeconds : Int) (jti : String) :
    issueAccessToken hmac userId secret iat ttlSeconds jti = .ok (String.ofList
      (signingInput userId iat ttlSeconds jti ++ '.' :: signatureOf hmac (signingInput userId iat ttlSeconds jti) secret)) := by
  have hascii : (signingInput userId iat ttlSeconds jti).all isAscii = true := by
    rw [signingInput, List.all_append, List.all_cons, jsonB64, jsonB64, isAscii_b64encode, isAscii_b64encode]
    rfl
  rw [issueAccessToken, sign_ascii hascii]
  rfl

/-- A signature in ASCII is compared with one after the other. -/
theorem anyMatches_ascii {message signature : List Char} (hm : message.all isAscii = true) (hs : signature.all isAscii = true)
    (hmac : Hmac) (secrets : List String) :
    anyMatches hmac message signature secrets =
      .ok (secrets.any fun secret => signatureOf hmac message secret == signature) := by
  induction secrets with
  | nil => rfl
  | cons secret secrets ih =>
    have hcompare : compareDigest (signatureOf hmac message secret) signature =
        .ok (signatureOf hmac message secret == signature) := by
      rw [compareDigest, signatureOf, isAscii_b64encode, hs]
      rfl
    rw [anyMatches, sign_ascii hm, ih, List.any_cons]
    change (do if ← compareDigest (signatureOf hmac message secret) signature then return true else _) = _
    rw [hcompare]
    cases signatureOf hmac message secret == signature <;> rfl

/-- Another signature is not compared: with a secret, that raises. -/
theorem anyMatches_not_ascii {message signature : List Char} (hm : message.all isAscii = true)
    (hs : ¬ signature.all isAscii = true) (hmac : Hmac) {secrets : List String} (hne : secrets ≠ []) :
    anyMatches hmac message signature secrets = .error .typeError := by
  obtain ⟨secret, rest, rfl⟩ := List.exists_cons_of_ne_nil hne
  have hcompare : compareDigest (signatureOf hmac message secret) signature = .error .typeError := by
    rw [compareDigest, Bool.eq_false_iff.mpr hs, Bool.and_false]
    rfl
  rw [anyMatches, sign_ascii hm]
  change (do if ← compareDigest (signatureOf hmac message secret) signature then return true else _) = _
  rw [hcompare]
  rfl

theorem anyMatches_eq {message : List Char} (hm : message.all isAscii = true) (hmac : Hmac) (signature : List Char)
    (secrets : List String) : anyMatches hmac message signature secrets =
      if secrets = [] ∨ signature.all isAscii = true then
        .ok (secrets.any fun secret => signatureOf hmac message secret == signature)
      else .error .typeError := by
  by_cases hs : signature.all isAscii = true
  · rw [if_pos (Or.inr hs), anyMatches_ascii hm hs]
  · by_cases hne : secrets = []
    · subst hne
      rfl
    · rw [if_neg fun h => h.elim hne hs, anyMatches_not_ascii hm hs hmac hne]

theorem isAscii_of_b64decode {data : List Char} {bytes : List UInt8} (h : b64decode data = some bytes) :
    data.all isAscii = true := by
  rw [b64decode, urlsafeB64decode] at h
  split at h
  · rename_i hall
    rw [List.all_append, Bool.and_eq_true] at hall
    exact hall.1
  · cases h

/-- What was read. -/
theorem readToken_some {recursionLimit : Nat} {token : List Char} {t : ReadToken} (h : readToken recursionLimit token = some t) :
    token.splitOn '.' = [t.headerB64, t.payloadB64, t.signature] ∧
    (∃ bytes, b64decode t.headerB64 = some bytes ∧ PyJson.loads recursionLimit bytes = some t.header) ∧
    ∃ bytes, b64decode t.payloadB64 = some bytes ∧ PyJson.loads recursionLimit bytes = some t.payload := by
  unfold readToken at h
  split at h
  · rename_i hsplit
    obtain ⟨hb, hhb, h⟩ := Option.bind_eq_some_iff.mp h
    obtain ⟨header, hheader, h⟩ := Option.bind_eq_some_iff.mp h
    obtain ⟨pb, hpb, h⟩ := Option.bind_eq_some_iff.mp h
    obtain ⟨payload, hpayload, h⟩ := Option.bind_eq_some_iff.mp h
    obtain rfl := Option.some.inj h
    exact ⟨hsplit, ⟨hb, hhb, hheader⟩, pb, hpb, hpayload⟩
  · exact nomatch h

/-- What is signed was decoded, so it is ASCII. -/
theorem isAscii_signingInput {recursionLimit : Nat} {token : List Char} {t : ReadToken}
    (h : readToken recursionLimit token = some t) : t.signingInput.all isAscii = true := by
  obtain ⟨-, ⟨hb, hhb, -⟩, pb, hpb, -⟩ := readToken_some h
  rw [ReadToken.signingInput, List.all_append, List.all_cons, isAscii_of_b64decode hhb, isAscii_of_b64decode hpb]
  rfl

/-! ## When a verification fails only as declared -/

/-- What `int` takes. -/
def isInteger : PyJson → Bool
  | .bool _ | .int _ | .float (.finite ..) => true
  | .str s => ((charsOf s).bind (intOfText 10)).isSome
  | _ => false

/-- A payload whose field names and plan are those of an access token. -/
def HasAccessShape (fields : List (List Nat × PyJson)) : Prop :=
  sameTexts accessClaimNames (keysOf fields) = true ∧ (PyJson.get? fields "plan").any (isText "free") = true

/-- What a token must be, by the kind of its payload: the type of the payload is checked nowhere, the signature is
compared as a text, and `exp` is converted outside of the last `try`. -/
def Orderly (hmac : Hmac) (secrets : List String) (t : ReadToken) : Prop :=
  isTokenHeader t.header = true →
  match t.payload with
  | .obj fields => HasAccessShape fields → (secrets = [] ∨ t.signature.all isAscii = true) ∧
      (SignedBy hmac secrets t → (PyJson.get? fields "exp").any isInteger = true)
  | .str _ => True
  | .arr items => items.all isHashable = true ∧ ¬ sameTexts accessClaimNames items = true
  | .null | .bool _ | .int _ | .float _ => False

/-- The claims are those of a token that a configured secret signed and that has not expired. -/
def Granted (hmac : Hmac) (recursionLimit : Nat) (render : PyJson → Option (List Nat)) (token : String)
    (secrets : List String) (nowTs : Int) (claims : AccessClaims) : Prop :=
  ∃ t, readToken recursionLimit token.toList = some t ∧ SignedBy hmac secrets t ∧ claimsOf render t.payload = .ok claims ∧
    nowTs < claims.exp

theorem intOf_isInteger {x : PyJson} : (∃ n, intOf x = .ok n) ↔ isInteger x = true := by
  cases x with
  | bool b => exact iff_of_true ⟨_, rfl⟩ rfl
  | int n => exact iff_of_true ⟨_, rfl⟩ rfl
  | float x =>
    cases x with
    | nan => exact iff_of_false (fun ⟨_, h⟩ => nomatch h) Bool.false_ne_true
    | infinite => exact iff_of_false (fun ⟨_, h⟩ => nomatch h) Bool.false_ne_true
    | finite => exact iff_of_true ⟨_, rfl⟩ rfl
  | str s =>
    simp only [intOf, isInteger]
    cases (charsOf s).bind (intOfText 10) with
    | none => exact iff_of_false (fun ⟨_, h⟩ => nomatch h) Bool.false_ne_true
    | some n => exact iff_of_true ⟨n, rfl⟩ rfl
  | null => exact iff_of_false (fun ⟨_, h⟩ => nomatch h) Bool.false_ne_true
  | arr => exact iff_of_false (fun ⟨_, h⟩ => nomatch h) Bool.false_ne_true
  | obj => exact iff_of_false (fun ⟨_, h⟩ => nomatch h) Bool.false_ne_true

/-- What a sequence returns, both of its parts have returned. -/
theorem bind_ok {ε α β : Type} {x : Except ε α} {f : α → Except ε β} {b : β} (h : x >>= f = .ok b) :
    ∃ a, x = .ok a ∧ f a = .ok b := by
  cases x with
  | error e => exact nomatch h
  | ok a => exact ⟨a, rfl, h⟩

/-- What a sequence raises, one of its parts has raised. -/
theorem bind_error {ε α β : Type} {x : Except ε α} {f : α → Except ε β} {e : ε} (h : x >>= f = .error e) :
    x = .error e ∨ ∃ a, x = .ok a ∧ f a = .error e := by
  cases x with
  | error e' => exact Or.inl (congrArg Except.error (Except.error.inj h))
  | ok a => exact Or.inr ⟨a, rfl, h⟩

section Declared

variable {hmac : Hmac} {render : PyJson → Option (List Nat)} {t : ReadToken} {secrets : List String} {nowTs : Int}

theorem claimsOf_exp {payload : PyJson} {claims : AccessClaims} (h : claimsOf render payload = .ok claims) :
    fieldOf "exp" payload >>= intOf = .ok claims.exp := by
  obtain ⟨_, -, h⟩ := bind_ok h
  obtain ⟨_, -, h⟩ := bind_ok h
  obtain ⟨_, -, h⟩ := bind_ok h
  obtain ⟨x, hx, h⟩ := bind_ok h
  obtain ⟨exp, hexp, h⟩ := bind_ok h
  obtain ⟨_, -, h⟩ := bind_ok h
  obtain ⟨_, -, h⟩ := bind_ok h
  obtain ⟨_, -, h⟩ := bind_ok h
  obtain ⟨_, -, h⟩ := bind_ok h
  obtain rfl := Except.ok.inj h
  rw [hx]
  exact hexp

/-- The claims that are returned have not expired. -/
theorem liveClaims_ok {payload : PyJson} {claims : AccessClaims} (h : liveClaims render payload nowTs = .ok claims) :
    claimsOf render payload = .ok claims ∧ nowTs < claims.exp := by
  obtain ⟨x, hx, h⟩ := bind_ok h
  obtain ⟨exp, hexp, h⟩ := bind_ok h
  split at h
  · exact nomatch h
  · rename_i hlive
    cases hclaims : claimsOf render payload with
    | error e => rw [hclaims] at h; exact nomatch h
    | ok found =>
      rw [hclaims] at h
      obtain rfl := Except.ok.inj h
      have hfield := claimsOf_exp hclaims
      rw [hx] at hfield
      obtain rfl := Except.ok.inj (hexp.symm.trans hfield)
      exact ⟨rfl, Int.not_le.mp hlive⟩

/-- What `int` raises is not declared. -/
theorem intOf_error {x : PyJson} {e : Raised} (h : intOf x = .error e) : ¬ e.IsDeclared := by
  have hkind : e = .valueError ∨ e = .overflowError ∨ e = .typeError := by
    cases x with
    | bool b => exact nomatch h
    | int n => exact nomatch h
    | float x =>
      cases x with
      | nan => exact Or.inl (Except.error.inj h).symm
      | infinite => exact Or.inr (Or.inl (Except.error.inj h).symm)
      | finite => exact nomatch h
    | str s =>
      simp only [intOf] at h
      split at h
      · exact nomatch h
      · exact Or.inl (Except.error.inj h).symm
    | null => exact Or.inr (Or.inr (Except.error.inj h).symm)
    | arr => exact Or.inr (Or.inr (Except.error.inj h).symm)
    | obj => exact Or.inr (Or.inr (Except.error.inj h).symm)
  rcases hkind with rfl | rfl | rfl
  · exact fun h => h.elim nofun nofun
  · exact fun h => h.elim nofun nofun
  · exact fun h => h.elim nofun nofun

/-- Reading the claims fails as declared if `int` takes `exp`. -/
theorem liveClaims_declared_iff {fields : List (List Nat × PyJson)} :
    (∀ e, liveClaims render (.obj fields) nowTs = .error e → e.IsDeclared) ↔
      (PyJson.get? fields "exp").any isInteger = true := by
  cases hget : PyJson.get? fields "exp" with
  | none =>
    have hraised : liveClaims render (.obj fields) nowTs = .error .keyError := by
      unfold liveClaims fieldOf
      simp only [hget]
      rfl
    exact iff_of_false (fun h => (h _ hraised).elim nofun nofun) Bool.false_ne_true
  | some x =>
    have hfield : fieldOf "exp" (.obj fields) = .ok x := by simp only [fieldOf, hget]
    have hint : liveClaims render (.obj fields) nowTs = intOf x >>= fun exp =>
        if exp ≤ nowTs then .error .tokenExpiredError
        else
          match claimsOf render (.obj fields) with
          | .ok claims => .ok claims
          | .error _ => .error .tokenError := by
      rw [liveClaims, hfield]
      rfl
    rw [Option.any_some, ← intOf_isInteger, hint]
    cases hexp : intOf x with
    | error e => exact iff_of_false (fun h => intOf_error hexp (h e rfl)) fun ⟨_, h⟩ => nomatch h
    | ok exp =>
      refine iff_of_true (fun e he => ?_) ⟨exp, rfl⟩
      change (if exp ≤ nowTs then _ else _) = _ at he
      split at he
      · exact Or.inr (Except.error.inj he).symm
      · split at he
        · exact nomatch he
        · exact Or.inl (Except.error.inj he).symm

/-! ### The kinds of payloads -/

theorem not_isText_char {text : String} (h : (codes text).length ≠ 1) (s : List Nat) :
    (s.map fun c => PyJson.str [c]).any (isText text) = false := by
  rw [List.any_map]
  refine List.any_eq_false.mpr fun c _ => ?_
  change ¬ ([c] == codes text) = true
  exact fun heq => h ((congrArg List.length (eq_of_beq heq)).symm)

/-- A text has no element `sub`. -/
theorem sameTexts_chars (s : List Nat) : sameTexts accessClaimNames (s.map fun c => PyJson.str [c]) = false := by
  rw [sameTexts, accessClaimNames, List.all_cons, not_isText_char (by decide), Bool.false_and, Bool.and_false]

theorem verifyRead_header (h : ¬ isTokenHeader t.header = true) :
    verifyRead hmac render t secrets nowTs = .error .tokenError := by
  rw [verifyRead, Bool.eq_false_iff.mpr h]
  rfl

variable (hmac render secrets nowTs)

/-- An object of the right names and plan comes to its signature. -/
theorem verifyRead_obj {fields : List (List Nat × PyJson)} (hh : isTokenHeader t.header = true) (hp : t.payload = .obj fields) :
    (¬ HasAccessShape fields ∧ verifyRead hmac render t secrets nowTs = .error .tokenError) ∨
    (HasAccessShape fields ∧ verifyRead hmac render t secrets nowTs =
      anyMatches hmac t.signingInput t.signature secrets >>= fun valid =>
        if !valid then .error .tokenError else liveClaims render t.payload nowTs) := by
  have hread : verifyRead hmac render t secrets nowTs =
      if !sameTexts accessClaimNames (keysOf fields) then .error .tokenError
      else if !(PyJson.get? fields "plan").any (isText "free") then .error .tokenError
      else anyMatches hmac t.signingInput t.signature secrets >>= fun valid =>
        if !valid then .error .tokenError else liveClaims render t.payload nowTs := by
    rw [verifyRead, hh, hp]
    rfl
  rw [hread]
  cases hnames : sameTexts accessClaimNames (keysOf fields) with
  | false => exact Or.inl ⟨fun h => Bool.false_ne_true (hnames.symm.trans h.1), rfl⟩
  | true =>
    cases hplan : (PyJson.get? fields "plan").any (isText "free") with
    | false => exact Or.inl ⟨fun h => Bool.false_ne_true (hplan.symm.trans h.2), rfl⟩
    | true => exact Or.inr ⟨⟨hnames, hplan⟩, rfl⟩

/-- What is left once the shape of an object was checked. -/
theorem verifyRead_shaped {fields : List (List Nat × PyJson)} (ht : t.signingInput.all isAscii = true)
    (hh : isTokenHeader t.header = true) (hp : t.payload = .obj fields) (hshape : HasAccessShape fields) :
    (¬ (secrets = [] ∨ t.signature.all isAscii = true) ∧ verifyRead hmac render t secrets nowTs = .error .typeError) ∨
    ((secrets = [] ∨ t.signature.all isAscii = true) ∧ ¬ SignedBy hmac secrets t ∧
      verifyRead hmac render t secrets nowTs = .error .tokenError) ∨
    ((secrets = [] ∨ t.signature.all isAscii = true) ∧ SignedBy hmac secrets t ∧
      verifyRead hmac render t secrets nowTs = liveClaims render (.obj fields) nowTs) := by
  obtain ⟨hno, -⟩ | ⟨-, hread⟩ := verifyRead_obj hmac render secrets nowTs hh hp
  · exact absurd hshape hno
  rw [hread, anyMatches_eq ht, hp]
  by_cases hs : secrets = [] ∨ t.signature.all isAscii = true
  · rw [if_pos hs]
    have hsigned : (secrets.any fun secret => signatureOf hmac t.signingInput secret == t.signature) = true ↔
        SignedBy hmac secrets t := by
      rw [List.any_eq_true, SignedBy]
      exact exists_congr fun secret => and_congr_right fun _ => beq_iff_eq
    cases hany : secrets.any fun secret => signatureOf hmac t.signingInput secret == t.signature with
    | false => exact Or.inr (Or.inl ⟨hs, fun h => Bool.false_ne_true (hany.symm.trans (hsigned.mpr h)), rfl⟩)
    | true => exact Or.inr (Or.inr ⟨hs, hsigned.mp hany, rfl⟩)
  · rw [if_neg hs]
    exact Or.inl ⟨hs, rfl⟩

/-- A payload that is no object grants nothing, and fails as declared if it is a text, or an array of what can be in a
set and not of the names. -/
theorem verifyRead_of_not_obj (hh : isTokenHeader t.header = true) (hp : ∀ fields, t.payload ≠ .obj fields) :
    ∃ e, verifyRead hmac render t secrets nowTs = .error e ∧ (e.IsDeclared ↔ Orderly hmac secrets t) := by
  unfold verifyRead Orderly
  rw [hh]
  cases hpay : t.payload with
  | obj fields => exact absurd hpay (hp fields)
  | str s =>
    refine ⟨.tokenError, ?_, iff_of_true (Or.inl rfl) fun _ => trivial⟩
    change (if !sameTexts accessClaimNames (s.map fun c => PyJson.str [c]) then _ else _) = _
    rw [sameTexts_chars]
    rfl
  | arr items =>
    cases hhash : items.all isHashable with
    | false =>
      refine ⟨.typeError, ?_, iff_of_false (fun h => h.elim nofun nofun) fun h =>
        Bool.false_ne_true (hhash.symm.trans (h rfl).1)⟩
      simp only [setOf, hhash]
      rfl
    | true =>
      cases hnames : sameTexts accessClaimNames items with
      | false =>
        refine ⟨.tokenError, ?_, iff_of_true (Or.inl rfl) fun _ => ⟨hhash, Bool.eq_false_iff.mp hnames⟩⟩
        simp only [setOf, hhash]
        change (if !sameTexts accessClaimNames items then _ else _) = _
        rw [hnames]
        rfl
      | true =>
        refine ⟨.attributeError, ?_, iff_of_false (fun h => h.elim nofun nofun) fun h =>
          (h rfl).2 hnames⟩
        simp only [setOf, hhash]
        change (if !sameTexts accessClaimNames items then _ else _) = _
        rw [hnames]
        rfl
  | null => exact ⟨.typeError, rfl, iff_of_false (fun h => h.elim nofun nofun) fun h => h rfl⟩
  | bool b => exact ⟨.typeError, rfl, iff_of_false (fun h => h.elim nofun nofun) fun h => h rfl⟩
  | int n => exact ⟨.typeError, rfl, iff_of_false (fun h => h.elim nofun nofun) fun h => h rfl⟩
  | float x => exact ⟨.typeError, rfl, iff_of_false (fun h => h.elim nofun nofun) fun h => h rfl⟩

/-- **The verification of a token that was taken apart fails only as declared if the token is orderly.** -/
theorem verifyRead_declared_iff (ht : t.signingInput.all isAscii = true) :
    (∀ e, verifyRead hmac render t secrets nowTs = .error e → e.IsDeclared) ↔ Orderly hmac secrets t := by
  by_cases hh : isTokenHeader t.header = true
  swap
  · exact iff_of_true (fun e he => Or.inl (Except.error.inj ((verifyRead_header hh).symm.trans he)).symm) fun h => absurd h hh
  by_cases hobj : ∃ fields, t.payload = .obj fields
  · obtain ⟨fields, hp⟩ := hobj
    have horderly : Orderly hmac secrets t ↔ (HasAccessShape fields → (secrets = [] ∨ t.signature.all isAscii = true) ∧
        (SignedBy hmac secrets t → (PyJson.get? fields "exp").any isInteger = true)) := by
      rw [Orderly, hp]
      exact ⟨fun h => h hh, fun h _ => h⟩
    rw [horderly]
    obtain ⟨hno, hread⟩ | ⟨hshape, -⟩ :=
      verifyRead_obj hmac render secrets nowTs hh hp
    · rw [hread]
      exact iff_of_true (fun e he => Or.inl (Except.error.inj he).symm) fun h => absurd h hno
    · obtain ⟨hs, hread⟩ | ⟨hs, hunsigned, hread⟩ | ⟨hs, hsigned, hread⟩ :=
        verifyRead_shaped hmac render secrets nowTs ht hh hp hshape
      · rw [hread]
        exact iff_of_false (fun h => (h _ rfl).elim nofun nofun) fun h => hs (h hshape).1
      · rw [hread]
        exact iff_of_true (fun e he => Or.inl (Except.error.inj he).symm) fun _ => ⟨hs, fun h => absurd h hunsigned⟩
      · rw [hread, liveClaims_declared_iff]
        exact ⟨fun h _ => ⟨hs, fun _ => h⟩, fun h => (h hshape).2 hsigned⟩
  · obtain ⟨e, he, hiff⟩ := verifyRead_of_not_obj hmac render secrets nowTs hh (not_exists.mp hobj)
    rw [← hiff, he]
    exact ⟨fun h => h e rfl, fun h e' he' => Except.error.inj he' ▸ h⟩

/-- **Claims are returned only of a token that is signed and has not expired.** -/
theorem verifyRead_ok {claims : AccessClaims} (ht : t.signingInput.all isAscii = true)
    (h : verifyRead hmac render t secrets nowTs = .ok claims) :
    SignedBy hmac secrets t ∧ claimsOf render t.payload = .ok claims ∧ nowTs < claims.exp := by
  by_cases hh : isTokenHeader t.header = true
  swap
  · exact nomatch (verifyRead_header hh).symm.trans h
  by_cases hobj : ∃ fields, t.payload = .obj fields
  · obtain ⟨fields, hp⟩ := hobj
    obtain ⟨hno, hread⟩ | ⟨hshape, -⟩ :=
      verifyRead_obj hmac render secrets nowTs hh hp
    · exact nomatch hread.symm.trans h
    · obtain ⟨-, hread⟩ | ⟨-, -, hread⟩ | ⟨-, hsigned, hread⟩ :=
        verifyRead_shaped hmac render secrets nowTs ht hh hp hshape
      · exact nomatch hread.symm.trans h
      · exact nomatch hread.symm.trans h
      · rw [hp]
        exact ⟨hsigned, liveClaims_ok (hread.symm.trans h)⟩
  · obtain ⟨e, he, -⟩ := verifyRead_of_not_obj hmac render secrets nowTs hh (not_exists.mp hobj)
    exact nomatch he.symm.trans h

end Declared

/-! ### Every text -/

section Verification

variable (hmac : Hmac) (recursionLimit : Nat) (render : PyJson → Option (List Nat)) (secrets : List String) (nowTs : Int)

/-- What is raised for a text. -/
theorem verifyAccessToken_raises_iff (token : String) :
    (∀ e, verifyAccessToken hmac recursionLimit render token secrets nowTs = .error e → e.IsDeclared) ↔
      ∀ t, readToken recursionLimit token.toList = some t → Orderly hmac secrets t := by
  unfold verifyAccessToken
  cases hread : readToken recursionLimit token.toList with
  | none => exact iff_of_true (fun e he => Or.inl (Except.error.inj he).symm) fun t ht => nomatch ht
  | some t =>
    have hiff := verifyRead_declared_iff hmac render secrets nowTs (isAscii_signingInput hread)
    exact ⟨fun h t' ht' => Option.some.inj ht' ▸ hiff.mp h, fun h => hiff.mpr (h t rfl)⟩

/-- The claims that are returned for a text. -/
theorem verifyAccessToken_granted {token : String} {claims : AccessClaims}
    (h : verifyAccessToken hmac recursionLimit render token secrets nowTs = .ok claims) :
    Granted hmac recursionLimit render token secrets nowTs claims := by
  unfold verifyAccessToken at h
  split at h
  · exact nomatch h
  · rename_i t hread
    exact ⟨t, hread, verifyRead_ok hmac render secrets nowTs (isAscii_signingInput hread) h⟩

/-- Claims of a signed token that has not expired, or one of the two declared exceptions. -/
def FailsOnlyAsDeclared (token : String) : Prop :=
  (∀ claims, verifyAccessToken hmac recursionLimit render token secrets nowTs = .ok claims →
    Granted hmac recursionLimit render token secrets nowTs claims) ∧
  ∀ e, verifyAccessToken hmac recursionLimit render token secrets nowTs = .error e → e.IsDeclared

/-- **When a verification fails only as declared**: whenever the text is no token, or an orderly one. -/
theorem verifyAccessToken_declared_iff (token : String) :
    FailsOnlyAsDeclared hmac recursionLimit render secrets nowTs token ↔
      ∀ t, readToken recursionLimit token.toList = some t → Orderly hmac secrets t :=
  ⟨fun h => (verifyAccessToken_raises_iff hmac recursionLimit render secrets nowTs token).mp h.2,
    fun h => ⟨fun _ => verifyAccessToken_granted hmac recursionLimit render secrets nowTs,
      (verifyAccessToken_raises_iff hmac recursionLimit render secrets nowTs token).mpr h⟩⟩

/-- Two texts on which a verification raises `TypeError`, without a valid signature: the payload `5`, and the claims with a
signature that is not ASCII. -/
theorem verifyAccessToken_undeclared :
    (∀ hmac render, ¬ FailsOnlyAsDeclared hmac 1000 render ["secret"] 0 "eyJhbGciOiJIUzI1NiIsInR5cCI6IkpXVCJ9.NQ.x") ∧
    ∀ hmac render, ¬ FailsOnlyAsDeclared hmac 1000 render ["secret"] 0
      "eyJhbGciOiJIUzI1NiIsInR5cCI6IkpXVCJ9.eyJzdWIiOjAsInBsYW4iOiJmcmVlIiwiZXhwIjowLCJpYXQiOjAsImp0aSI6MH0.é" := by
  have hnumber : (readToken 1000 "eyJhbGciOiJIUzI1NiIsInR5cCI6IkpXVCJ9.NQ.x".toList).any (fun t =>
      isTokenHeader t.header && match t.payload with | .int _ => true | _ => false) = true := by
    decide +kernel
  have hsignature : (readToken 1000
      "eyJhbGciOiJIUzI1NiIsInR5cCI6IkpXVCJ9.eyJzdWIiOjAsInBsYW4iOiJmcmVlIiwiZXhwIjowLCJpYXQiOjAsImp0aSI6MH0.é".toList).any
      (fun t => isTokenHeader t.header && !t.signature.all isAscii && match t.payload with
        | .obj fields => sameTexts accessClaimNames (keysOf fields) && (PyJson.get? fields "plan").any (isText "free")
        | _ => false) = true := by
    decide +kernel
  constructor
  · intro hmac render h
    obtain ⟨t, hread, ht⟩ := (Option.any_eq_true _ _).mp hnumber
    obtain ⟨hheader, hpay⟩ := Bool.and_eq_true_iff.mp ht
    have horderly := (verifyAccessToken_raises_iff _ _ _ _ _ _).mp h.2 t hread hheader
    split at hpay
    · rename_i n heq
      rw [heq] at horderly
      exact horderly
    · exact Bool.false_ne_true hpay
  · intro hmac render h
    obtain ⟨t, hread, ht⟩ := (Option.any_eq_true _ _).mp hsignature
    obtain ⟨hboth, hpay⟩ := Bool.and_eq_true_iff.mp ht
    obtain ⟨hheader, hascii⟩ := Bool.and_eq_true_iff.mp hboth
    have horderly := (verifyAccessToken_raises_iff _ _ _ _ _ _).mp h.2 t hread hheader
    split at hpay
    · rename_i fields heq
      rw [heq] at horderly
      rcases (horderly (Bool.and_eq_true_iff.mp hpay)).1 with hnone | hall
      · exact nomatch hnone
      · rw [hall] at hascii
        exact Bool.false_ne_true hascii
    · exact Bool.false_ne_true hpay

/-! ### The two callers -/

/-- The token of `Authorization: Bearer ..`. -/
def bearerToken (authorization : String) : Option String :=
  let scheme := authorization.toList.takeWhile (· ≠ ' ')
  let token := authorization.toList.drop (scheme.length + 1)
  if scheme.map Char.toLower = "bearer".toList ∧ token ≠ [] then some (String.ofList token) else none

/-- What a request that needs an access token comes to: a user, status 401 with a code and a message, or an exception that
nothing handles. -/
inductive Access
  | user (id : Nat) (jti : List Nat)
  | unauthorized (code message : String)
  | unhandled (raised : Raised)

def requireAccessToken (authorization : String) : Access :=
  match bearerToken authorization with
  | none => .unauthorized "invalid_token" "Access token is required."
  | some token =>
    match verifyAccessToken hmac recursionLimit render token secrets nowTs with
    | .ok claims => .user claims.sub claims.jti
    | .error .tokenExpiredError => .unauthorized "token_expired" "Token expired."
    | .error .tokenError => .unauthorized "invalid_token" "Invalid token."
    | .error raised => .unhandled raised

/-- Whom a request is counted for: a user, or its address. -/
def resolveDefaultRateLimitIdentity (authorization : String) : Except Raised (Option Nat) :=
  match bearerToken authorization with
  | none => .ok none
  | some token =>
    match verifyAccessToken hmac recursionLimit render token secrets nowTs with
    | .ok claims => .ok (some claims.sub)
    | .error .tokenExpiredError | .error .tokenError => .ok none
    | .error raised => .error raised

/-- **Neither caller is left with an exception if every token in the header is orderly.** -/
theorem callers_handle {authorization : String}
    (h : ∀ token t, bearerToken authorization = some token → readToken recursionLimit token.toList = some t → Orderly hmac secrets t)
    (raised : Raised) :
    requireAccessToken hmac recursionLimit render secrets nowTs authorization ≠ .unhandled raised ∧
      resolveDefaultRateLimitIdentity hmac recursionLimit render secrets nowTs authorization ≠ .error raised := by
  unfold requireAccessToken resolveDefaultRateLimitIdentity
  cases hbearer : bearerToken authorization with
  | none => exact ⟨nofun, nofun⟩
  | some token =>
    have hdeclared := (verifyAccessToken_raises_iff hmac recursionLimit render secrets nowTs token).mpr fun t => h token t hbearer
    simp only
    cases hverify : verifyAccessToken hmac recursionLimit render token secrets nowTs with
    | ok claims => exact ⟨nofun, nofun⟩
    | error e =>
      rcases hdeclared e hverify with rfl | rfl
      · exact ⟨nofun, nofun⟩
      · exact ⟨nofun, nofun⟩

end Verification

end CodeReader.Auth
