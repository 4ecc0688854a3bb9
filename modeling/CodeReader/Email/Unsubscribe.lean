import CodeReader.Auth.Tokens
import CodeReader.Email.Deliveries

/-!
# Unsubscribe tokens

A user and a kind of mail, and a code of them under a secret: no expiry, and nothing is stored.

* `mintUnsubscribeToken`, `parseUnsubscribeToken` — the codec;
* `parse_mint` — **a minted token is parsed to its user and kind**, while its secret is configured;
* `parse_total` — **every other text is invalid**, and raises nothing else;
* `payload_of_mac` — what has the code of a minted token says what that token says;
* `parse_accessToken`, `verify_unsubscribeToken` — **no token of one format is one of the other**.
-/

namespace CodeReader.Email

open Text
open Auth (Hmac utf8 b64encode b64decode)

/-! ## The codec -/

/-- What is raised, of the exceptions that the operations of the codec can raise. -/
inductive TokenFailure
  | invalidUnsubscribeToken
  | valueError | typeError | unicodeDecodeError | indexError
  deriving DecidableEq

/-- `except (ValueError, TypeError)`; an invalid token is a `ValueError`, and so is what cannot be decoded. -/
def TokenFailure.isValueOrTypeError : TokenFailure → Bool
  | .indexError => false
  | _ => true

/-- `except (UnicodeDecodeError, ValueError)`. -/
def TokenFailure.isValueError : TokenFailure → Bool
  | .indexError | .typeError => false
  | _ => true

/-- `try .. except .. : raise InvalidUnsubscribeToken`. -/
def invalidOn {α : Type} (handled : TokenFailure → Bool) : Except TokenFailure α → Except TokenFailure α
  | .ok a => .ok a
  | .error e => .error (if handled e then .invalidUnsubscribeToken else e)

def orRaise {α : Type} (e : TokenFailure) : Option α → Except TokenFailure α
  | some a => .ok a
  | none => .error e

/-- `SUPPRESSION_KINDS`. -/
def suppressionKinds : List SuppressionKind := [.only .reminder, .only .recap, .all]

def suppressionKindOf (text : List Nat) : Option SuppressionKind := suppressionKinds.find? fun kind => codes kind.name == text

/-- `_DOMAIN`. -/
def domain : List Char := "codereader-unsubscribe-v1".toList

/-- What the code of a payload is computed of. -/
def macInput (payload : List UInt8) : List UInt8 := domain.map (fun c => UInt8.ofNat c.toNat) ++ 0 :: payload

/-- `_mac`. -/
def mac (hmac : Hmac) (payload : List UInt8) (secret : String) : List UInt8 := hmac (utf8 secret) (macInput payload)

/-- `f"{user_id}:{kind}"`. -/
def payloadText (userId : Nat) (kind : String) : List Char := (uuidText userId).toList ++ ':' :: kind.toList

/-- `mint_unsubscribe_token`, with the configured secrets. -/
def mintUnsubscribeToken (hmac : Hmac) (secrets : List String) (userId : Nat) (kind : String) : Except TokenFailure String :=
  if (suppressionKindOf (codes kind)).isNone then .error .valueError
  else do
    let payload := utf8 (String.ofList (payloadText userId kind))
    let secret ← orRaise .indexError secrets.head?
    return String.ofList (b64encode payload ++ '.' :: b64encode (mac hmac payload secret))

/-- `_unb64`. -/
def unb64 (value : List Char) : Except TokenFailure (List UInt8) :=
  invalidOn TokenFailure.isValueOrTypeError (orRaise .valueError (b64decode value))

/-- The user and the kind of a payload: what stands before and behind the first colon. -/
def readUserAndKind (payload : List UInt8) : Except TokenFailure (Nat × List Nat) := do
  let text ← orRaise .unicodeDecodeError (utf8Decode false payload)
  let rawUserId := text.takeWhile (· ≠ 58)
  let userId ← orRaise .valueError ((Auth.charsOf rawUserId).bind uuidOfHex)
  return (userId, text.drop (rawUserId.length + 1))

/-- What is parsed of the two parts of a token.  The loop over the secrets runs to its end, so that its time says nothing. -/
def parseParts (hmac : Hmac) (secrets : List String) (encodedPayload encodedMac : List Char) :
    Except TokenFailure (Nat × SuppressionKind) := do
  let payload ← unb64 encodedPayload
  let presented ← unb64 encodedMac
  let matched := secrets.foldl (fun matched secret => if mac hmac payload secret = presented then true else matched) false
  if !matched then .error .invalidUnsubscribeToken
  else do
    let (userId, kind) ← invalidOn TokenFailure.isValueError (readUserAndKind payload)
    match suppressionKindOf kind with
    | some kind => .ok (userId, kind)
    | none => .error .invalidUnsubscribeToken

/-- `token.split(".", 1)`, of a text with a dot. -/
def splitAtDot (text : List Char) : List Char × List Char :=
  let before := text.takeWhile (· ≠ '.')
  (before, text.drop (before.length + 1))

/-- `parse_unsubscribe_token`, with the configured secrets. -/
def parseUnsubscribeToken (hmac : Hmac) (secrets : List String) (token : String) :
    Except TokenFailure (Nat × SuppressionKind) :=
  if token.toList = [] ∨ token.toList.count '.' ≠ 1 then .error .invalidUnsubscribeToken
  else
    let (encodedPayload, encodedMac) := splitAtDot token.toList
    parseParts hmac secrets encodedPayload encodedMac

/-! ## ASCII texts as bytes -/

theorem toNat_ofNat_ascii {c : Char} (h : isAscii c = true) : (UInt8.ofNat c.toNat).toNat = c.toNat := by
  have hsmall : c.toNat < 128 := of_decide_eq_true h
  rw [UInt8.toNat_ofNat', Nat.mod_eq_of_lt (by omega)]

theorem flatMap_utf8_ascii {text : List Char} (h : text.all isAscii = true) :
    text.flatMap String.utf8EncodeChar = text.map fun c => UInt8.ofNat c.toNat := by
  induction text with
  | nil => rfl
  | cons c text ih =>
    rw [List.all_cons, Bool.and_eq_true] at h
    have hsmall : c.toNat < 128 := of_decide_eq_true h.1
    have hsize : c.utf8Size = 1 := Char.utf8Size_eq_one_iff.mpr (UInt32.le_iff_toNat_le.mpr (Nat.le_of_lt_succ hsmall))
    rw [List.flatMap_cons, String.utf8EncodeChar_eq_singleton hsize, ih h.2]
    rfl

theorem utf8_ascii {text : List Char} (h : text.all isAscii = true) :
    utf8 (String.ofList text) = text.map fun c => UInt8.ofNat c.toNat := by
  change (text.flatMap String.utf8EncodeChar).toByteArray.data.toList = _
  rw [List.data_toByteArray, flatMap_utf8_ascii h]

/-- ASCII is read back. -/
theorem utf8Decode_ascii (surrogatepass : Bool) {text : List Char} (h : text.all isAscii = true) :
    utf8Decode surrogatepass (text.map fun c => UInt8.ofNat c.toNat) = some (text.map Char.toNat) := by
  induction text with
  | nil => rw [List.map_nil, utf8Decode, List.map_nil]
  | cons c text ih =>
    rw [List.all_cons, Bool.and_eq_true] at h
    have hsmall : c.toNat < 0x80 := of_decide_eq_true h.1
    rw [List.map_cons, utf8Decode.eq_def]
    dsimp only
    rw [toNat_ofNat_ascii h.1, if_pos hsmall, ih h.2]
    rfl

/-! ## The round trip -/

theorem isAscii_uuidText (n : Nat) : (uuidText n).toList.all isAscii = true := by
  have hdigit : ∀ d < 16, isAscii (Nat.digitChar d) = true := by decide
  refine List.all_eq_true.mpr fun c hc => ?_
  rcases mem_uuidText hc with rfl | ⟨d, hd, rfl⟩
  · rfl
  · exact hdigit d hd

theorem isAscii_payloadText (userId : Nat) (kind : SuppressionKind) :
    (payloadText userId kind.name).all isAscii = true := by
  rw [payloadText, List.all_append, isAscii_uuidText, Bool.true_and]
  rcases kind with ⟨_ | _⟩ | _
  · decide
  · decide
  · decide

theorem suppressionKindOf_name (kind : SuppressionKind) : suppressionKindOf (codes kind.name) = some kind := by
  rcases kind with ⟨_ | _⟩ | _
  · decide
  · decide
  · decide

theorem charsOf_codes (text : List Char) : Auth.charsOf (text.map Char.toNat) = some text := by
  induction text with
  | nil => rfl
  | cons c text ih =>
    unfold Auth.charsOf at ih ⊢
    rw [List.map_cons, List.mapM_cons, ih, dif_pos (show c.toNat.isValidChar from c.valid)]
    rfl

/-- A payload in ASCII is read up to its first colon. -/
theorem readUserAndKind_ascii {user kind : List Char} (h : (user ++ ':' :: kind).all isAscii = true) (hcolon : ':' ∉ user) :
    readUserAndKind ((user ++ ':' :: kind).map fun c => UInt8.ofNat c.toNat) =
      (orRaise .valueError (uuidOfHex user)).map fun userId => (userId, kind.map Char.toNat) := by
  have htext : (user ++ ':' :: kind).map Char.toNat = user.map Char.toNat ++ 58 :: kind.map Char.toNat := by
    rw [List.map_append]
    rfl
  have hbefore : ∀ n ∈ user.map Char.toNat, decide (n ≠ 58) = true := by
    intro n hn
    obtain ⟨c, hc, rfl⟩ := List.mem_map.mp hn
    exact decide_eq_true fun heq => hcolon (Char.toNat_inj.mp (heq.trans rfl : c.toNat = ':'.toNat) ▸ hc)
  have hfirst : (user.map Char.toNat ++ 58 :: kind.map Char.toNat).takeWhile (· ≠ 58) = user.map Char.toNat := by
    rw [List.takeWhile_append_of_pos hbefore, List.takeWhile_cons_of_neg (by decide), List.append_nil]
  have hrest : (user.map Char.toNat ++ 58 :: kind.map Char.toNat).drop ((user.map Char.toNat).length + 1) =
      kind.map Char.toNat := by
    rw [List.append_cons]
    exact List.drop_left' List.length_append
  unfold readUserAndKind
  rw [utf8Decode_ascii false h, htext]
  change (do
    let userId ← orRaise .valueError
      ((Auth.charsOf ((user.map Char.toNat ++ 58 :: kind.map Char.toNat).takeWhile (· ≠ 58))).bind uuidOfHex)
    return (userId, (user.map Char.toNat ++ 58 :: kind.map Char.toNat).drop
      (((user.map Char.toNat ++ 58 :: kind.map Char.toNat).takeWhile (· ≠ 58)).length + 1))) = _
  rw [hfirst, charsOf_codes, Option.bind_some, hrest]
  cases uuidOfHex user with
  | none => rfl
  | some userId => rfl

/-- The payload of a minted token. -/
def mintedPayload (userId : Nat) (kind : SuppressionKind) : List UInt8 := utf8 (String.ofList (payloadText userId kind.name))

/-- **A minted payload is read back.** -/
theorem readUserAndKind_minted {userId : Nat} (h : userId < 2 ^ 128) (kind : SuppressionKind) :
    readUserAndKind (mintedPayload userId kind) = .ok (userId, codes kind.name) := by
  have hcolon : ':' ∉ (uuidText userId).toList := notMem_uuidText (by decide) (by decide)
  rw [mintedPayload, utf8_ascii (isAscii_payloadText userId kind)]
  rw [payloadText, readUserAndKind_ascii (isAscii_payloadText userId kind) hcolon, uuidOfHex_uuidText h]
  rfl

/-! ## What is parsed -/

theorem foldl_matched {α : Type} (p : α → Prop) [DecidablePred p] (xs : List α) (b : Bool) :
    xs.foldl (fun matched x => if p x then true else matched) b = true ↔ b = true ∨ ∃ x ∈ xs, p x := by
  induction xs generalizing b with
  | nil => exact (or_iff_left fun ⟨_, h, _⟩ => nomatch h).symm
  | cons x xs ih =>
    rw [List.foldl_cons, ih, List.exists_mem_cons_iff]
    split
    · rename_i hx
      exact iff_of_true (Or.inl rfl) (Or.inr (Or.inl hx))
    · rename_i hx
      rw [or_iff_right hx]

section Raises

variable {α : Type} {handled : TokenFailure → Bool} {x : Except TokenFailure α} {e : TokenFailure}

theorem invalidOn_ok {a : α} (h : invalidOn handled x = .ok a) : x = .ok a := by
  cases x with
  | error e => exact nomatch h
  | ok a' => exact congrArg Except.ok (Except.ok.inj h)

/-- Exceptions that are all handled become the one that is declared. -/
theorem invalidOn_error (hall : ∀ e', x = .error e' → handled e' = true) (h : invalidOn handled x = .error e) :
    e = .invalidUnsubscribeToken := by
  cases x with
  | error e' =>
    have he := Except.error.inj h
    rw [if_pos (hall e' rfl)] at he
    exact he.symm
  | ok a => exact nomatch h

theorem orRaise_ok {o : Option α} {a : α} (h : orRaise e o = .ok a) : o = some a := by
  cases o with
  | none => exact nomatch h
  | some a' => exact congrArg some (Except.ok.inj h)

theorem orRaise_error {o : Option α} {e' : TokenFailure} (h : orRaise e o = .error e') : e' = e := by
  cases o with
  | none => exact (Except.error.inj h).symm
  | some a => exact nomatch h

end Raises

theorem unb64_error {value : List Char} {e : TokenFailure} (h : unb64 value = .error e) : e = .invalidUnsubscribeToken :=
  invalidOn_error (fun e' he' => by rw [orRaise_error he']; rfl) h

theorem readUserAndKind_error {payload : List UInt8} {e : TokenFailure} (h : readUserAndKind payload = .error e) :
    e.isValueError = true := by
  rcases Auth.bind_error h with h | ⟨text, -, h⟩
  · rw [orRaise_error h]
    rfl
  · rcases Auth.bind_error h with h | ⟨userId, -, h⟩
    · rw [orRaise_error h]
      rfl
    · exact nomatch h

section Parts

variable {hmac : Hmac} {secrets : List String} {encodedPayload encodedMac : List Char}

/-- **What two parts are parsed to**, exactly. -/
theorem parseParts_ok_iff {userId : Nat} {kind : SuppressionKind} :
    parseParts hmac secrets encodedPayload encodedMac = .ok (userId, kind) ↔
      ∃ payload presented, b64decode encodedPayload = some payload ∧ b64decode encodedMac = some presented ∧
        (∃ secret ∈ secrets, mac hmac payload secret = presented) ∧
        ∃ text, readUserAndKind payload = .ok (userId, text) ∧ suppressionKindOf text = some kind := by
  constructor
  · intro h
    obtain ⟨payload, hpayload, h⟩ := Auth.bind_ok h
    obtain ⟨presented, hpresented, h⟩ := Auth.bind_ok h
    refine ⟨payload, presented, orRaise_ok (invalidOn_ok hpayload), orRaise_ok (invalidOn_ok hpresented), ?_⟩
    simp only [Bool.not_eq_true'] at h
    split at h
    · exact nomatch h
    · rename_i hmatched
      obtain ⟨⟨userId', text⟩, hread, h⟩ := Auth.bind_ok h
      refine ⟨((foldl_matched _ secrets false).mp (eq_true_of_ne_false hmatched)).resolve_left nofun, text, ?_⟩
      simp only at h
      split at h
      · rename_i kind' hkind
        obtain ⟨rfl, rfl⟩ := Prod.mk.inj (Except.ok.inj h)
        exact ⟨invalidOn_ok hread, hkind⟩
      · exact nomatch h
  · rintro ⟨payload, presented, hpayload, hpresented, hmatched, text, hread, hkind⟩
    unfold parseParts unb64
    rw [hpayload, hpresented]
    change (if !(secrets.foldl (fun matched secret => if mac hmac payload secret = presented then true else matched) false)
      then _ else _) = _
    rw [(foldl_matched _ secrets false).mpr (Or.inr hmatched), hread]
    change (match suppressionKindOf text with | some kind => _ | none => _) = _
    rw [hkind]

/-- **What is not parsed is invalid.** -/
theorem parseParts_error {e : TokenFailure} (h : parseParts hmac secrets encodedPayload encodedMac = .error e) :
    e = .invalidUnsubscribeToken := by
  rcases Auth.bind_error h with h | ⟨payload, -, h⟩
  · exact unb64_error h
  rcases Auth.bind_error h with h | ⟨presented, -, h⟩
  · exact unb64_error h
  simp only at h
  split at h
  · exact (Except.error.inj h).symm
  · rcases Auth.bind_error h with h | ⟨p, -, h⟩
    · exact invalidOn_error (fun e' => readUserAndKind_error) h
    · split at h
      · exact nomatch h
      · exact (Except.error.inj h).symm

end Parts

/-! ## Tokens -/

theorem splitAtDot_append {a b : List Char} (ha : '.' ∉ a) : splitAtDot (a ++ '.' :: b) = (a, b) := by
  have hbefore : (a ++ '.' :: b).takeWhile (· ≠ '.') = a := by
    have hother : ∀ c ∈ a, decide (c ≠ '.') = true := fun c hc => decide_eq_true fun heq : c = '.' => ha (heq ▸ hc)
    rw [List.takeWhile_append_of_pos hother, List.takeWhile_cons_of_neg (by decide), List.append_nil]
  have hafter : (a ++ '.' :: b).drop (a.length + 1) = b := by
    rw [List.append_cons]
    exact List.drop_left' List.length_append
  rw [splitAtDot, hbefore, hafter]

/-- A text of two parts is parsed as such. -/
theorem parse_parts {a b : List Char} (ha : '.' ∉ a) (hb : '.' ∉ b) (hmac : Hmac) (secrets : List String) :
    parseUnsubscribeToken hmac secrets (String.ofList (a ++ '.' :: b)) = parseParts hmac secrets a b := by
  have hcount : (a ++ '.' :: b).count '.' = 1 := by
    rw [List.count_append, List.count_eq_zero.mpr ha, List.count_cons_self, List.count_eq_zero.mpr hb]
  have hne : a ++ '.' :: b ≠ [] := List.append_ne_nil_of_right_ne_nil _ (List.cons_ne_nil _ _)
  rw [parseUnsubscribeToken, String.toList_ofList, if_neg fun h => h.elim hne fun h => h hcount, splitAtDot_append ha]

theorem parse_cases (hmac : Hmac) (secrets : List String) (token : String) :
    parseUnsubscribeToken hmac secrets token = .error .invalidUnsubscribeToken ∨ (token.toList.count '.' = 1 ∧
      parseUnsubscribeToken hmac secrets token =
        parseParts hmac secrets (splitAtDot token.toList).1 (splitAtDot token.toList).2) := by
  unfold parseUnsubscribeToken
  split
  · exact Or.inl rfl
  · rename_i h
    exact Or.inr ⟨not_not.mp (not_or.mp h).2, rfl⟩

theorem dot_notMem_b64encode (data : List UInt8) : '.' ∉ b64encode data := dot_notMem_encode data

theorem b64decode_b64encode (data : List UInt8) : b64decode (b64encode data) = some data := urlsafeB64decode_encode data

/-- What is minted, if something is. -/
theorem mint_ok {hmac : Hmac} {secrets : List String} {userId : Nat} {kind token : String}
    (h : mintUnsubscribeToken hmac secrets userId kind = .ok token) :
    ∃ payload presented, token = String.ofList (b64encode payload ++ '.' :: b64encode presented) := by
  unfold mintUnsubscribeToken at h
  split at h
  · exact nomatch h
  · obtain ⟨secret, -, h⟩ := Auth.bind_ok h
    exact ⟨_, _, (Except.ok.inj h).symm⟩

/-- **A minted token is parsed to its user and kind**, with every list of secrets that has the one it was minted with. -/
theorem parse_mint (hmac : Hmac) {userId : Nat} (h : userId < 2 ^ 128) (kind : SuppressionKind) {secret : String}
    {secrets : List String} (hsecret : secret ∈ secrets) (others : List String) :
    ∃ token, mintUnsubscribeToken hmac (secret :: others) userId kind.name = .ok token ∧
      parseUnsubscribeToken hmac secrets token = .ok (userId, kind) := by
  refine ⟨String.ofList (b64encode (mintedPayload userId kind) ++ '.' :: b64encode (mac hmac (mintedPayload userId kind) secret)),
    ?_, ?_⟩
  · rw [mintUnsubscribeToken, suppressionKindOf_name]
    rfl
  · rw [parse_parts (dot_notMem_b64encode _) (dot_notMem_b64encode _), parseParts_ok_iff]
    exact ⟨_, _, b64decode_b64encode _, b64decode_b64encode _, ⟨secret, hsecret, rfl⟩, _, readUserAndKind_minted h kind,
      suppressionKindOf_name kind⟩

/-- The payload and the code that a text carries. -/
def Carries (token : String) (payload presented : List UInt8) : Prop :=
  b64decode (splitAtDot token.toList).1 = some payload ∧ b64decode (splitAtDot token.toList).2 = some presented

/-- A text carries a payload that says the user and the kind, with its code under a configured secret. -/
def MacedUnder (hmac : Hmac) (secrets : List String) (token : String) (userId : Nat) (kind : SuppressionKind) : Prop :=
  ∃ payload presented, Carries token payload presented ∧ (∃ secret ∈ secrets, mac hmac payload secret = presented) ∧
    ∃ text, readUserAndKind payload = .ok (userId, text) ∧ suppressionKindOf text = some kind

/-- **A text is parsed to what is coded in it under a configured secret, or it is invalid.** -/
theorem parse_total (hmac : Hmac) (secrets : List String) (token : String) :
    (∃ userId kind, parseUnsubscribeToken hmac secrets token = .ok (userId, kind) ∧
      MacedUnder hmac secrets token userId kind) ∨
    parseUnsubscribeToken hmac secrets token = .error .invalidUnsubscribeToken := by
  rcases parse_cases hmac secrets token with h | ⟨-, h⟩
  · exact Or.inr h
  · rw [h]
    cases hparts : parseParts hmac secrets (splitAtDot token.toList).1 (splitAtDot token.toList).2 with
    | error e => exact Or.inr (congrArg _ (parseParts_error hparts))
    | ok p =>
      obtain ⟨payload, presented, hpayload, hpresented, hrest⟩ := parseParts_ok_iff.mp hparts
      exact Or.inl ⟨p.1, p.2, rfl, payload, presented, ⟨hpayload, hpresented⟩, hrest⟩

theorem macInput_inj {payload payload' : List UInt8} (h : macInput payload = macInput payload') : payload = payload' := by
  unfold macInput at h
  exact (List.cons.inj (List.append_cancel_left h)).2

/-- **What carries the code of a minted token says what that token says**, if codes of different inputs differ. -/
theorem payload_of_mac {hmac : Hmac} (hinjective : ∀ key key' message message',
    hmac key message = hmac key' message' → message = message') {secrets : List String} {token : String} {userId userId' : Nat}
    {kind kind' : SuppressionKind} {payload presented : List UInt8} {secret : String} (h : userId' < 2 ^ 128)
    (hparse : parseUnsubscribeToken hmac secrets token = .ok (userId, kind)) (hcarries : Carries token payload presented)
    (hmac' : presented = mac hmac (mintedPayload userId' kind') secret) : userId = userId' ∧ kind = kind' := by
  rcases parse_cases hmac secrets token with hno | ⟨-, heq⟩
  · exact nomatch hno.symm.trans hparse
  obtain ⟨payload', presented', hpayload, hpresented, ⟨secret', -, hmaced⟩, text, hread, hkind⟩ :=
    parseParts_ok_iff.mp (heq.symm.trans hparse)
  obtain rfl := Option.some.inj (hpresented.symm.trans hcarries.2)
  have hinput := hinjective _ _ _ _ (hmaced.trans hmac')
  rw [macInput_inj hinput, readUserAndKind_minted h] at hread
  obtain ⟨rfl, rfl⟩ := Prod.mk.inj (Except.ok.inj hread)
  exact ⟨rfl, Option.some.inj (hkind.symm.trans (suppressionKindOf_name kind'))⟩

/-! ## Two formats -/

/-- What was read as an access token has two dots. -/
theorem count_dot_of_readToken {recursionLimit : Nat} {text : List Char} {t : Auth.ReadToken}
    (h : Auth.readToken recursionLimit text = some t) : 2 ≤ text.count '.' := by
  obtain ⟨hsplit, -⟩ := Auth.readToken_some h
  have htext : text = t.headerB64 ++ '.' :: (t.payloadB64 ++ '.' :: t.signature) := by
    have hjoined : ['.'].intercalate (text.splitOn '.') = text := List.intercalate_splitOn '.'
    rw [← hjoined, hsplit, List.intercalate_cons_cons, List.intercalate_cons_cons, List.intercalate_singleton,
      List.append_assoc, List.append_assoc]
    rfl
  rw [htext, List.count_append, List.count_cons_self, List.count_append, List.count_cons_self]
  omega

section Formats

variable (hmac : Hmac) (recursionLimit : Nat) (render : PyJson → Option (List Nat)) (secrets : List String) (nowTs : Int)

/-- An access token: an issued one, or one that is accepted. -/
def IsAccessToken (token : String) : Prop :=
  (∃ userId secret iat ttlSeconds jti, Auth.issueAccessToken hmac userId secret iat ttlSeconds jti = .ok token) ∨
    ∃ claims, Auth.verifyAccessToken hmac recursionLimit render token secrets nowTs = .ok claims

/-- An unsubscribe token: a minted one, or one that is accepted. -/
def IsUnsubscribeToken (token : String) : Prop :=
  (∃ minting userId kind, mintUnsubscribeToken hmac minting userId kind = .ok token) ∨
    ∃ p, parseUnsubscribeToken hmac secrets token = .ok p

variable {hmac recursionLimit render secrets nowTs}

theorem count_dot_accessToken {token : String} (h : IsAccessToken hmac recursionLimit render secrets nowTs token) :
    2 ≤ token.toList.count '.' := by
  rcases h with ⟨userId, secret, iat, ttlSeconds, jti, h⟩ | ⟨claims, h⟩
  · rw [Auth.issueAccessToken_eq] at h
    rw [← Except.ok.inj h, String.toList_ofList, Auth.signingInput, List.count_append, List.count_append, List.count_cons_self,
      List.count_cons_self]
    omega
  · obtain ⟨t, hread, -⟩ := Auth.verifyAccessToken_granted hmac recursionLimit render secrets nowTs h
    exact count_dot_of_readToken hread

theorem count_dot_unsubscribeToken {token : String} (h : IsUnsubscribeToken hmac secrets token) :
    token.toList.count '.' = 1 := by
  rcases h with ⟨minting, userId, kind, h⟩ | ⟨p, h⟩
  · obtain ⟨payload, presented, rfl⟩ := mint_ok h
    rw [String.toList_ofList, List.count_append, List.count_eq_zero.mpr (dot_notMem_b64encode payload), List.count_cons_self,
      List.count_eq_zero.mpr (dot_notMem_b64encode presented)]
  · rcases parse_cases hmac secrets token with hno | ⟨hcount, -⟩
    · exact nomatch hno.symm.trans h
    · exact hcount

/-- **An access token is no unsubscribe token.** -/
theorem parse_accessToken {token : String} (h : IsAccessToken hmac recursionLimit render secrets nowTs token)
    (secrets' : List String) : parseUnsubscribeToken hmac secrets' token = .error .invalidUnsubscribeToken := by
  have hcount := count_dot_accessToken h
  rw [parseUnsubscribeToken, if_pos (Or.inr (by omega))]

/-- **An unsubscribe token is no access token.** -/
theorem verify_unsubscribeToken {token : String} (h : IsUnsubscribeToken hmac secrets token) (recursionLimit : Nat)
    (render : PyJson → Option (List Nat)) (secrets' : List String) (nowTs : Int) :
    Auth.verifyAccessToken hmac recursionLimit render token secrets' nowTs = .error .tokenError := by
  have hcount := count_dot_unsubscribeToken h
  have hnone : Auth.readToken recursionLimit token.toList = none := by
    refine Option.eq_none_iff_forall_ne_some.mpr fun t ht => ?_
    have htwo := count_dot_of_readToken ht
    omega
  rw [Auth.verifyAccessToken, hnone]

end Formats

/-! ### What is signed -/

/-- The first characters of the domain, read as base64, begin no JSON. -/
theorem loads_domain (recursionLimit : Nat) {rest : List Char} {bytes : List UInt8}
    (h : b64decode ('c' :: 'o' :: 'd' :: rest) = some bytes) : PyJson.loads recursionLimit bytes = none := by
  have hread : ∀ text, a2bBase64 ('c' :: 'o' :: 'd' :: text) 0 0 0 =
      (a2bBase64 text 3 1 0).map fun more => 0x72 :: 0x87 :: more := by
    intro text
    have hchars : 'c' :: 'o' :: 'd' :: text = base64Char 28 :: base64Char 40 :: base64Char 29 :: text := rfl
    rw [hchars, a2bBase64_first (by decide), a2bBase64_second (by decide), a2bBase64_third (by decide), Option.map_map]
    rfl
  obtain ⟨more, rfl⟩ : ∃ more, bytes = 0x72 :: 0x87 :: more := by
    unfold b64decode urlsafeB64decode at h
    split at h
    · rw [List.cons_append, List.cons_append, List.cons_append, hread] at h
      obtain ⟨more, -, hmore⟩ := Option.map_eq_some_iff.mp h
      exact ⟨more, hmore.symm⟩
    · exact nomatch h
  -- 0x87 continues a character that was not begun
  have hutf8 : utf8Decode true (0x72 :: 0x87 :: more) = none := by
    rw [utf8Decode.eq_def]
    dsimp only
    rw [if_pos (by decide), utf8Decode.eq_def]
    dsimp only
    rw [if_neg (by decide)]
    rcases more with _ | ⟨b, _ | ⟨c, _ | ⟨d, more⟩⟩⟩
    · rfl
    · rfl
    · rfl
    · rfl
  have hdetected : decodeDetected (0x72 :: 0x87 :: more) = none := by
    rcases more with _ | ⟨b, _ | ⟨c, more⟩⟩
    · exact hutf8
    · exact hutf8
    · exact hutf8
  rw [PyJson.loads, hdetected]
  rfl

theorem ascii_ofNat_inj {c d : Char} (hc : isAscii c = true) (hd : isAscii d = true)
    (h : UInt8.ofNat c.toNat = UInt8.ofNat d.toNat) : c = d := by
  rw [← Char.toNat_inj, ← toNat_ofNat_ascii hc, h, toNat_ofNat_ascii hd]

/-- **What an access token signs is no input of the code of an unsubscribe token.** -/
theorem signingInput_ne_macInput {recursionLimit : Nat} {text : List Char} {t : Auth.ReadToken}
    (h : Auth.readToken recursionLimit text = some t) (payload : List UInt8) :
    t.signingInput.map (fun c => UInt8.ofNat c.toNat) ≠ macInput payload := by
  intro heq
  have hascii : ∀ c ∈ t.signingInput, isAscii c = true := List.all_eq_true.mp (Auth.isAscii_signingInput h)
  obtain ⟨more, hmore⟩ : ∃ more, macInput payload =
      UInt8.ofNat 'c'.toNat :: UInt8.ofNat 'o'.toNat :: UInt8.ofNat 'd'.toNat :: more := ⟨_, rfl⟩
  obtain ⟨-, ⟨bytes, hdecode, hloads⟩, -⟩ := Auth.readToken_some h
  rw [hmore] at heq
  unfold Auth.ReadToken.signingInput at heq hascii
  -- the dot behind the header is none of the first three characters
  rcases hheader : t.headerB64 with _ | ⟨a, _ | ⟨b, _ | ⟨c, rest⟩⟩⟩
  · rw [hheader] at heq
    exact absurd (List.cons.inj heq).1 (by decide)
  · rw [hheader] at heq
    exact absurd (List.cons.inj (List.cons.inj heq).2).1 (by decide)
  · rw [hheader] at heq
    exact absurd (List.cons.inj (List.cons.inj (List.cons.inj heq).2).2).1 (by decide)
  · rw [hheader] at heq hascii hdecode
    obtain ⟨ha, heq⟩ := List.cons.inj heq
    obtain ⟨hb, heq⟩ := List.cons.inj heq
    obtain ⟨hc, -⟩ := List.cons.inj heq
    have ha' : a = 'c' := ascii_ofNat_inj (hascii a List.mem_cons_self) rfl ha
    have hb' : b = 'o' := ascii_ofNat_inj (hascii b (List.mem_cons_of_mem _ List.mem_cons_self)) rfl hb
    have hc' : c = 'd' := ascii_ofNat_inj (hascii c (List.mem_cons_of_mem _ (List.mem_cons_of_mem _ List.mem_cons_self))) rfl hc
    rw [ha', hb', hc'] at hdecode
    exact nomatch (loads_domain recursionLimit hdecode).symm.trans hloads

/-- **The codec of unsubscribe tokens**, whatever the code is.  What is minted is parsed, while its secret is configured.  A
text is parsed to what is coded in it under a configured secret, or invalid; if codes of different inputs differ, then what
carries the code of a minted token says what that token says.  No access token is parsed, no unsubscribe token is verified, and
what is coded for the one is nothing that is signed for the other. -/
theorem unsubscribeToken_codec (hmac : Hmac) (recursionLimit : Nat) (render : PyJson → Option (List Nat))
    (secrets : List String) (nowTs : Int) :
    (∀ userId < 2 ^ 128, ∀ (kind : SuppressionKind), ∀ secret ∈ secrets, ∀ others,
      ∃ token, mintUnsubscribeToken hmac (secret :: others) userId kind.name = .ok token ∧
        parseUnsubscribeToken hmac secrets token = .ok (userId, kind)) ∧
    (∀ token, (∃ userId kind, parseUnsubscribeToken hmac secrets token = .ok (userId, kind) ∧
        MacedUnder hmac secrets token userId kind) ∨
      parseUnsubscribeToken hmac secrets token = .error .invalidUnsubscribeToken) ∧
    ((∀ key key' message message', hmac key message = hmac key' message' → message = message') →
      ∀ token userId kind userId' kind' payload secret, userId' < 2 ^ 128 →
        parseUnsubscribeToken hmac secrets token = .ok (userId, kind) →
        Carries token payload (mac hmac (mintedPayload userId' kind') secret) → userId = userId' ∧ kind = kind') ∧
    (∀ token, IsAccessToken hmac recursionLimit render secrets nowTs token →
      ∀ secrets', parseUnsubscribeToken hmac secrets' token = .error .invalidUnsubscribeToken) ∧
    (∀ token, IsUnsubscribeToken hmac secrets token →
      ∀ secrets' nowTs', Auth.verifyAccessToken hmac recursionLimit render token secrets' nowTs' = .error .tokenError) ∧
    ∀ text t payload, Auth.readToken recursionLimit text = some t →
      t.signingInput.map (fun c => UInt8.ofNat c.toNat) ≠ macInput payload :=
  ⟨fun _ h kind _ hsecret others => parse_mint hmac h kind hsecret others,
    parse_total hmac secrets,
    fun hinjective _ _ _ _ _ _ _ h hparse hcarries => payload_of_mac hinjective h hparse hcarries rfl,
    fun _ h secrets' => parse_accessToken h secrets',
    fun _ h secrets' nowTs' => verify_unsubscribeToken h recursionLimit render secrets' nowTs',
    fun _ _ payload h => signingInput_ne_macInput h payload⟩

/-- A token that was minted before a rotation of the secrets; the code is the message itself. -/
theorem unsubscribeToken_codec_rotated :
    (∃ token, mintUnsubscribeToken (fun _ message => message) ["old"] 5 "all" = .ok token ∧
      parseUnsubscribeToken (fun _ message => message) ["new", "old"] token = .ok (5, .all)) ∧
    ∀ token userId kind payload,
      parseUnsubscribeToken (fun _ message => message) ["new", "old"] token = .ok (userId, kind) →
      Carries token payload (mac (fun _ message => message) (mintedPayload 5 .all) "old") → userId = 5 ∧ kind = .all :=
  have h := unsubscribeToken_codec (fun _ message => message) 1000 (fun _ => none) ["new", "old"] 0
  ⟨h.1 5 (by decide) .all "old" (by decide) [],
    fun token userId kind payload => h.2.2.1 (fun _ _ _ _ heq => heq) token userId kind 5 .all payload "old" (by decide)⟩

/-! ## The route -/

/-- The parser that the settings have. -/
def configuredParser (hmac : Hmac) (secrets : List String) (token : String) : Option (UserId × SuppressionKind) :=
  (parseUnsubscribeToken hmac secrets token).toOption

/-- **A minted token unsubscribes its user** of its kind. -/
theorem applyUnsubscribe_minted {settings : Settings} {hmac : Hmac} {secrets : List String}
    (hsettings : settings.parseUnsubscribeToken = configuredParser hmac secrets) {userId : Nat} (h : userId < 2 ^ 128)
    (kind : SuppressionKind) {secret : String} (hsecret : secret ∈ secrets) (others : List String) :
    ∃ token, mintUnsubscribeToken hmac (secret :: others) userId kind.name = .ok token ∧
      applyUnsubscribe settings token = (do
        suppress userId kind "unsubscribe" "email_link"
        Txn.Prog.commitTx
        return kind) := by
  obtain ⟨token, hmint, hparse⟩ := parse_mint hmac h kind hsecret others
  refine ⟨token, hmint, ?_⟩
  rw [applyUnsubscribe, hsettings, configuredParser, hparse]
  rfl

end CodeReader.Email
