import CodeReader.Text.Base64
import CodeReader.Text.Lines
import CodeReader.Text.Regex

/-!
# `app/email/address.py`: normalizing an address

* `normalizeEmail` — the checks in their order, with what the user is told;
* `Acceptable` — the addresses that pass, declaratively;
* `normalizeEmail_ok_iff` — **exactly these are accepted, in lower case**;
* `normalizeEmail_law` — **and what is returned is ASCII, has one `@` and nothing to inject a header with, and normalizes to
  itself**.
-/

namespace CodeReader.Email

open Text

/-- `str.lower`, known on ASCII. -/
structure StrLower where
  lower : List Char → List Char
  ascii : ∀ text, text.all isAscii = true → lower text = text.map Char.toLower

def maxEmailLength : Nat := 254
def maxLocalLength : Nat := 64

/-- `_CONTROL_CHARS`. -/
def isControl (c : Char) : Bool := c.toNat ≤ 0x1F || c.toNat = 0x7F

def alphanumeric : List Char := "ABCDEFGHIJKLMNOPQRSTUVWXYZabcdefghijklmnopqrstuvwxyz0123456789".toList

/-- The characters of an atom. -/
def atext : List Char := alphanumeric ++ "!#$%&'*+/=?^_`\x7b|\x7d~-".toList

/-- `_LOCAL_RE`. -/
def localRe : RegularExpression Char := separatedBy '.' (oneOrMore (oneOf atext))

/-- `_LABEL_RE`. -/
def labelRe : RegularExpression Char :=
  oneOf alphanumeric * optional ((oneOf (alphanumeric ++ ['-'])).star * oneOf alphanumeric)

/-- `text.rpartition(sep)`, without a separator if there is none. -/
def rpartition (sep : Char) (text : List Char) : Option (List Char × List Char) :=
  if sep ∈ text then some ((text.rdropWhile (· ≠ sep)).dropLast, text.rtakeWhile (· ≠ sep)) else none

def looksWrong : String := "That email address doesn't look right."

def normalizeEmail (py : StrLower) (raw : List Char) : Except String (List Char) :=
  let value := strip raw
  if value = [] then .error "Enter an email address."
  else if value.any isControl then .error "That email address contains characters we can't accept."
  else if value.length > maxEmailLength then .error "That email address is too long."
  else if value.any isWhitespace then .error looksWrong
  else
    match rpartition '@' value with
    | none => .error looksWrong
    | some (localPart, domain) =>
      if localPart = [] ∨ domain = [] then .error looksWrong
      else if localPart.length > maxLocalLength then .error "That email address is too long."
      else if !matchLine localRe localPart then .error looksWrong
      else
        let labels := domain.splitOn '.'
        if labels.length < 2 ∨ !labels.all (matchLine labelRe) then .error looksWrong
        else if (labels.getLast?.getD []).length < 2 then .error looksWrong
        else .ok (py.lower value)

example : (normalizeEmail ⟨List.map Char.toLower, fun _ _ => rfl⟩ " Ada.L@Ex-1.com\n".toList).toOption = some "ada.l@ex-1.com".toList := by
  decide +kernel

/-! ## The addresses that pass -/

/-- Atoms with dots between them. -/
def DotAtom (text : List Char) : Prop := ∀ atom ∈ text.splitOn '.', atom ≠ [] ∧ ∀ c ∈ atom, c ∈ atext

/-- Letters and digits, and hyphens inside. -/
structure Label (text : List Char) : Prop where
  chars : ∀ c ∈ text, c ∈ alphanumeric ∨ c = '-'
  first : ∃ c ∈ text.head?, c ∈ alphanumeric
  last : ∃ c ∈ text.getLast?, c ∈ alphanumeric

structure Domain (text : List Char) : Prop where
  several : 2 ≤ (text.splitOn '.').length
  labels : ∀ label ∈ text.splitOn '.', Label label
  top : ∃ label ∈ (text.splitOn '.').getLast?, 2 ≤ label.length

/-- A control character, of ASCII or not. -/
def isCc (c : Char) : Bool := c.toNat < 0x20 || (0x7F ≤ c.toNat && c.toNat < 0xA0)

structure Acceptable (value : List Char) : Prop where
  length : 1 ≤ value.length ∧ value.length ≤ 254
  clean : ∀ c ∈ value, isCc c = false ∧ isWhitespace c = false
  parts : ∃ localPart domain, value = localPart ++ '@' :: domain ∧ (DotAtom localPart ∧ localPart.length ≤ 64) ∧ Domain domain

/-! ## The patterns -/

theorem dot_notMem_atext : '.' ∉ atext := by decide +kernel

theorem splitOn_atoms {pieces : List (List Char)} (hne : pieces ≠ []) (h : ∀ piece ∈ pieces, '.' ∉ piece) :
    (['.'].intercalate pieces).splitOn '.' = pieces := List.splitOn_intercalate '.' h hne

/-- **The local part is atoms with dots between them.** -/
theorem mem_localRe {text : List Char} : text ∈ localRe.matches' ↔ DotAtom text := by
  rw [localRe, mem_separatedBy]
  constructor
  · rintro ⟨pieces, hne, hpieces, rfl⟩
    have hatoms : ∀ piece ∈ pieces, piece ≠ [] ∧ ∀ c ∈ piece, c ∈ atext := fun piece hpiece =>
      mem_oneOrMore_oneOf.mp (hpieces piece hpiece)
    have hdots : ∀ piece ∈ pieces, '.' ∉ piece := fun piece hpiece hdot => dot_notMem_atext ((hatoms piece hpiece).2 '.' hdot)
    rw [DotAtom, splitOn_atoms hne hdots]
    exact hatoms
  · intro h
    exact ⟨text.splitOn '.', List.splitOn_ne_nil '.' text, fun piece hpiece => mem_oneOrMore_oneOf.mpr (h piece hpiece),
      (List.intercalate_splitOn '.').symm⟩

/-- **A label is letters and digits, and hyphens inside.** -/
theorem mem_labelRe {text : List Char} : text ∈ labelRe.matches' ↔ Label text := by
  rw [labelRe, RegularExpression.matches'_mul, Language.mem_mul]
  constructor
  · rintro ⟨first, hfirst, rest, hrest, rfl⟩
    obtain ⟨a, ha, rfl⟩ := mem_oneOf.mp hfirst
    rcases mem_optional.mp hrest with rfl | hrest
    · exact ⟨List.forall_mem_singleton.mpr (.inl ha), ⟨a, rfl, ha⟩, ⟨a, rfl, ha⟩⟩
    · rw [RegularExpression.matches'_mul, Language.mem_mul] at hrest
      obtain ⟨middle, hmiddle, final, hfinal, rfl⟩ := hrest
      obtain ⟨b, hb, rfl⟩ := mem_oneOf.mp hfinal
      have hinside : ∀ c ∈ middle, c ∈ alphanumeric ∨ c = '-' := fun c hc => by
        simpa using mem_star_oneOf.mp hmiddle c hc
      refine ⟨?_, ⟨a, rfl, ha⟩, ⟨b, ?_, hb⟩⟩
      · intro c hc
        rcases List.mem_append.mp hc with hc | hc
        · exact .inl (List.mem_singleton.mp hc ▸ ha)
        · rcases List.mem_append.mp hc with hc | hc
          · exact hinside c hc
          · exact .inl (List.mem_singleton.mp hc ▸ hb)
      · rw [← List.append_assoc, List.getLast?_concat]
        rfl
  · rintro ⟨hchars, ⟨a, hfirst, ha⟩, ⟨b, hlast, hb⟩⟩
    obtain ⟨rest, rfl⟩ : ∃ rest, text = a :: rest := by
      cases text with
      | nil => cases hfirst
      | cons c rest => exact ⟨rest, by cases hfirst; rfl⟩
    refine ⟨[a], mem_oneOf.mpr ⟨a, ha, rfl⟩, rest, mem_optional.mpr ?_, rfl⟩
    rcases List.eq_nil_or_concat rest with rfl | ⟨middle, c, rfl⟩
    · exact .inl rfl
    · have hc : c = b := by
        rw [List.concat_eq_append, ← List.cons_append, List.getLast?_concat] at hlast
        exact Option.some.inj hlast
      refine .inr ?_
      rw [RegularExpression.matches'_mul, Language.mem_mul]
      refine ⟨middle, mem_star_oneOf.mpr fun d hd => ?_, [c], mem_oneOf.mpr ⟨c, hc ▸ hb, rfl⟩, List.concat_eq_append.symm⟩
      have hd := hchars d (List.mem_cons_of_mem a (List.concat_eq_append ▸ List.mem_append_left [c] hd))
      simpa using hd

theorem rpartition_append {sep : Char} (before : List Char) {after : List Char} (h : sep ∉ after) :
    rpartition sep (before ++ sep :: after) = some (before, after) := by
  have hmem : sep ∈ before ++ sep :: after := List.mem_append_right before List.mem_cons_self
  have hafter : ∀ c ∈ after, decide (c ≠ sep) = true := fun c hc => decide_eq_true fun he => h (he ▸ hc)
  have htake : (before ++ sep :: after).rtakeWhile (· ≠ sep) = after := by
    rw [List.rtakeWhile, List.reverse_append, List.reverse_cons, List.append_assoc,
      List.takeWhile_append_of_pos fun c hc => hafter c (List.mem_reverse.mp hc)]
    simp
  have hdrop : (before ++ sep :: after).rdropWhile (· ≠ sep) = before ++ [sep] := by
    rw [List.rdropWhile, List.reverse_append, List.reverse_cons, List.append_assoc,
      List.dropWhile_append_of_pos fun c hc => hafter c (List.mem_reverse.mp hc)]
    simp
  rw [rpartition, if_pos hmem, htake, hdrop, List.dropLast_concat]

theorem rpartition_some {sep : Char} {text before after : List Char} :
    rpartition sep text = some (before, after) ↔ text = before ++ sep :: after ∧ sep ∉ after := by
  constructor
  · intro h
    have hmem : sep ∈ text := by
      by_contra hnot
      rw [rpartition, if_neg hnot] at h
      cases h
    obtain ⟨tail, init, hrev, hnot⟩ := List.eq_append_cons_of_mem (List.mem_reverse.mpr hmem)
    have htext : text = init.reverse ++ sep :: tail.reverse := by
      rw [← List.reverse_reverse text, hrev]
      simp
    have htail : sep ∉ tail.reverse := fun hmem => hnot (List.mem_reverse.mp hmem)
    rw [htext, rpartition_append _ htail] at h
    cases h
    exact ⟨htext, htail⟩
  · rintro ⟨rfl, h⟩
    exact rpartition_append before h

/-! ## What is accepted -/

section Accepted

variable {value localPart domain : List Char}

/-- All the characters of an address. -/
def addressChars : List Char := '@' :: '.' :: atext

theorem addressChars_clean : ∀ c ∈ addressChars, isCc c = false ∧ isWhitespace c = false ∧ isControl c = false ∧ isAscii c = true := by
  have hall : addressChars.all (fun c => !isCc c && !isWhitespace c && !isControl c && isAscii c) = true := by decide +kernel
  intro c hc
  have h := List.all_eq_true.mp hall c hc
  simpa [and_assoc] using h

/-- The characters of a text are those of its pieces, and separators. -/
theorem forall_mem_of_splitOn {P : Char → Prop} {sep : Char} {text : List Char} (hsep : P sep)
    (h : ∀ piece ∈ text.splitOn sep, ∀ c ∈ piece, P c) : ∀ c ∈ text, P c := by
  have hgen : ∀ pieces : List (List Char), (∀ piece ∈ pieces, ∀ c ∈ piece, P c) → ∀ c ∈ [sep].intercalate pieces, P c := by
    intro pieces hpieces c hc
    rcases mem_intercalate_singleton hc with rfl | ⟨piece, hpiece, hmem⟩
    · exact hsep
    · exact hpieces piece hpiece c hmem
  have htext := hgen (text.splitOn sep) h
  rwa [List.intercalate_splitOn] at htext

theorem DotAtom.chars (h : DotAtom localPart) : ∀ c ∈ localPart, c = '.' ∨ c ∈ atext :=
  forall_mem_of_splitOn (.inl rfl) fun atom hatom c hc => .inr ((h atom hatom).2 c hc)

theorem Domain.chars (h : Domain domain) : ∀ c ∈ domain, c = '.' ∨ c ∈ alphanumeric ∨ c = '-' :=
  forall_mem_of_splitOn (.inl rfl) fun label hlabel c hc => .inr ((h.labels label hlabel).chars c hc)

theorem matchLine_localRe (h : '\n' ∉ localPart) : matchLine localRe localPart = true ↔ DotAtom localPart :=
  (matchLine_iff h).trans mem_localRe

theorem all_matchLine_labelRe (h : '\n' ∉ domain) :
    (domain.splitOn '.').all (matchLine labelRe) = true ↔ ∀ label ∈ domain.splitOn '.', Label label := by
  rw [List.all_eq_true]
  refine forall₂_congr fun label hlabel => (matchLine_iff fun hmem => h ?_).trans mem_labelRe
  have htext : '\n' ∈ ['.'].intercalate (domain.splitOn '.') := mem_intercalate_of_mem hlabel hmem
  rwa [List.intercalate_splitOn] at htext

/-- A check that is passed. -/
theorem check_eq_ok {ε β : Type} {failed : Prop} [Decidable failed] {e : ε} {next : Except ε β} {result : β} :
    (if failed then .error e else next) = .ok result ↔ ¬ failed ∧ next = .ok result := by
  by_cases h : failed
  · rw [if_pos h]
    exact ⟨fun he => absurd he (by simp), fun hn => absurd h hn.1⟩
  · rw [if_neg h]
    exact ⟨fun he => ⟨h, he⟩, And.right⟩

/-- The checks, one after the other. -/
theorem normalizeEmail_eq_ok {py : StrLower} {raw : List Char} (hvalue : strip raw = value) {result : List Char} :
    normalizeEmail py raw = .ok result ↔ value ≠ [] ∧ ¬ value.any isControl = true ∧ ¬ value.length > maxEmailLength ∧
      ¬ value.any isWhitespace = true ∧ ∃ localPart domain, rpartition '@' value = some (localPart, domain) ∧
        ¬ (localPart = [] ∨ domain = []) ∧ ¬ localPart.length > maxLocalLength ∧ ¬ (!matchLine localRe localPart) = true ∧
        ¬ ((domain.splitOn '.').length < 2 ∨ (!(domain.splitOn '.').all (matchLine labelRe)) = true) ∧
        ¬ ((domain.splitOn '.').getLast?.getD []).length < 2 ∧ py.lower value = result := by
  unfold normalizeEmail
  rw [hvalue]
  dsimp only
  rw [check_eq_ok, check_eq_ok, check_eq_ok, check_eq_ok]
  refine and_congr_right fun _ => and_congr_right fun _ => and_congr_right fun _ => and_congr_right fun _ => ?_
  cases rpartition '@' value with
  | none =>
    constructor
    · intro h
      cases h
    · rintro ⟨_, _, h, -⟩
      cases h
  | some parts =>
    obtain ⟨localPart, domain⟩ := parts
    dsimp only
    rw [check_eq_ok, check_eq_ok, check_eq_ok, check_eq_ok, check_eq_ok, Except.ok.injEq]
    constructor
    · exact fun h => ⟨localPart, domain, rfl, h⟩
    · rintro ⟨_, _, hparts, h⟩
      cases hparts
      exact h

theorem alphanumeric_subset_atext : ∀ c, c ∈ alphanumeric ∨ c = '-' → c ∈ atext := by
  rintro c (h | rfl)
  · exact List.mem_append_left _ h
  · decide

theorem mem_addressChars_of_local {c : Char} (h : c = '.' ∨ c ∈ atext) : c ∈ addressChars :=
  List.mem_cons_of_mem _ (List.mem_cons.mpr h)

theorem mem_addressChars_of_domain {c : Char} (h : c = '.' ∨ c ∈ alphanumeric ∨ c = '-') : c ∈ addressChars :=
  mem_addressChars_of_local (h.imp_right (alphanumeric_subset_atext c))

theorem mem_addressChars (hlocal : DotAtom localPart) (hdomain : Domain domain) :
    ∀ c ∈ localPart ++ '@' :: domain, c ∈ addressChars := by
  intro c hc
  rcases List.mem_append.mp hc with hc | hc
  · exact mem_addressChars_of_local (hlocal.chars c hc)
  · rcases List.mem_cons.mp hc with rfl | hc
    · exact List.mem_cons_self
    · exact mem_addressChars_of_domain (hdomain.chars c hc)

theorem at_notMem_atext : '@' ∉ atext := by decide +kernel

theorem DotAtom.at_notMem (h : DotAtom localPart) : '@' ∉ localPart := fun hmem =>
  (h.chars '@' hmem).elim (absurd · (by decide)) at_notMem_atext

theorem Domain.at_notMem (h : Domain domain) : '@' ∉ domain := fun hmem =>
  (h.chars '@' hmem).elim (absurd · (by decide)) fun hc => at_notMem_atext (alphanumeric_subset_atext '@' hc)

theorem DotAtom.ne_nil (h : DotAtom localPart) : localPart ≠ [] := by
  rintro rfl
  exact (h [] (by decide)).1 rfl

theorem Domain.ne_nil (h : Domain domain) : domain ≠ [] := by
  rintro rfl
  exact absurd h.several (by decide)

theorem Acceptable.chars (h : Acceptable value) : ∀ c ∈ value, c ∈ addressChars := by
  obtain ⟨localPart, domain, rfl, hlocal, hdomain⟩ := h.parts
  exact mem_addressChars hlocal.1 hdomain

theorem Acceptable.ascii (h : Acceptable value) : value.all isAscii = true :=
  List.all_eq_true.mpr fun c hc => (addressChars_clean c (h.chars c hc)).2.2.2

/-- **What is accepted, and what is returned.** -/
theorem normalizeEmail_ok_iff {py : StrLower} {raw result : List Char} : normalizeEmail py raw = .ok result ↔
    Acceptable (strip raw) ∧ result = (strip raw).map Char.toLower := by
  rw [normalizeEmail_eq_ok rfl]
  constructor
  · rintro ⟨hempty, hcontrol, hlong, -, localPart, domain, hparts, -, hlocal, hatoms, hlabels, htop, rfl⟩
    obtain ⟨hvalue, -⟩ := rpartition_some.mp hparts
    have hnewline : '\n' ∉ strip raw := fun hmem => hcontrol (List.any_eq_true.mpr ⟨'\n', hmem, rfl⟩)
    rw [hvalue, List.mem_append, List.mem_cons, not_or, not_or] at hnewline
    rw [not_or, Bool.not_eq_true, Bool.not_eq_false', all_matchLine_labelRe hnewline.2.2] at hlabels
    rw [Bool.not_eq_true, Bool.not_eq_false', matchLine_localRe hnewline.1] at hatoms
    have hdomain : Domain domain := by
      refine ⟨Nat.le_of_not_lt hlabels.1, hlabels.2, ?_⟩
      cases hlast : (domain.splitOn '.').getLast? with
      | none => rw [hlast] at htop; exact absurd (by decide) htop
      | some label => rw [hlast] at htop; exact ⟨label, rfl, Nat.le_of_not_lt htop⟩
    have hchars := mem_addressChars hatoms hdomain
    rw [← hvalue] at hchars
    have haccept : Acceptable (strip raw) :=
      { length := ⟨List.length_pos_iff.mpr hempty, Nat.le_of_not_lt hlong⟩
        clean := fun c hc => ⟨(addressChars_clean c (hchars c hc)).1, (addressChars_clean c (hchars c hc)).2.1⟩
        parts := ⟨localPart, domain, hvalue, ⟨hatoms, Nat.le_of_not_lt hlocal⟩, hdomain⟩ }
    exact ⟨haccept, py.ascii _ haccept.ascii⟩
  · rintro ⟨h, rfl⟩
    obtain ⟨localPart, domain, hvalue, ⟨hatom, hlocal⟩, hdomain⟩ := h.parts
    have hcontrol : ∀ c ∈ strip raw, ¬ isControl c = true := fun c hc => by
      rw [(addressChars_clean c (h.chars c hc)).2.2.1]
      decide
    have hnewline : '\n' ∉ localPart ∧ '\n' ∉ domain := by
      refine ⟨fun hmem => hcontrol '\n' ?_ rfl, fun hmem => hcontrol '\n' ?_ rfl⟩
      · exact hvalue ▸ List.mem_append_left _ hmem
      · exact hvalue ▸ List.mem_append_right _ (List.mem_cons_of_mem _ hmem)
    refine ⟨List.length_pos_iff.mp h.length.1, ?_, Nat.not_lt_of_le h.length.2, ?_, localPart, domain,
      rpartition_some.mpr ⟨hvalue, hdomain.at_notMem⟩, not_or.mpr ⟨hatom.ne_nil, hdomain.ne_nil⟩, Nat.not_lt_of_le hlocal,
      ?_, not_or.mpr ⟨Nat.not_lt_of_le hdomain.several, ?_⟩, ?_, py.ascii _ h.ascii⟩
    · rintro hany
      obtain ⟨c, hc, hbad⟩ := List.any_eq_true.mp hany
      exact hcontrol c hc hbad
    · rintro hany
      obtain ⟨c, hc, hbad⟩ := List.any_eq_true.mp hany
      rw [(h.clean c hc).2] at hbad
      cases hbad
    · rw [(matchLine_localRe hnewline.1).mpr hatom]
      decide
    · rw [(all_matchLine_labelRe hnewline.2).mpr hdomain.labels]
      decide
    · obtain ⟨label, hlast, htop⟩ := hdomain.top
      rw [Option.mem_def.mp hlast]
      exact Nat.not_lt_of_le htop

/-! ## What is returned -/

theorem toLower_atext {c : Char} (h : c ∈ atext) : c.toLower ∈ atext := by
  have hall : atext.all (fun c => atext.contains c.toLower) = true := by decide +kernel
  exact List.contains_iff_mem.mp (List.all_eq_true.mp hall c h)

theorem toLower_alphanumeric {c : Char} (h : c ∈ alphanumeric) : c.toLower ∈ alphanumeric := by
  have hall : alphanumeric.all (fun c => alphanumeric.contains c.toLower) = true := by decide +kernel
  exact List.contains_iff_mem.mp (List.all_eq_true.mp hall c h)

/-- Letters do not become separators. -/
theorem toLower_separator {c : Char} (h : c ∈ addressChars) : (c.toLower = '.' → c = '.') ∧ (c.toLower = '@' → c = '@') ∧
    c.toLower ∈ addressChars ∧ c.toLower.toLower = c.toLower := by
  have hall : addressChars.all (fun c => (c.toLower != '.' || c == '.') && (c.toLower != '@' || c == '@') &&
      addressChars.contains c.toLower && c.toLower.toLower == c.toLower) = true := by decide +kernel
  have hc := List.all_eq_true.mp hall c h
  simp only [Bool.and_eq_true, Bool.or_eq_true, bne_iff_ne, beq_iff_eq, ne_eq, List.contains_eq_mem, decide_eq_true_eq] at hc
  exact ⟨fun hdot => hc.1.1.1.resolve_left (not_not.mpr hdot), fun hat => hc.1.1.2.resolve_left (not_not.mpr hat), hc.1.2, hc.2⟩

theorem splitOn_map {f : Char → Char} {sep : Char} {text : List Char} (hsep : f sep = sep)
    (h : ∀ c ∈ text, f c = sep → c = sep) : (text.map f).splitOn sep = (text.splitOn sep).map (List.map f) := by
  induction text with
  | nil => rfl
  | cons c text ih =>
    have hrest := ih fun d hd => h d (List.mem_cons_of_mem c hd)
    have hsame : (f c == sep) = (c == sep) := by
      rw [Bool.eq_iff_iff, beq_iff_eq, beq_iff_eq]
      exact ⟨h c List.mem_cons_self, fun hc => hc ▸ hsep⟩
    rw [List.map_cons, List.splitOn_cons_eq_if_modifyHead, List.splitOn_cons_eq_if_modifyHead, hrest, hsame]
    split_ifs
    · rfl
    · cases text.splitOn sep <;> rfl

theorem DotAtom.toLower (h : DotAtom localPart) : DotAtom (localPart.map Char.toLower) := by
  have hdots : ∀ c ∈ localPart, c.toLower = '.' → c = '.' := fun c hc =>
    (toLower_separator (mem_addressChars_of_local (h.chars c hc))).1
  rw [DotAtom, splitOn_map rfl hdots]
  intro atom hatom
  obtain ⟨piece, hpiece, rfl⟩ := List.mem_map.mp hatom
  refine ⟨fun he => (h piece hpiece).1 (List.map_eq_nil_iff.mp he), fun c hc => ?_⟩
  obtain ⟨d, hd, rfl⟩ := List.mem_map.mp hc
  exact toLower_atext ((h piece hpiece).2 d hd)

theorem Label.toLower {text : List Char} (h : Label text) : Label (text.map Char.toLower) where
  chars := by
    intro c hc
    obtain ⟨d, hd, rfl⟩ := List.mem_map.mp hc
    exact (h.chars d hd).imp toLower_alphanumeric fun he => by rw [he]; rfl
  first := by
    obtain ⟨c, hc, hmem⟩ := h.first
    exact ⟨c.toLower, by rw [List.head?_map, Option.mem_def.mp hc]; rfl, toLower_alphanumeric hmem⟩
  last := by
    obtain ⟨c, hc, hmem⟩ := h.last
    exact ⟨c.toLower, by rw [List.getLast?_map, Option.mem_def.mp hc]; rfl, toLower_alphanumeric hmem⟩

theorem Domain.toLower (h : Domain domain) : Domain (domain.map Char.toLower) := by
  have hdots : ∀ c ∈ domain, c.toLower = '.' → c = '.' := fun c hc =>
    (toLower_separator (mem_addressChars_of_domain (h.chars c hc))).1
  have hsplit := splitOn_map rfl hdots
  obtain ⟨top, hlast, htop⟩ := h.top
  refine ⟨by rw [hsplit, List.length_map]; exact h.several, ?_, top.map Char.toLower, ?_, by rw [List.length_map]; exact htop⟩
  · rw [hsplit]
    intro label hlabel
    obtain ⟨piece, hpiece, rfl⟩ := List.mem_map.mp hlabel
    exact (h.labels piece hpiece).toLower
  · rw [hsplit, List.getLast?_map, Option.mem_def.mp hlast]
    rfl

theorem Acceptable.toLower (h : Acceptable value) : Acceptable (value.map Char.toLower) where
  length := by rw [List.length_map]; exact h.length
  clean := by
    intro c hc
    obtain ⟨d, hd, rfl⟩ := List.mem_map.mp hc
    have hclean := addressChars_clean d.toLower (toLower_separator (h.chars d hd)).2.2.1
    exact ⟨hclean.1, hclean.2.1⟩
  parts := by
    obtain ⟨localPart, domain, rfl, ⟨hlocal, hlength⟩, hdomain⟩ := h.parts
    exact ⟨localPart.map Char.toLower, domain.map Char.toLower, by rw [List.map_append]; rfl,
      ⟨hlocal.toLower, by rw [List.length_map]; exact hlength⟩, hdomain.toLower⟩

theorem strip_of_clean {text : List Char} (h : ∀ c ∈ text, isWhitespace c = false) : strip text = text := by
  have hleft : text.dropWhile isWhitespace = text := by
    cases text with
    | nil => rfl
    | cons c text => exact List.dropWhile_cons_of_neg (by rw [h c List.mem_cons_self]; decide)
  rw [strip, hleft, List.rdropWhile_eq_self_iff]
  intro hne
  rw [h _ (List.getLast_mem hne)]
  decide

theorem Acceptable.count_at (h : Acceptable value) : value.count '@' = 1 := by
  obtain ⟨localPart, domain, rfl, ⟨hlocal, -⟩, hdomain⟩ := h.parts
  rw [List.count_append, List.count_cons_self, List.count_eq_zero_of_not_mem hlocal.at_notMem,
    List.count_eq_zero_of_not_mem hdomain.at_notMem]

/-- What `normalize_email` returns for a trimmed value. -/
structure Normalized (py : StrLower) (trimmed value : List Char) : Prop where
  idempotent : normalizeEmail py value = .ok value
  ascii : value.all isAscii = true
  clean : ∀ c ∈ value, isCc c = false ∧ isWhitespace c = false
  one_at : value.count '@' = 1
  letter_case : value = trimmed.map Char.toLower

/-- **The law of normalization.** -/
theorem normalizeEmail_law (py : StrLower) (raw : List Char) :
    ((∃ value, normalizeEmail py raw = .ok value) ↔ Acceptable (strip raw)) ∧
      ∀ value, normalizeEmail py raw = .ok value → Normalized py (strip raw) value := by
  constructor
  · constructor
    · rintro ⟨value, h⟩
      exact (normalizeEmail_ok_iff.mp h).1
    · intro h
      exact ⟨_, normalizeEmail_ok_iff.mpr ⟨h, rfl⟩⟩
  · intro value h
    obtain ⟨haccept, rfl⟩ := normalizeEmail_ok_iff.mp h
    have hlower := haccept.toLower
    have hstrip := strip_of_clean fun c hc => (hlower.clean c hc).2
    have htwice : ((strip raw).map Char.toLower).map Char.toLower = (strip raw).map Char.toLower := by
      rw [List.map_map]
      exact List.map_congr_left fun c hc => (toLower_separator (haccept.chars c hc)).2.2.2
    exact
      { idempotent := normalizeEmail_ok_iff.mpr ⟨hstrip.symm ▸ hlower, by rw [hstrip, htwice]⟩
        ascii := hlower.ascii
        clean := hlower.clean
        one_at := hlower.count_at
        letter_case := rfl }

end Accepted

end CodeReader.Email
