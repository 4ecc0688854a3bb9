import CodeReader.Pipeline.SemanticGates
import CodeReader.Text.Json
import CodeReader.Text.Replace
import Mathlib.Data.List.Nodup

/-!
# Prompts

A template is rendered by replacing the placeholders of one variable after the other; the values are texts that others
have written.

* `render` — the loop over the variables;
* `specVariables`, `wrongFixVariables` and others — what the templates are rendered with;
* `tokens`, `fillWith` — the template taken apart, and put together with values: simultaneous substitution;
* `render_simultaneous_iff` — **when the loop substitutes simultaneously**, and the order does not matter.
-/

namespace CodeReader.Pipeline

open Text Replace

/-! ## Rendering -/

/-- The name of a variable. -/
structure VarName where
  text : String
  plain : (text.toList.all fun c => c ≠ '{' && c ≠ '}') = true
  deriving DecidableEq

/-- The name between double braces. -/
def placeholder (k : VarName) : List Char := '{' :: '{' :: (k.text.toList ++ ['}', '}'])

/-- `_render`. -/
def render (template : List Char) (entries : List (VarName × String)) : List Char :=
  entries.foldl (fun rendered entry => replaceAll (placeholder entry.1) entry.2.toList rendered) template

/-- A dictionary of variables, in its order. -/
structure Variables where
  entries : List (VarName × String)
  distinct : (entries.map Prod.fst).Nodup

/-! ## The variables of the templates -/

def pythonVersion : String := "3.12"

section Names

def pythonVersionName : VarName := ⟨"python_version", by decide +kernel⟩
def conceptName : VarName := ⟨"concept", by decide +kernel⟩
def difficultyName : VarName := ⟨"difficulty", by decide +kernel⟩
def domainName : VarName := ⟨"domain", by decide +kernel⟩
def lineBudgetMinName : VarName := ⟨"line_budget_min", by decide +kernel⟩
def lineBudgetMaxName : VarName := ⟨"line_budget_max", by decide +kernel⟩
def avoidPatternsName : VarName := ⟨"avoid_patterns", by decide +kernel⟩
def hasBugName : VarName := ⟨"has_bug", by decide +kernel⟩
def buggyCodeName : VarName := ⟨"buggy_code", by decide +kernel⟩
def fixedCodeName : VarName := ⟨"fixed_code", by decide +kernel⟩
def testCodeName : VarName := ⟨"test_code", by decide +kernel⟩
def payloadJsonName : VarName := ⟨"payload_json", by decide +kernel⟩
def reasonOptionsJsonName : VarName := ⟨"reason_options_json", by decide +kernel⟩
def failedCheckName : VarName := ⟨"failed_check", by decide +kernel⟩
def failureEvidenceName : VarName := ⟨"failure_evidence", by decide +kernel⟩
def originalCandidateJsonName : VarName := ⟨"original_candidate_json", by decide +kernel⟩

end Names

/-- `_spec_variables`. -/
def specVariables (spec : ExerciseSpec) : Variables where
  entries :=
    [(pythonVersionName, pythonVersion), (conceptName, spec.concept), (difficultyName, toString spec.difficulty.val),
      (domainName, spec.domain), (lineBudgetMinName, toString spec.lineBudgetMin),
      (lineBudgetMaxName, toString spec.lineBudgetMax),
      (avoidPatternsName, (Json.arr (spec.avoidPatterns.map Json.str)).dumps)] ++
    if spec.type = "spot_the_bug" then [(hasBugName, if spec.hasBug = some true then "true" else "false")] else []
  distinct := by
    have hall : [pythonVersionName, conceptName, difficultyName, domainName,
        lineBudgetMinName, lineBudgetMaxName, avoidPatternsName, hasBugName].Nodup := by decide +kernel
    split
    · exact hall
    · exact hall.sublist (List.prefix_append _ [hasBugName]).sublist

def wrongFixVariables (buggyCode fixedCode testCode concept domain : String) : Variables where
  entries := [(pythonVersionName, pythonVersion), (conceptName, concept), (domainName, domain),
    (buggyCodeName, buggyCode), (fixedCodeName, fixedCode), (testCodeName, testCode)]
  distinct := (by decide +kernel : [pythonVersionName, conceptName, domainName, buggyCodeName, fixedCodeName, testCodeName].Nodup)

def defectAuditVariables (buggyCode : String) : Variables where
  entries := [(pythonVersionName, pythonVersion), (buggyCodeName, numberLines buggyCode)]
  distinct := (by decide +kernel : [pythonVersionName, buggyCodeName].Nodup)

/-- The payload as a text, its code with numbered lines. -/
def solverVariables (payloadJson : String) : Variables where
  entries := [(payloadJsonName, payloadJson)]
  distinct := (by decide +kernel : [payloadJsonName].Nodup)

def reasonsVariables (buggyCode reasonOptionsJson : String) : Variables where
  entries := [(pythonVersionName, pythonVersion), (buggyCodeName, numberLines buggyCode),
    (reasonOptionsJsonName, reasonOptionsJson)]
  distinct := (by decide +kernel : [pythonVersionName, buggyCodeName, reasonOptionsJsonName].Nodup)

/-- The candidate as a text. -/
def repairVariables (failedCheck evidence originalCandidateJson : String) : Variables where
  entries := [(pythonVersionName, pythonVersion), (failedCheckName, failedCheck), (failureEvidenceName, evidence),
    (originalCandidateJsonName, originalCandidateJson)]
  distinct := (by decide +kernel : [pythonVersionName, failedCheckName, failureEvidenceName, originalCandidateJsonName].Nodup)

/-! ## Simultaneous substitution -/

/-- A template is made of characters and placeholders. -/
inductive Token
  | chr (c : Char)
  | var (k : VarName)
  deriving DecidableEq

/-- The placeholders of these names, from the left; the characters of one that has been read are skipped. -/
def tokensFrom (names : List VarName) : Nat → List Char → List Token
  | _, [] => []
  | skip + 1, _ :: text => tokensFrom names skip text
  | 0, c :: text =>
    match names.find? fun k => decide (placeholder k <+: c :: text) with
    | some k => .var k :: tokensFrom names ((placeholder k).length - 1) text
    | none => .chr c :: tokensFrom names 0 text

/-- The placeholders of the variables in a template. -/
def tokens (vars : Variables) (template : List Char) : List Token := tokensFrom (vars.entries.map Prod.fst) 0 template

/-- The value of a variable; without one its placeholder stays. -/
def valueOf (entries : List (VarName × String)) (k : VarName) : List Char :=
  match entries.find? fun entry => decide (entry.1 = k) with
  | some entry => entry.2.toList
  | none => placeholder k

def Token.fill (entries : List (VarName × String)) : Token → List Char
  | .chr c => [c]
  | .var k => valueOf entries k

/-- The template with each placeholder of these variables replaced by its value. -/
def fillWith (entries : List (VarName × String)) (toks : List Token) : List Char := toks.flatMap (Token.fill entries)

def simultaneous (vars : Variables) (template : List Char) : List Char := fillWith vars.entries (tokens vars template)

/-- After each variable the text is the template with the placeholders of the variables so far replaced, and nothing
else. -/
def SubstitutesSimultaneously (vars : Variables) (template : List Char) : Prop :=
  ∀ n, render template (vars.entries.take n) = fillWith (vars.entries.take n) (tokens vars template)

/-- No inserted text makes up a placeholder, alone or with what is around it: once the variables in front are
substituted, the placeholder of the next stands where the template has it, and nowhere else.  (A value that is its own
placeholder does not matter.) -/
def InsertsNoPlaceholder (vars : Variables) (template : List Char) : Prop :=
  ∀ n entry, vars.entries[n]? = some entry →
    occurrences (placeholder entry.1) (fillWith (vars.entries.take n) (tokens vars template)) =
      (tokens vars template).count (.var entry.1) ∨ entry.2.toList = placeholder entry.1

/-! ## Placeholders -/

section Placeholders

variable {k k' : VarName} {names names' : List VarName} {text : List Char}

theorem placeholder_ne_nil (k : VarName) : placeholder k ≠ [] := List.cons_ne_nil _ _

theorem VarName.not_brace (k : VarName) {c : Char} (h : c ∈ k.text.toList) : c ≠ '{' ∧ c ≠ '}' := by
  have hplain := List.all_eq_true.mp k.plain c h
  obtain ⟨hopen, hclose⟩ := Bool.and_eq_true_iff.mp hplain
  exact ⟨of_decide_eq_true hopen, of_decide_eq_true hclose⟩

/-- Behind the braces at its front no brace opens. -/
theorem not_open_of_mem (k : VarName) {c : Char} (h : c ∈ k.text.toList ++ ['}', '}']) : c ≠ '{' := by
  rcases List.mem_append.mp h with hname | hclose
  · exact (k.not_brace hname).1
  · have hc : c = '}' := by simpa using hclose
    rw [hc]
    decide

/-- **Placeholders do not overlap.** -/
theorem unbordered_placeholder (k : VarName) : Unbordered (placeholder k) := by
  intro s hprefix hsuffix
  cases s with
  | nil => exact Or.inl rfl
  | cons c s =>
    right
    obtain ⟨rfl, hrest⟩ := List.cons_prefix_cons.mp hprefix
    rcases List.suffix_cons_iff.mp hsuffix with hall | hsuffix
    · exact hall
    · exfalso
      rcases List.suffix_cons_iff.mp hsuffix with hall | hsuffix
      · -- the name and the braces behind it cannot begin with a brace that opens
        obtain ⟨-, rfl⟩ := List.cons.inj hall
        cases hname : k.text.toList ++ ['}', '}'] with
        | nil => exact List.cons_ne_nil _ _ (List.append_eq_nil_iff.mp hname).2
        | cons c rest =>
          rw [hname] at hrest
          obtain ⟨rfl, -⟩ := List.cons_prefix_cons.mp hrest
          exact not_open_of_mem k (hname ▸ List.mem_cons_self) rfl
      · exact not_open_of_mem k (hsuffix.subset List.mem_cons_self) rfl

/-- What a placeholder is of is read off its text. -/
theorem eq_of_placeholders (h : placeholder k <+: text) (h' : placeholder k' <+: text) : k = k' := by
  have hname : ∀ {k : VarName}, placeholder k <+: text → (text.drop 2).takeWhile (· ≠ '}') = k.text.toList := by
    rintro k ⟨rest, rfl⟩
    have hdrop : (placeholder k ++ rest).drop 2 = k.text.toList ++ '}' :: '}' :: rest := by
      simp [placeholder]
    rw [hdrop, List.takeWhile_append_of_pos fun c hc => decide_eq_true (k.not_brace hc).2]
    simp
  have htext : k.text = k'.text := String.toList_inj.mp ((hname h).symm.trans (hname h'))
  cases k
  cases k'
  cases htext
  rfl

theorem prefix_of_find? (h : (names.find? fun k => decide (placeholder k <+: text)) = some k) : placeholder k <+: text := by
  have hfound := List.find?_some h
  exact of_decide_eq_true hfound

/-- Taking a template apart and leaving every placeholder gives the template. -/
theorem fillWith_nil_tokensFrom (names : List VarName) (skip : Nat) (text : List Char) :
    fillWith [] (tokensFrom names skip text) = text.drop skip := by
  induction text generalizing skip with
  | nil => cases skip <;> rfl
  | cons c text ih =>
    cases skip with
    | succ skip => exact ih skip
    | zero =>
      rw [tokensFrom]
      split
      · rename_i k hk
        obtain ⟨rest, hrest⟩ := prefix_of_find? hk
        have hcons : fillWith [] (.var k :: tokensFrom names ((placeholder k).length - 1) text) =
            placeholder k ++ fillWith [] (tokensFrom names ((placeholder k).length - 1) text) := rfl
        have hlength : (c :: text).drop (placeholder k).length = text.drop ((placeholder k).length - 1) := rfl
        rw [hcons, ih, ← hlength, ← hrest, List.drop_left]
        rfl
      · have hcons : fillWith [] (.chr c :: tokensFrom names 0 text) = c :: fillWith [] (tokensFrom names 0 text) := rfl
        rw [hcons, ih]
        rfl

/-- The order of the names does not matter. -/
theorem tokensFrom_congr (h : ∀ k, k ∈ names ↔ k ∈ names') (skip : Nat) (text : List Char) :
    tokensFrom names skip text = tokensFrom names' skip text := by
  have hfind : ∀ text : List Char, (names.find? fun k => decide (placeholder k <+: text)) =
      names'.find? fun k => decide (placeholder k <+: text) := by
    intro text
    cases hk : names.find? fun k => decide (placeholder k <+: text) with
    | none =>
      exact (List.find?_eq_none.mpr fun k' hk' => List.find?_eq_none.mp hk k' ((h k').mpr hk')).symm
    | some k =>
      have hprefix := prefix_of_find? hk
      cases hk' : names'.find? fun k => decide (placeholder k <+: text) with
      | none =>
        exact absurd (decide_eq_true hprefix) (List.find?_eq_none.mp hk' k ((h k).mp (List.mem_of_find?_eq_some hk)))
      | some k' => rw [eq_of_placeholders hprefix (prefix_of_find? hk')]
  induction text generalizing skip with
  | nil => cases skip <;> rfl
  | cons c text ih =>
    cases skip with
    | succ skip => exact ih skip
    | zero =>
      rw [tokensFrom, tokensFrom, hfind]
      split
      · rw [ih]
      · rw [ih]

end Placeholders

/-! ## One variable more -/

section Step

variable {entries earlier : List (VarName × String)} {k k' : VarName} {value : String}

theorem find?_of_notMem (h : k ∉ entries.map Prod.fst) : (entries.find? fun entry => decide (entry.1 = k)) = none :=
  List.find?_eq_none.mpr fun entry hentry hname => h (List.mem_map.mpr ⟨entry, hentry, of_decide_eq_true hname⟩)

theorem valueOf_of_notMem (h : k ∉ entries.map Prod.fst) : valueOf entries k = placeholder k := by
  rw [valueOf, find?_of_notMem h]

theorem valueOf_split (h : k ∉ earlier.map Prod.fst) (value : String) (later : List (VarName × String)) :
    valueOf (earlier ++ (k, value) :: later) k = value.toList := by
  have hfirst : (((k, value) :: later).find? fun entry => decide (entry.1 = k)) = some (k, value) :=
    List.find?_cons_of_pos (decide_eq_true rfl)
  rw [valueOf, List.find?_append, find?_of_notMem h, Option.none_or, hfirst]

theorem valueOf_concat (h : k ∉ earlier.map Prod.fst) (k' : VarName) :
    valueOf (earlier ++ [(k, value)]) k' = if k' = k then value.toList else valueOf earlier k' := by
  split_ifs with hsame
  · rw [hsame, valueOf_split h]
  · have hlast : ([(k, value)].find? fun entry => decide (entry.1 = k')) = none :=
      find?_of_notMem fun hmem => hsame (List.mem_singleton.mp hmem)
    rw [valueOf, valueOf, List.find?_append, hlast, Option.or_none]

/-- The template with the placeholders of one variable as holes. -/
def Token.pieces (entries : List (VarName × String)) (k : VarName) : Token → List (Piece Char)
  | .chr c => [.item c]
  | .var k' => if k' = k then [.hole] else (valueOf entries k').map Piece.item

def piecesOf (entries : List (VarName × String)) (k : VarName) (toks : List Token) : List (Piece Char) :=
  toks.flatMap (Token.pieces entries k)

theorem expand_pieces (fill : List Char) (tok : Token) : expand fill (tok.pieces entries k) =
    match tok with
    | .chr c => [c]
    | .var k' => if k' = k then fill else valueOf entries k' := by
  cases tok with
  | chr c => rfl
  | var k' =>
    dsimp only [Token.pieces]
    split
    · exact List.append_nil fill
    · have hitems := expand_items fill (valueOf entries k') []
      rw [List.append_nil] at hitems
      rw [hitems]
      exact List.append_nil _

theorem expand_piecesOf (fill : List Char) (toks : List Token) :
    expand fill (piecesOf entries k toks) = toks.flatMap fun tok => expand fill (tok.pieces entries k) := by
  rw [expand, piecesOf, List.flatMap_assoc]
  rfl

/-- Before the variable is replaced its placeholders stand in the holes. -/
theorem expand_placeholder (h : k ∉ entries.map Prod.fst) (toks : List Token) :
    expand (placeholder k) (piecesOf entries k toks) = fillWith entries toks := by
  rw [expand_piecesOf, fillWith]
  refine List.flatMap_congr fun tok _ => ?_
  rw [expand_pieces]
  cases tok with
  | chr c => rfl
  | var k' =>
    dsimp only [Token.fill]
    split_ifs with hsame
    · rw [hsame, valueOf_of_notMem h]
    · rfl

/-- And then its value. -/
theorem expand_value (h : k ∉ entries.map Prod.fst) (toks : List Token) :
    expand value.toList (piecesOf entries k toks) = fillWith (entries ++ [(k, value)]) toks := by
  rw [expand_piecesOf, fillWith]
  refine List.flatMap_congr fun tok _ => ?_
  rw [expand_pieces]
  cases tok with
  | chr c => rfl
  | var k' => exact (valueOf_concat h k').symm

theorem holes_piecesOf (entries : List (VarName × String)) (k : VarName) (toks : List Token) :
    holes (piecesOf entries k toks) = toks.count (.var k) := by
  induction toks with
  | nil => rfl
  | cons tok toks ih =>
    have hcons : holes (piecesOf entries k (tok :: toks)) = holes (tok.pieces entries k) + holes (piecesOf entries k toks) :=
      List.countP_append
    rw [hcons, ih]
    cases tok with
    | chr c =>
      rw [List.count_cons_of_ne (by simp)]
      exact Nat.zero_add _
    | var k' =>
      dsimp only [Token.pieces]
      split_ifs with hsame
      · rw [hsame, List.count_cons_self]
        exact Nat.add_comm _ _
      · have hitems := holes_items (valueOf entries k') []
        rw [List.append_nil] at hitems
        rw [hitems, List.count_cons_of_ne fun h => hsame (Token.var.inj h)]
        exact Nat.zero_add _

/-- **One variable replaced**: its placeholders, if there are no others. -/
theorem replaceAll_fillWith_iff (h : k ∉ entries.map Prod.fst) (toks : List Token) :
    replaceAll (placeholder k) value.toList (fillWith entries toks) = fillWith (entries ++ [(k, value)]) toks ↔
      occurrences (placeholder k) (fillWith entries toks) = toks.count (.var k) ∨ value.toList = placeholder k := by
  rw [← expand_placeholder h, ← expand_value h, ← holes_piecesOf entries k toks]
  exact replaceAll_expand_iff (unbordered_placeholder k) (placeholder_ne_nil k) value.toList _

end Step

/-! ## All of them -/

section All

variable {vars vars' : Variables} {template : List Char}

theorem render_concat (template : List Char) (entries : List (VarName × String)) (entry : VarName × String) :
    render template (entries ++ [entry]) = replaceAll (placeholder entry.1) entry.2.toList (render template entries) :=
  List.foldl_concat _ _ _ _

theorem notMem_names_take {n : Nat} {entry : VarName × String} (h : vars.entries[n]? = some entry) :
    entry.1 ∉ (vars.entries.take n).map Prod.fst := by
  obtain ⟨hn, rfl⟩ := List.getElem?_eq_some_iff.mp h
  have hsplit : vars.entries = vars.entries.take n ++ vars.entries[n] :: vars.entries.drop (n + 1) := by
    rw [← List.drop_eq_getElem_cons hn, List.take_append_drop]
  have hdistinct := vars.distinct
  rw [hsplit, List.map_append] at hdistinct
  exact fun hmem => (List.nodup_append.mp hdistinct).2.2 _ hmem _ List.mem_cons_self rfl

theorem take_succ_of_getElem? {n : Nat} {entry : VarName × String} (h : vars.entries[n]? = some entry) :
    vars.entries.take (n + 1) = vars.entries.take n ++ [entry] := by
  rw [List.take_add_one, h]
  rfl

/-- Every step substitutes and does no more, if and only if no value makes up a placeholder. -/
theorem substitutesSimultaneously_iff :
    SubstitutesSimultaneously vars template ↔ InsertsNoPlaceholder vars template := by
  constructor
  · intro h n entry hentry
    have hnext := h (n + 1)
    rw [take_succ_of_getElem? hentry, render_concat, h n] at hnext
    exact (replaceAll_fillWith_iff (notMem_names_take hentry) _).mp hnext
  · intro h n
    induction n with
    | zero => exact (fillWith_nil_tokensFrom _ 0 template).symm
    | succ n ih =>
      cases hentry : vars.entries[n]? with
      | none =>
        have hlength := List.getElem?_eq_none_iff.mp hentry
        rw [List.take_of_length_le hlength] at ih
        rw [List.take_of_length_le (Nat.le_succ_of_le hlength)]
        exact ih
      | some entry =>
        rw [take_succ_of_getElem? hentry, render_concat, ih]
        exact (replaceAll_fillWith_iff (notMem_names_take hentry) _).mpr (h n entry hentry)

theorem render_of_substitutes (h : SubstitutesSimultaneously vars template) :
    render template vars.entries = simultaneous vars template := by
  have hall := h vars.entries.length
  rw [List.take_length] at hall
  exact hall

/-- **Simultaneous substitution does not depend on the order of the variables.** -/
theorem simultaneous_perm (hperm : vars.entries.Perm vars'.entries) (template : List Char) :
    simultaneous vars template = simultaneous vars' template := by
  have htokens : tokens vars template = tokens vars' template :=
    tokensFrom_congr (fun k => (hperm.map Prod.fst).mem_iff) 0 template
  have hvalue : ∀ k, valueOf vars.entries k = valueOf vars'.entries k := by
    intro k
    by_cases hk : k ∈ vars.entries.map Prod.fst
    · obtain ⟨⟨k, value⟩, hentry, rfl⟩ := List.mem_map.mp hk
      have hof : ∀ {vars : Variables}, (k, value) ∈ vars.entries → valueOf vars.entries k = value.toList := by
        intro vars hmem
        obtain ⟨earlier, later, hsplit⟩ := List.append_of_mem hmem
        have hnot : k ∉ earlier.map Prod.fst := by
          have hdistinct := vars.distinct
          rw [hsplit, List.map_append] at hdistinct
          exact fun hname => (List.nodup_append.mp hdistinct).2.2 _ hname _ List.mem_cons_self rfl
        rw [hsplit]
        exact valueOf_split hnot value later
      rw [hof hentry, hof (hperm.mem_iff.mp hentry)]
    · rw [valueOf_of_notMem hk, valueOf_of_notMem fun hk' => hk ((hperm.map Prod.fst).mem_iff.mpr hk')]
  rw [simultaneous, simultaneous, htokens]
  refine List.flatMap_congr fun tok _ => ?_
  cases tok with
  | chr c => rfl
  | var k => exact hvalue k

end All

/-- **When rendering is simultaneous substitution.**  Each variable has its placeholders in the template replaced and no
inserted text touched, if and only if no value makes up a placeholder of a later one; the result is then the simultaneous
substitution, and in any other order of the variables with that property the same. -/
theorem render_simultaneous_iff (vars : Variables) (template : List Char) :
    (SubstitutesSimultaneously vars template ↔ InsertsNoPlaceholder vars template) ∧
    (InsertsNoPlaceholder vars template → render template vars.entries = simultaneous vars template ∧
      ∀ vars' : Variables, vars.entries.Perm vars'.entries → InsertsNoPlaceholder vars' template →
        render template vars'.entries = render template vars.entries) := by
  refine ⟨substitutesSimultaneously_iff, fun h => ?_⟩
  have hrender := render_of_substitutes (substitutesSimultaneously_iff.mpr h)
  refine ⟨hrender, fun vars' hperm h' => ?_⟩
  rw [hrender, render_of_substitutes (substitutesSimultaneously_iff.mpr h'), simultaneous_perm hperm]

/-! A code that has the placeholder of its test in it. -/

def codeTemplate : List Char := "\x7b\x7bbuggy_code\x7d\x7d|\x7b\x7btest_code\x7d\x7d".toList

def quotingVariables : Variables := wrongFixVariables "\x7b\x7btest_code\x7d\x7d" "y" "x" "c" "d"

/-- The placeholder in the code is replaced too; were the test in front of the code, it would stay. -/
theorem render_rescans :
    render codeTemplate quotingVariables.entries = "x|x".toList ∧
      simultaneous quotingVariables codeTemplate = "\x7b\x7btest_code\x7d\x7d|x".toList ∧
      render codeTemplate quotingVariables.entries.reverse = simultaneous quotingVariables codeTemplate := by
  decide +kernel

theorem render_simultaneous_sum :
    render codeTemplate (wrongFixVariables "a" "y" "x" "c" "d").entries =
      simultaneous (wrongFixVariables "a" "y" "x" "c" "d") codeTemplate := by
  refine ((render_simultaneous_iff (wrongFixVariables "a" "y" "x" "c" "d") codeTemplate).2 fun n entry hentry => ?_).1
  have hall : ∀ n < 6, ∀ entry ∈ (wrongFixVariables "a" "y" "x" "c" "d").entries[n]?,
      occurrences (placeholder entry.1) (fillWith ((wrongFixVariables "a" "y" "x" "c" "d").entries.take n)
          (tokens (wrongFixVariables "a" "y" "x" "c" "d") codeTemplate)) =
        (tokens (wrongFixVariables "a" "y" "x" "c" "d") codeTemplate).count (.var entry.1) := by
    decide +kernel
  exact Or.inl (hall n (List.getElem?_eq_some_iff.mp hentry).1 entry hentry)

end CodeReader.Pipeline
