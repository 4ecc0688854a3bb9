import CodeReader.Pipeline.Shuffling

/-!
# The answer key of `predict_the_fix`

A wrong fix has to fail the test by its assertion.  The gate sees how a script exits and what it prints; that the text
`AssertionError` is among it does not say what ended the script.

* `Ending`, `Execution` — what ends a script, and what the gate sees of it;
* `executions` — what running a code with the test gave, by the runs of the gate;
* `KeyVerified` — one choice passes the test, the stored one; the others fail by assertion, and have the notes;
* `keyVerified_iff` — **when the key is verified**.
-/

namespace CodeReader.Pipeline

open Text

/-! ## Executions -/

/-- What ends a script: it exits, no one catches an exception, or it is stopped from outside. -/
inductive Ending
  | exited (code : Int)
  | uncaught (exception : String)
  | stopped (code : Option Int)
  deriving DecidableEq

def Ending.exitCode : Ending → Option Int
  | .exited code => some code
  | .uncaught _ => some 1
  | .stopped code => code

structure Execution where
  ending : Ending
  stdout : String
  stderr : String

/-- What the container reports: `124` is the exit of `timeout`. -/
def Execution.result (x : Execution) : SandboxResult :=
  ⟨x.ending.exitCode, x.stdout, x.stderr, x.ending.exitCode == none || x.ending.exitCode == some 124⟩

/-- What each run of a script does, by its number. -/
abbrev Sandbox := Nat → String → Execution

def Sandbox.runs (sandbox : Sandbox) : Runs := fun n script => (sandbox n script).result

/-- The codes that the gate tests, each with the numbers of its runs. -/
def gateRuns (stb : STBCandidate) (wrongFixes : PredictFixCandidate) : List (String × List Nat) :=
  (stb.fixedCode, [0, 1]) :: wrongFixes.wrongFixes.mapIdx fun i v => (v.code, [4 + 2 * i, 5 + 2 * i])

/-- What the gate's runs of a code with the test did. -/
def executions (sandbox : Sandbox) (stb : STBCandidate) (wrongFixes : PredictFixCandidate) (code : String) :
    List Execution :=
  ((gateRuns stb wrongFixes).filter (·.1 = code)).flatMap fun tested =>
    tested.2.map fun n => sandbox n (concatSnippets tested.1 stb.testCode)

section KeyVerified

variable (sandbox : Sandbox) (stb : STBCandidate) (wrongFixes : PredictFixCandidate)

/-- The test passes on the code. -/
def Passes (code : String) : Prop :=
  executions sandbox stb wrongFixes code ≠ [] ∧ ∀ x ∈ executions sandbox stb wrongFixes code, x.result.clean = true

/-- The test fails on the code, by its assertion. -/
def FailsByAssertion (code : String) : Prop :=
  executions sandbox stb wrongFixes code ≠ [] ∧
    ∀ x ∈ executions sandbox stb wrongFixes code, x.ending = .uncaught "AssertionError"

/-- The key is what the runs have shown. -/
structure KeyVerified (a : PTFArtifacts) : Prop where
  /-- One choice passes the test, and it is the one stored as correct. -/
  passing : ∃ choice ∈ a.choices, choice.1 = a.correctChoiceId ∧ Passes sandbox stb wrongFixes choice.2.code ∧
    ∀ other ∈ a.choices, Passes sandbox stb wrongFixes other.2.code → other = choice
  failing : ∀ choice ∈ a.choices, choice.1 ≠ a.correctChoiceId → FailsByAssertion sandbox stb wrongFixes choice.2.code
  ids : (a.choices.map (·.1)).Nodup
  texts : (a.choices.map (·.2.code)).Nodup
  /-- There is one note for each wrong choice, in the order of the choices. -/
  notes : (whyWrongNotes (ptfExplanation stb a)).map noteId =
    (a.choices.filter (·.1 ≠ a.correctChoiceId)).map fun choice => some choice.1

/-- A wrong fix that fails with the text on its standard error is ended by the assertion. -/
def Telling : Prop :=
  ∀ v ∈ wrongFixes.wrongFixes, ∀ x ∈ executions sandbox stb wrongFixes v.code,
    x.result.failsTest = true → x.ending = .uncaught "AssertionError"

end KeyVerified

/-! ## What the gate accepts -/

section Accepted

variable {run : Runs} {buggyCode fixedCode testCode : String} {wrongFixes : List String}

theorem clean_of_agrees {r r' : SandboxResult} (h : r.agrees r' = true) : r'.clean = r.clean := by
  rw [SandboxResult.agrees, beq_iff_eq, Prod.mk.injEq] at h
  rw [SandboxResult.clean, SandboxResult.clean, h.1]

theorem failsTest_of_agrees {r r' : SandboxResult} (h : r.agrees r' = true) : r'.failsTest = r.failsTest := by
  rw [SandboxResult.agrees, beq_iff_eq, Prod.mk.injEq, Prod.mk.injEq] at h
  rw [SandboxResult.failsTest, SandboxResult.failsTest, h.1, h.2.2]

/-- A test that fails does not pass. -/
theorem not_clean_of_failsTest {r : SandboxResult} (h : r.failsTest = true) : r.clean = false := by
  rw [SandboxResult.failsTest, Bool.and_eq_true, bne_iff_ne] at h
  rw [SandboxResult.clean, beq_eq_false_iff_ne]
  exact h.1

theorem mem_distractorChecks {i : Nat} {w : String} (hw : wrongFixes[i]? = some w) :
    (⟨s!"distractor_{i}_still_fails_test", (run (4 + 2 * i) (concatSnippets w testCode)).failsTest⟩,
      (run (4 + 2 * i) (concatSnippets w testCode)).agrees (run (5 + 2 * i) (concatSnippets w testCode))) ∈
      distractorChecks run testCode wrongFixes := by
  obtain ⟨hlt, rfl⟩ := List.getElem?_eq_some_iff.mp hw
  exact List.mem_mapIdx.mpr ⟨i, hlt, rfl⟩

/-- What an accepted candidate has shown. -/
structure Accepted (run : Runs) (fixedCode testCode : String) (wrongFixes : List String) : Prop where
  passes : ∀ n ∈ [0, 1], (run n (concatSnippets fixedCode testCode)).clean = true
  fails : ∀ i w, wrongFixes[i]? = some w → ∀ n ∈ [4 + 2 * i, 5 + 2 * i],
    (run n (concatSnippets w testCode)).failsTest = true
  distinct : (fixedCode :: wrongFixes).Nodup

theorem accepted_of_validatePredictTheFix
    (h : (validatePredictTheFix run buggyCode fixedCode testCode wrongFixes).accepted = true) :
    Accepted run fixedCode testCode wrongFixes := by
  simp only [validatePredictTheFix, accepts, List.all_append, List.all_cons, List.all_nil, List.all_map, Bool.and_eq_true,
    Bool.and_true, List.all_eq_true, Function.comp_apply, decide_eq_true_eq] at h
  obtain ⟨⟨⟨hclean, -⟩, hfails⟩, ⟨⟨hagrees, -⟩, hdistractors⟩, hnodup, hreference⟩ := h
  refine ⟨?_, ?_, ?_⟩
  · intro n hn
    rcases List.mem_pair.mp hn with rfl | rfl
    · exact hclean
    · exact (clean_of_agrees hagrees).trans hclean
  · intro i w hw n hn
    have hfirst := hfails _ (mem_distractorChecks hw)
    rcases List.mem_pair.mp hn with rfl | rfl
    · exact hfirst
    · exact (failsTest_of_agrees (hdistractors _ (mem_distractorChecks hw))).trans hfirst
  · refine List.nodup_cons.mpr ⟨fun hmem => ?_, List.Nodup.of_map (fun w => strip w.toList) hnodup⟩
    -- the verified fix is among the codes that no wrong fix may be
    have hnot := hreference _ hmem
    simp at hnot

end Accepted

/-! ## What is derived -/

section Derived

variable {staticViolations : String → List String} {sandbox : Sandbox} {stb : STBCandidate}
  {wrongFixes : PredictFixCandidate} {rng : Shuffle FixEntry} {a : PTFArtifacts}

theorem mem_gateRuns {tested : String × List Nat} : tested ∈ gateRuns stb wrongFixes ↔
    tested = (stb.fixedCode, [0, 1]) ∨ ∃ (i : Nat) (h : i < wrongFixes.wrongFixes.length),
      (wrongFixes.wrongFixes[i].code, [4 + 2 * i, 5 + 2 * i]) = tested := by
  rw [gateRuns, List.mem_cons, List.mem_mapIdx]

theorem mem_executions {code : String} {x : Execution} : x ∈ executions sandbox stb wrongFixes code ↔
    (code = stb.fixedCode ∧ ∃ n ∈ [0, 1], sandbox n (concatSnippets code stb.testCode) = x) ∨
    ∃ i, (wrongFixes.wrongFixes.map (·.code))[i]? = some code ∧
      ∃ n ∈ [4 + 2 * i, 5 + 2 * i], sandbox n (concatSnippets code stb.testCode) = x := by
  simp only [executions, mem_gateRuns, List.mem_flatMap, List.mem_filter, List.mem_map, decide_eq_true_eq]
  constructor
  · rintro ⟨tested, ⟨rfl | ⟨i, hi, rfl⟩, rfl⟩, hx⟩
    · exact Or.inl ⟨rfl, hx⟩
    · exact Or.inr ⟨i, by simp [hi], hx⟩
  · rintro (⟨rfl, hx⟩ | ⟨i, hi, hx⟩)
    · exact ⟨_, ⟨Or.inl rfl, rfl⟩, hx⟩
    · rw [List.getElem?_map, Option.map_eq_some_iff] at hi
      obtain ⟨v, hv, rfl⟩ := hi
      obtain ⟨hlt, rfl⟩ := List.getElem?_eq_some_iff.mp hv
      exact ⟨_, ⟨Or.inr ⟨i, hlt, rfl⟩, rfl⟩, hx⟩

theorem executions_ne_nil {code : String} (h : code ∈ stb.fixedCode :: wrongFixes.wrongFixes.map (·.code)) :
    executions sandbox stb wrongFixes code ≠ [] := by
  rcases List.mem_cons.mp h with rfl | hmem
  · exact List.ne_nil_of_mem (mem_executions.mpr (Or.inl ⟨rfl, 0, List.mem_cons_self, rfl⟩))
  · obtain ⟨i, hi⟩ := List.mem_iff_getElem?.mp hmem
    exact List.ne_nil_of_mem (mem_executions.mpr (Or.inr ⟨i, hi, _, List.mem_cons_self, rfl⟩))

/-- A survivor has cleared the gate, and its choices are the fixes. -/
theorem derived_spec (h : deriveArtifacts staticViolations sandbox.runs stb wrongFixes rng = some a) :
    Accepted sandbox.runs stb.fixedCode stb.testCode (wrongFixes.wrongFixes.map (·.code)) ∧
      (a.choices.map (·.2)).Perm (fixEntries stb wrongFixes) := by
  have hperm := rng.perm (fixEntries stb wrongFixes)
  have hlength : (rng.order (fixEntries stb wrongFixes)).length = choiceIds.length := by
    rw [hperm.length_eq, fixEntries, List.length_cons, List.length_map, wrongFixes.three_fixes]
    rfl
  rw [deriveArtifacts] at h
  dsimp only at h
  split_ifs at h with hstatic haccepted
  obtain rfl := Option.some.inj h
  refine ⟨accepted_of_validatePredictTheFix haccepted, ?_⟩
  rw [List.map_snd_zip hlength.le]
  exact hperm

theorem fixEntries_code : (fixEntries stb wrongFixes).map (·.code) =
    stb.fixedCode :: wrongFixes.wrongFixes.map (·.code) := by
  rw [fixEntries, List.map_cons, List.map_map]
  rfl

/-- The verified fix passes the test. -/
theorem passes_fixedCode (h : Accepted sandbox.runs stb.fixedCode stb.testCode (wrongFixes.wrongFixes.map (·.code))) :
    Passes sandbox stb wrongFixes stb.fixedCode := by
  refine ⟨executions_ne_nil List.mem_cons_self, fun x hx => ?_⟩
  rcases mem_executions.mp hx with ⟨-, n, hn, rfl⟩ | ⟨i, hi, -⟩
  · exact h.passes n hn
  · exact absurd (List.mem_of_getElem? hi) (List.nodup_cons.mp h.distinct).1

/-- Every run of a wrong fix fails, with the text on its standard error. -/
theorem failsTest_of_mem (h : Accepted sandbox.runs stb.fixedCode stb.testCode (wrongFixes.wrongFixes.map (·.code)))
    {code : String} (hcode : code ∈ wrongFixes.wrongFixes.map (·.code)) {x : Execution}
    (hx : x ∈ executions sandbox stb wrongFixes code) : x.result.failsTest = true := by
  rcases mem_executions.mp hx with ⟨rfl, -⟩ | ⟨i, hi, n, hn, rfl⟩
  · exact absurd hcode (List.nodup_cons.mp h.distinct).1
  · exact h.fails i code hi n hn

theorem not_passes (h : Accepted sandbox.runs stb.fixedCode stb.testCode (wrongFixes.wrongFixes.map (·.code)))
    {code : String} (hcode : code ∈ wrongFixes.wrongFixes.map (·.code)) : ¬ Passes sandbox stb wrongFixes code := by
  rintro ⟨hne, hpasses⟩
  obtain ⟨x, hx⟩ := List.exists_mem_of_ne_nil _ hne
  have hclean := not_clean_of_failsTest (failsTest_of_mem h hcode hx)
  rw [hpasses x hx] at hclean
  cases hclean

/-- The ids and the texts of the choices are their own, the stored id is that of the verified fix, and the others are those
of the wrong ones. -/
structure Keyed (stb : STBCandidate) (wrongFixes : PredictFixCandidate) (a : PTFArtifacts) : Prop where
  ids : (a.choices.map (·.1)).Nodup
  texts : (a.choices.map (·.2.code)).Nodup
  correct : (a.correctChoiceId, ⟨stb.fixedCode, none, true⟩) ∈ a.choices
  wrong : ∀ choice ∈ a.choices, choice.1 ≠ a.correctChoiceId →
    choice.2.isCorrect = false ∧ choice.2.code ∈ wrongFixes.wrongFixes.map (·.code)
  all : ∀ code ∈ wrongFixes.wrongFixes.map (·.code), ∃ choice ∈ a.choices, choice.1 ≠ a.correctChoiceId ∧
    choice.2.code = code

theorem keyed_of_derived (h : deriveArtifacts staticViolations sandbox.runs stb wrongFixes rng = some a) :
    Keyed stb wrongFixes a := by
  obtain ⟨haccepted, hperm⟩ := derived_spec h
  obtain ⟨front, back, hchoices, hids⟩ := deriveArtifacts_choices h
  have hcorrect : (a.correctChoiceId, ⟨stb.fixedCode, none, true⟩) ∈ a.choices := hchoices ▸ List.mem_append_cons_self
  have hcodes : (a.choices.map (·.2.code)).Perm (stb.fixedCode :: wrongFixes.wrongFixes.map (·.code)) := by
    have hmap := hperm.map (·.code)
    rw [fixEntries_code, List.map_map] at hmap
    exact hmap
  have htexts : (a.choices.map (·.2.code)).Nodup := hcodes.nodup_iff.mpr haccepted.distinct
  have hfixed : ∀ choice ∈ a.choices, choice.2.code = stb.fixedCode → choice.1 = a.correctChoiceId := fun choice hmem hcode =>
    congrArg Prod.fst (List.inj_on_of_nodup_map htexts hmem hcorrect hcode)
  refine ⟨hids, htexts, hcorrect, fun choice hmem hne => ?_, fun code hcode => ?_⟩
  · have hentry : choice.2 ∈ fixEntries stb wrongFixes := hperm.mem_iff.mp (List.mem_map_of_mem hmem)
    rcases List.mem_cons.mp hentry with hfix | hwrong
    · exact absurd (hfixed choice hmem (congrArg FixEntry.code hfix)) hne
    · obtain ⟨v, hv, hchoice⟩ := List.mem_map.mp hwrong
      rw [← hchoice]
      exact ⟨rfl, List.mem_map_of_mem hv⟩
  · obtain ⟨choice, hmem, rfl⟩ := List.mem_map.mp (hcodes.mem_iff.mpr (List.mem_cons_of_mem _ hcode))
    refine ⟨choice, hmem, fun hid => ?_, rfl⟩
    have hsame : choice = (a.correctChoiceId, ⟨stb.fixedCode, none, true⟩) := List.inj_on_of_nodup_map hids hmem hcorrect hid
    rw [hsame] at hcode
    exact (List.nodup_cons.mp haccepted.distinct).1 hcode

/-- The notes are those of the wrong choices. -/
theorem notes_of_keyed (h : Keyed stb wrongFixes a) : (whyWrongNotes (ptfExplanation stb a)).map noteId =
    (a.choices.filter (·.1 ≠ a.correctChoiceId)).map fun choice => some choice.1 := by
  have hnotes : (whyWrongNotes (ptfExplanation stb a)).map noteId =
      (a.choices.filter (!·.2.isCorrect)).map fun choice => some choice.1 := by
    have hwhy : whyWrongNotes (ptfExplanation stb a) = (a.choices.filter (!·.2.isCorrect)).map fun choice =>
        .obj [("choice_id", .str choice.1), ("note", .str (choice.2.note.getD ""))] := rfl
    rw [hwhy, List.map_map]
    rfl
  have hfilter : a.choices.filter (!·.2.isCorrect) = a.choices.filter (·.1 ≠ a.correctChoiceId) := by
    refine List.filter_congr fun choice hmem => ?_
    by_cases hid : choice.1 = a.correctChoiceId
    · have hsame : choice = (a.correctChoiceId, ⟨stb.fixedCode, none, true⟩) :=
        List.inj_on_of_nodup_map h.ids hmem h.correct hid
      rw [hsame]
      simp
    · rw [(h.wrong choice hmem hid).1]
      simp [hid]
  rw [hnotes, hfilter]

/-- **When the key is verified by execution**: of a survivor, exactly when no wrong fix ends in another way than by the
assertion while the text is on its standard error. -/
theorem keyVerified_iff (h : deriveArtifacts staticViolations sandbox.runs stb wrongFixes rng = some a) :
    KeyVerified sandbox stb wrongFixes a ↔ Telling sandbox stb wrongFixes := by
  obtain ⟨haccepted, -⟩ := derived_spec h
  have hkeyed := keyed_of_derived h
  constructor
  · intro hkey v hv x hx hfails
    obtain ⟨choice, hmem, hne, hcode⟩ := hkeyed.all v.code (List.mem_map_of_mem hv)
    exact (hkey.failing choice hmem hne).2 x (hcode ▸ hx)
  · intro htelling
    refine ⟨⟨_, hkeyed.correct, rfl, passes_fixedCode haccepted, fun other hmem hpasses => ?_⟩, fun choice hmem hne => ?_,
      hkeyed.ids, hkeyed.texts, notes_of_keyed hkeyed⟩
    · by_contra hne
      have hid : other.1 ≠ a.correctChoiceId := fun hid =>
        hne (List.inj_on_of_nodup_map hkeyed.ids hmem hkeyed.correct hid)
      exact not_passes haccepted (hkeyed.wrong other hmem hid).2 hpasses
    · have hcode := (hkeyed.wrong choice hmem hne).2
      refine ⟨executions_ne_nil (List.mem_cons_of_mem _ hcode), fun x hx => ?_⟩
      obtain ⟨v, hv, hvcode⟩ := List.mem_map.mp hcode
      exact htelling v hv x (hvcode ▸ hx) (failsTest_of_mem haccepted hcode hx)

end Derived

/-! ## A wrong fix that crashes -/

def sumSTB : STBCandidate :=
  { sumCandidate "total = 1 + 2\n" with
    buggyCode := "total = 1 * 2\n" }

def sumFixes (last : String) : PredictFixCandidate where
  wrongFixes := [⟨"total = 1 - 2\n", "the sign"⟩, ⟨"total = 2 / 1\n", "the operator"⟩, ⟨last, "the result"⟩]
  three_fixes := rfl

def crashingFix : String := "raise ValueError('no AssertionError')\n"

/-- The verified fix passes, the crashing one raises, and the test fails on all others. -/
def sumSandbox : Sandbox := fun _ script =>
  if script = "total = 1 + 2\nassert total == 3\n" then ⟨.exited 0, "", ""⟩
  else if script = crashingFix ++ "assert total == 3\n" then
    ⟨.uncaught "ValueError", "", "Traceback (most recent call last):\nValueError: no AssertionError\n"⟩
  else ⟨.uncaught "AssertionError", "", "Traceback (most recent call last):\nAssertionError\n"⟩

/-- As they come. -/
def unshuffled : Shuffle FixEntry := ⟨fun l => l, fun l => .refl l⟩

theorem isSome_deriveArtifacts_sum {last : String} (h : last = crashingFix ∨ last = "total = 1\n") :
    (deriveArtifacts (fun _ => []) sumSandbox.runs sumSTB (sumFixes last) unshuffled).isSome = true := by
  rcases h with rfl | rfl <;> decide +kernel

theorem keyVerified_iff_sum : ∃ a, deriveArtifacts (fun _ => []) sumSandbox.runs sumSTB (sumFixes "total = 1\n") unshuffled =
    some a ∧ (KeyVerified sumSandbox sumSTB (sumFixes "total = 1\n") a ↔
      Telling sumSandbox sumSTB (sumFixes "total = 1\n")) := by
  obtain ⟨a, ha⟩ := Option.isSome_iff_exists.mp (isSome_deriveArtifacts_sum (Or.inr rfl))
  exact ⟨a, ha, keyVerified_iff ha⟩

/-- A fix that raises with the text in its message survives. -/
theorem crash_survives : ¬ ∀ (staticViolations : String → List String) (sandbox : Sandbox) (stb : STBCandidate)
    (wrongFixes : PredictFixCandidate) (rng : Shuffle FixEntry) (a : PTFArtifacts),
    deriveArtifacts staticViolations sandbox.runs stb wrongFixes rng = some a → KeyVerified sandbox stb wrongFixes a := by
  intro hall
  obtain ⟨a, ha⟩ := Option.isSome_iff_exists.mp (isSome_deriveArtifacts_sum (Or.inl rfl))
  have hkey := hall _ _ _ _ _ a ha
  obtain ⟨choice, hmem, hne, hcode⟩ := (keyed_of_derived ha).all crashingFix (by decide)
  have hfails := (hkey.failing choice hmem hne).2
  rw [hcode] at hfails
  have hrun : sumSandbox 8 (concatSnippets crashingFix sumSTB.testCode) ∈
      executions sumSandbox sumSTB (sumFixes crashingFix) crashingFix :=
    mem_executions.mpr (Or.inr ⟨2, rfl, 8, List.mem_cons_self, rfl⟩)
  have hcrash : (sumSandbox 8 (concatSnippets crashingFix sumSTB.testCode)).ending = .uncaught "ValueError" := by
    decide +kernel
  have hassertion := hfails _ hrun
  rw [hcrash] at hassertion
  exact absurd hassertion (by decide)

end CodeReader.Pipeline
