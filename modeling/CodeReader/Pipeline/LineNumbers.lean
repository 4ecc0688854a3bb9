import CodeReader.Pipeline.VerifiedLines

/-!
# Line numbers

A line of the code under the number of the sandbox gate, under that of the semantic gates, and in the client's code
block, where a row is selected and its number submitted.  The client's highlighter is taken to break lines at newlines.

* `gateLine`, `judgedLine`, `displayedLine` — the line of a number;
* `LineAgrees` — all three are one line;
* `lineNumbers_agree_iff` — **when the numbers mean the same up to every verified line**: as long as the code is plain up
  to it.
-/

namespace CodeReader.Pipeline

open Text Attempts Difflib

/-! ## Three ways to number -/

/-- Line `k` of `buggy_code.splitlines()`, counted from one. -/
def gateLine (code : String) (k : Nat) : Option (List Char) := (splitlines code.toList)[k - 1]?

/-- Line `k` of what the judges are shown. -/
def judgedLine (code : String) (k : Nat) : Option (List Char) := (splitNewlines (numberLines code).toList)[k - 1]?

/-- The code that a row shows. -/
def shownCode (e : Exercise) : String := ((((Json.loads e.payload).getD .null).get? "code").bind Attempts.readStr).getD ""

/-- Row `k` of the code block: the code trimmed, and cut at newlines. -/
def displayedLine (e : Exercise) (k : Nat) : Option (List Char) :=
  (splitNewlines (trimNewlines (shownCode e).toList))[k - 1]?

/-- The width of the numbers that the judges are shown. -/
def numberWidth (code : String) : Nat := (Nat.toDigits 10 (splitlines code.toList).length).length

/-- Line `k` is the same for the gates and for the reader. -/
def LineAgrees (e : Exercise) (code : String) (k : Nat) : Prop :=
  ∃ text, gateLine code k = some text ∧ judgedLine code k = some (numberedLine (numberWidth code) k text) ∧
    displayedLine e k = some text

/-! ## The judges -/

theorem newline_not_mem_numberedLine {width i : Nat} {line : List Char} (h : ∀ c ∈ line, isLineBreak c = false) :
    '\n' ∉ numberedLine width i line := by
  intro hmem
  rcases List.mem_append.mp hmem with hpad | hline
  · rcases List.mem_append.mp hpad with hblank | hdigit
    · exact absurd (List.eq_of_mem_replicate hblank) (by decide)
    · exact absurd (Nat.isDigit_of_mem_toDigits (by decide) (by decide) hdigit) (by decide)
  · rcases List.mem_cons.mp hline with hbar | hline
    · exact absurd hbar (by decide)
    · rcases List.mem_cons.mp hline with hblank | hline
      · exact absurd hblank (by decide)
      · exact absurd (h '\n' hline) (by decide)

/-- **The judges see every line of the gate under its number.** -/
theorem judgedLine_eq {code : String} {k : Nat} {text : List Char} (hk : 1 ≤ k) (h : gateLine code k = some text) :
    judgedLine code k = some (numberedLine (numberWidth code) k text) := by
  have hne : splitlines code.toList ≠ [] := by
    intro hnil
    rw [gateLine, hnil] at h
    cases h
  have hsplit : splitNewlines (numberLines code).toList =
      (splitlines code.toList).mapIdx fun i line => numberedLine (numberWidth code) (i + 1) line := by
    rw [numberLines, String.toList_ofList]
    refine List.splitOn_intercalate '\n' (fun l hl => ?_) fun hnil => hne (List.mapIdx_eq_nil_iff.mp hnil)
    obtain ⟨i, hi, rfl⟩ := List.mem_mapIdx.mp hl
    exact newline_not_mem_numberedLine (not_isLineBreak_of_mem_splitlines (List.getElem_mem hi))
  rw [gateLine] at h
  rw [judgedLine, hsplit, List.getElem?_mapIdx, h, Option.map_some, Nat.sub_add_cancel hk]

/-! ## The verified lines -/

section Verified

variable (sha256 : String → String) (spec : ExerciseSpec) (run : Runs) (r : Receipts) (candidate : STBCandidate)

/-- The answer key of an accepted candidate. -/
def verifiedLines : List Nat :=
  (validateSpotTheBug run candidate (spec.hasBug == some true)).verifiedBugLines.getD []

theorem mem_verifiedLines {candidate : STBCandidate}
    (h : (validateSpotTheBug run candidate (spec.hasBug == some true)).accepted = true) {k : Nat} (hk : k ∈ verifiedLines spec run candidate) : 1 ≤ k ∧ k ≤ (splitlines candidate.buggyCode.toList).length := by
  obtain ⟨lines, hverify, hverified⟩ := verified_of_accepted h
  rw [verifiedLines, hverified, Option.getD_some] at hk
  cases hbug : spec.hasBug == some true with
  | false =>
    rw [hbug] at hverify
    rw [verifyBugLines_clean hverify] at hk
    exact absurd hk List.not_mem_nil
  | true =>
    rw [hbug] at hverify
    exact mem_diffChangedLines ((verifyBugLines_bug hverify).1 ▸ hk)

theorem shownCode_publishedSTB : shownCode (publishedSTB sha256 spec run r candidate) = candidate.buggyCode := by
  rw [shownCode, publishedSTB, stbRow, exerciseRow, Json.loads_dumps]
  rfl

/-- The gate's lines up to a number are the reader's, if and only if the code is plain up to it. -/
theorem lineAgrees_iff {k : Nat} (hk : k ≤ (splitlines candidate.buggyCode.toList).length) :
    (∀ j, 1 ≤ j → j ≤ k → LineAgrees (publishedSTB sha256 spec run r candidate) candidate.buggyCode j) ↔
      PlainUpTo candidate.buggyCode.toList k := by
  rw [← splitlines_agree_iff hk]
  constructor
  · intro h j hj
    obtain ⟨text, hgate, -, hdisplayed⟩ := h (j + 1) (Nat.le_add_left 1 j) hj
    rw [displayedLine, shownCode_publishedSTB] at hdisplayed
    exact hgate.trans hdisplayed.symm
  · intro h j hj hjk
    have hlt : j - 1 < (splitlines candidate.buggyCode.toList).length := by omega
    have hgate : gateLine candidate.buggyCode j = some (splitlines candidate.buggyCode.toList)[j - 1] :=
      List.getElem?_eq_getElem hlt
    refine ⟨_, hgate, judgedLine_eq hj hgate, ?_⟩
    rw [displayedLine, shownCode_publishedSTB, ← h (j - 1) (by omega)]
    exact hgate

end Verified

/-! A number that is one too large, below a comment that may hold a separator of lines. -/

def countCandidate (comment : String) : STBCandidate :=
  { sumCandidate "" with
    buggyCode := comment ++ "n = 2\n"
    fixedCode := comment ++ "n = 1\n"
    bugLines := [2]
    testCode := "assert n == 1\n"
    correctReasonId := "a" }

end CodeReader.Pipeline
