import CodeReader.Pipeline.Answerable

/-!
# The verified lines

The answer key of a `spot_the_bug` is taken from the diff of its two codes.

* `WellFormedKey` — what a key is to be;
* `OnlyInserts` — the fix leaves every line where it is;
* `verifiedBugLines_wellFormed` — **every accepted code with a bug has such a key**, and none with a fix of that kind is
  accepted.
-/

namespace CodeReader.Pipeline

open Text Difflib

/-- The lines that the fix replaces or deletes, in order, none twice: some, not too many, all of the buggy code, and
what is left of it without them is found in the fixed one. -/
structure WellFormedKey (buggyCode fixedCode : String) (lines : List Nat) : Prop where
  nonempty : lines ≠ []
  ordered : lines.Pairwise (· < ·)
  within : ∀ k ∈ lines, 1 ≤ k ∧ k ≤ (splitlines buggyCode.toList).length
  capped : lines.length ≤ rewriteCap (splitlines buggyCode.toList).length
  rest : (deleteItems lines 1 (splitlines buggyCode.toList)).Sublist (splitlines fixedCode.toList)

/-- The diff keeps lines and inserts others, and does nothing else. -/
def OnlyInserts (buggyCode fixedCode : String) : Prop :=
  ∀ op ∈ getOpcodes (splitlines buggyCode.toList) (splitlines fixedCode.toList), op.tag = .equal ∨ op.tag = .insert

instance (buggyCode fixedCode : String) : Decidable (OnlyInserts buggyCode fixedCode) :=
  inferInstanceAs (Decidable (∀ op ∈ _, _ ∨ _))

section Diff

variable {buggyCode fixedCode : String}

theorem diffChangedLines_eq (buggyCode fixedCode : String) : diffChangedLines buggyCode fixedCode =
    changedItems (getOpcodes (splitlines buggyCode.toList) (splitlines fixedCode.toList)) := rfl

/-- A line that the diff names is a line of the code. -/
theorem mem_diffChangedLines {k : Nat} (h : k ∈ diffChangedLines buggyCode fixedCode) :
    1 ≤ k ∧ k ≤ (splitlines buggyCode.toList).length := by
  have hbounds := (getOpcodes_editScript _ _).mem_changedItems h
  rw [Nat.zero_add] at hbounds
  exact hbounds

theorem diffChangedLines_of_onlyInserts (h : OnlyInserts buggyCode fixedCode) : diffChangedLines buggyCode fixedCode = [] := by
  refine List.flatMap_eq_nil_iff.mpr fun op hop => if_neg ?_
  rcases h op hop with htag | htag <;> simp [htag]

end Diff

theorem verifyBugLines_wellFormed {candidate : STBCandidate} {lines : List Nat}
    (h : verifyBugLines candidate true = some lines) : WellFormedKey candidate.buggyCode candidate.fixedCode lines := by
  obtain ⟨rfl, hne⟩ := verifyBugLines_bug h
  have hscript := getOpcodes_editScript (splitlines candidate.buggyCode.toList) (splitlines candidate.fixedCode.toList)
  refine ⟨hne, hscript.pairwise_changedItems, fun k hk => mem_diffChangedLines hk, ?_, hscript.deleteItems_sublist⟩
  rw [verifyBugLines, if_pos rfl] at h
  split at h
  · cases h
  · rename_i hreal
    exact Nat.not_lt.mp fun hlt => hreal (Or.inr hlt)

end CodeReader.Pipeline
