import Mathlib.Data.List.Basic
import Mathlib.Tactic.Common

/-!
# Differences of sequences

Python's `difflib.SequenceMatcher`, with no junk: the longest block that two sequences have in common, and the same
again on either side of it.

* `longestMatch`, `matchingBlocks` — the blocks, of equal length the earliest;
* `getOpcodes` — how the first sequence turns into the second;
* `EditScript`, `getOpcodes_editScript` — **the opcodes do turn one into the other**;
* `changedItems`, `EditScript.deleteItems_sublist` — what they replace or delete of the first.
-/

namespace CodeReader.Difflib

/-- `size` items from `i` on, and from `j` on. -/
structure Match where
  i : Nat
  j : Nat
  size : Nat
  deriving DecidableEq

inductive Tag
  | replace | delete | insert | equal
  deriving DecidableEq

/-- `a[i1:i2]` against `b[j1:j2]`. -/
structure Opcode where
  tag : Tag
  i1 : Nat
  i2 : Nat
  j1 : Nat
  j2 : Nat
  deriving DecidableEq

section Matching

variable {α : Type} [DecidableEq α]

/-- How many items both start with. -/
def commonPrefix : List α → List α → Nat
  | x :: a, y :: b => if x = y then commonPrefix a b + 1 else 0
  | _, _ => 0

/-- Where a common block may start, from the front. -/
def starts (a b : List α) : List Match :=
  (List.range a.length).flatMap fun i => (List.range b.length).map fun j => ⟨i, j, commonPrefix (a.drop i) (b.drop j)⟩

/-- `find_longest_match`: of the longest blocks the one that starts first in `a`, and of these the first in `b`. -/
def longestMatch (a b : List α) : Match :=
  (starts a b).foldl (fun best m => if best.size < m.size then m else best) ⟨0, 0, 0⟩

/-- The blocks left of the longest one, itself, and those right of it.  Every block takes an item of `a`. -/
def matchingBlocks : Nat → List α → List α → List Match
  | 0, _, _ => []
  | fuel + 1, a, b =>
    let m := longestMatch a b
    if m.size = 0 then []
    else
      matchingBlocks fuel (a.take m.i) (b.take m.j) ++ m ::
        (matchingBlocks fuel (a.drop (m.i + m.size)) (b.drop (m.j + m.size))).map fun n =>
          ⟨m.i + m.size + n.i, m.j + m.size + n.j, n.size⟩

/-- A block in front of others: adjacent ones are one. -/
def consBlock (m : Match) : List Match → List Match
  | [] => [m]
  | n :: blocks =>
    if m.i + m.size = n.i ∧ m.j + m.size = n.j then ⟨m.i, m.j, m.size + n.size⟩ :: blocks else m :: n :: blocks

/-- `get_matching_blocks`, with the empty one at the end. -/
def getMatchingBlocks (a b : List α) : List Match :=
  (matchingBlocks a.length a b).foldr consBlock [] ++ [⟨a.length, b.length, 0⟩]

/-- What is between the last block and the next. -/
def gap (i j : Nat) (m : Match) : List Opcode :=
  if i < m.i ∧ j < m.j then [⟨.replace, i, m.i, j, m.j⟩]
  else if i < m.i then [⟨.delete, i, m.i, j, m.j⟩]
  else if j < m.j then [⟨.insert, i, m.i, j, m.j⟩]
  else []

def opcodesFrom : Nat → Nat → List Match → List Opcode
  | _, _, [] => []
  | i, j, m :: blocks =>
    gap i j m ++ (if m.size = 0 then [] else [⟨.equal, m.i, m.i + m.size, m.j, m.j + m.size⟩]) ++
      opcodesFrom (m.i + m.size) (m.j + m.size) blocks

/-- `get_opcodes`. -/
def getOpcodes (a b : List α) : List Opcode := opcodesFrom 0 0 (getMatchingBlocks a b)

end Matching

/-! ## Edit scripts -/

section Scripts

variable {α : Type}

/-- The opcodes turn one sequence into the other, from `i` and `j` on. -/
inductive EditScript : Nat → Nat → List α → List α → List Opcode → Prop
  | nil (i j : Nat) : EditScript i j [] [] []
  | equal {i j : Nat} {a b : List α} {op : Opcode} {ops : List Opcode} (kept : List α) (htag : op.tag = .equal)
      (hi1 : op.i1 = i) (hi2 : op.i2 = i + kept.length) (hj1 : op.j1 = j) (hj2 : op.j2 = j + kept.length)
      (rest : EditScript op.i2 op.j2 a b ops) : EditScript i j (kept ++ a) (kept ++ b) (op :: ops)
  | change {i j : Nat} {a b : List α} {op : Opcode} {ops : List Opcode} (old new : List α) (htag : op.tag ≠ .equal)
      (hi1 : op.i1 = i) (hi2 : op.i2 = i + old.length) (hj1 : op.j1 = j) (hj2 : op.j2 = j + new.length)
      (hinsert : op.tag = .insert → old = []) (hdelete : op.tag = .delete → new = [])
      (rest : EditScript op.i2 op.j2 a b ops) : EditScript i j (old ++ a) (new ++ b) (op :: ops)

/-- The items, counted from one, that an opcode replaces or deletes. -/
def Opcode.changed (op : Opcode) : List Nat :=
  if op.tag = .replace ∨ op.tag = .delete then List.range' (op.i1 + 1) (op.i2 - op.i1) else []

def changedItems (ops : List Opcode) : List Nat := ops.flatMap Opcode.changed

/-- The sequence, its items numbered from `first` on, without those of these numbers. -/
def deleteItems (numbers : List Nat) (first : Nat) (a : List α) : List α :=
  ((a.zipIdx first).filter fun x => decide (x.2 ∉ numbers)).map Prod.fst

section Deleting

variable {numbers numbers' : List Nat} {first : Nat} {a : List α}

theorem deleteItems_append (numbers : List Nat) (first : Nat) (a a' : List α) :
    deleteItems numbers first (a ++ a') = deleteItems numbers first a ++ deleteItems numbers (first + a.length) a' := by
  rw [deleteItems, List.zipIdx_append, List.filter_append, List.map_append]
  rfl

theorem deleteItems_congr (h : ∀ k, first ≤ k → k < first + a.length → (k ∈ numbers ↔ k ∈ numbers')) :
    deleteItems numbers first a = deleteItems numbers' first a := by
  refine congrArg _ (List.filter_congr fun x hx => ?_)
  obtain ⟨hle, hlt, -⟩ := List.mem_zipIdx hx
  exact decide_eq_decide.mpr (not_congr (h x.2 hle hlt))

theorem deleteItems_of_all (h : ∀ k, first ≤ k → k < first + a.length → k ∈ numbers) : deleteItems numbers first a = [] := by
  refine congrArg _ (List.filter_eq_nil_iff.mpr fun x hx => ?_)
  obtain ⟨hle, hlt, -⟩ := List.mem_zipIdx hx
  exact fun hnot => of_decide_eq_true hnot (h x.2 hle hlt)

theorem deleteItems_of_none (h : ∀ k, first ≤ k → k < first + a.length → k ∉ numbers) : deleteItems numbers first a = a := by
  have hfilter : (a.zipIdx first).filter (fun x => decide (x.2 ∉ numbers)) = a.zipIdx first := by
    refine List.filter_eq_self.mpr fun x hx => ?_
    obtain ⟨hle, hlt, -⟩ := List.mem_zipIdx hx
    exact decide_eq_true (h x.2 hle hlt)
  rw [deleteItems, hfilter, List.zipIdx_map_fst]

end Deleting

section Script

variable {i j : Nat} {a b : List α} {op : Opcode} {ops : List Opcode}

theorem mem_changed {k : Nat} (hk : k ∈ op.changed) : op.i1 < k ∧ k ≤ op.i2 := by
  unfold Opcode.changed at hk
  split at hk
  · have hrange := List.mem_range'_1.mp hk
    omega
  · exact absurd hk List.not_mem_nil

/-- The items that change, of those the script is about. -/
theorem EditScript.mem_changedItems (h : EditScript i j a b ops) {k : Nat} (hk : k ∈ changedItems ops) :
    i < k ∧ k ≤ i + a.length := by
  induction h with
  | nil i j => exact absurd hk List.not_mem_nil
  | @equal i j a b op ops kept htag hi1 hi2 hj1 hj2 rest ih =>
    rw [List.length_append]
    rcases List.mem_append.mp hk with hhere | hlater
    · have hbounds := mem_changed hhere
      omega
    · have hbounds := ih hlater
      omega
  | @change i j a b op ops old new htag hi1 hi2 hj1 hj2 hinsert hdelete rest ih =>
    rw [List.length_append]
    rcases List.mem_append.mp hk with hhere | hlater
    · have hbounds := mem_changed hhere
      omega
    · have hbounds := ih hlater
      omega

theorem pairwise_changed (op : Opcode) : op.changed.Pairwise (· < ·) := by
  unfold Opcode.changed
  split
  · exact List.pairwise_lt_range'
  · exact List.Pairwise.nil

/-- **They come in order, none twice.** -/
theorem EditScript.pairwise_changedItems (h : EditScript i j a b ops) : (changedItems ops).Pairwise (· < ·) := by
  have hcons : ∀ {a b : List α} {op ops}, EditScript op.i2 op.j2 a b ops → (changedItems ops).Pairwise (· < ·) →
      (changedItems (op :: ops)).Pairwise (· < ·) := fun rest ih =>
    List.pairwise_append.mpr ⟨pairwise_changed _, ih, fun k hk k' hk' =>
      Nat.lt_of_le_of_lt (mem_changed hk).2 (rest.mem_changedItems hk').1⟩
  induction h with
  | nil i j => exact List.Pairwise.nil
  | equal kept htag hi1 hi2 hj1 hj2 rest ih => exact hcons rest ih
  | change old new htag hi1 hi2 hj1 hj2 hinsert hdelete rest ih => exact hcons rest ih

/-- What is deleted from a longer sequence. -/
theorem EditScript.deleteItems_cons {old : List α} (rest : EditScript op.i2 j a b ops) (hi2 : op.i2 = i + old.length) :
    deleteItems (changedItems (op :: ops)) (i + 1) (old ++ a) =
      deleteItems op.changed (i + 1) old ++ deleteItems (changedItems ops) (op.i2 + 1) a := by
  have hlength : i + 1 + old.length = op.i2 + 1 := by omega
  rw [deleteItems_append, hlength]
  congr 1
  · refine deleteItems_congr fun k hle hlt => ⟨fun hk => ?_, fun hk => List.mem_append_left _ hk⟩
    refine (List.mem_append.mp hk).resolve_right fun hlater => ?_
    have hbounds := rest.mem_changedItems hlater
    omega
  · refine deleteItems_congr fun k hle hlt => ⟨fun hk => ?_, fun hk => List.mem_append_right _ hk⟩
    refine (List.mem_append.mp hk).resolve_left fun hhere => ?_
    have hbounds := mem_changed hhere
    omega

/-- **Without the items that change, the first sequence is a part of the second.** -/
theorem EditScript.deleteItems_sublist (h : EditScript i j a b ops) : (deleteItems (changedItems ops) (i + 1) a).Sublist b := by
  induction h with
  | nil i j => exact List.Sublist.refl _
  | @equal i j a b op ops kept htag hi1 hi2 hj1 hj2 rest ih =>
    rw [rest.deleteItems_cons hi2]
    refine List.Sublist.append ?_ ih
    have hnone : op.changed = [] := by rw [Opcode.changed, htag, if_neg (by simp)]
    rw [hnone, deleteItems_of_none fun k _ _ => List.not_mem_nil]
  | @change i j a b op ops old new htag hi1 hi2 hj1 hj2 hinsert hdelete rest ih =>
    rw [rest.deleteItems_cons hi2]
    refine List.Sublist.append ?_ ih
    have hall : deleteItems op.changed (i + 1) old = [] := by
      by_cases hins : op.tag = .insert
      · rw [hinsert hins]
        rfl
      · refine deleteItems_of_all fun k hle hlt => ?_
        have hchange : op.tag = .replace ∨ op.tag = .delete := by
          cases hop : op.tag with
          | replace => exact Or.inl rfl
          | delete => exact Or.inr rfl
          | insert => exact absurd hop hins
          | equal => exact absurd hop htag
        rw [Opcode.changed, if_pos hchange]
        exact List.mem_range'_1.mpr (by omega)
    rw [hall]
    exact List.nil_sublist _

end Script

end Scripts

/-! ## Matching blocks -/

section Blocks

variable {α : Type}

/-- Blocks that both sequences have in common, in order, from `i` and `j` on. -/
inductive Aligned : Nat → Nat → List α → List α → List Match → Prop
  | nil (i j : Nat) (a b : List α) : Aligned i j a b []
  | cons {i j : Nat} {a b : List α} {m : Match} {ms : List Match} (p q common : List α) (hi : m.i = i + p.length)
      (hj : m.j = j + q.length) (hsize : m.size = common.length) (rest : Aligned (m.i + m.size) (m.j + m.size) a b ms) :
      Aligned i j (p ++ (common ++ a)) (q ++ (common ++ b)) (m :: ms)

section Aligned

variable {i j : Nat} {a b : List α} {ms ns : List Match}

/-- What comes before the first block. -/
theorem Aligned.absorb {p q : List α} (h : Aligned (i + p.length) (j + q.length) a b ms) :
    Aligned i j (p ++ a) (q ++ b) ms := by
  cases h with
  | nil => exact .nil _ _ _ _
  | cons p' q' common hi hj hsize rest =>
    rw [← List.append_assoc, ← List.append_assoc q]
    refine .cons _ _ common ?_ ?_ hsize rest
    · rw [hi, List.length_append, Nat.add_assoc]
    · rw [hj, List.length_append, Nat.add_assoc]

theorem Aligned.append {a' b' : List α} (h : Aligned i j a b ms) (h' : Aligned (i + a.length) (j + b.length) a' b' ns) :
    Aligned i j (a ++ a') (b ++ b') (ms ++ ns) := by
  induction h with
  | nil i j a b => exact h'.absorb
  | cons p q common hi hj hsize rest ih =>
    rw [List.append_assoc, List.append_assoc, List.append_assoc, List.append_assoc]
    refine .cons p q common hi hj hsize (ih ?_)
    rw [List.length_append, List.length_append, List.length_append, List.length_append, ← Nat.add_assoc, ← Nat.add_assoc,
      ← Nat.add_assoc, ← Nat.add_assoc, ← hi, ← hj, ← hsize] at h'
    exact h'

/-- The blocks of what follows, numbered from there on. -/
theorem Aligned.shift (h : Aligned i j a b ms) (di dj : Nat) :
    Aligned (di + i) (dj + j) a b (ms.map fun n => ⟨di + n.i, dj + n.j, n.size⟩) := by
  induction h with
  | nil i j a b => exact .nil _ _ _ _
  | cons p q common hi hj hsize rest ih =>
    refine .cons p q common ?_ ?_ hsize ?_
    · rw [Nat.add_assoc, ← hi]
    · rw [Nat.add_assoc, ← hj]
    · rw [Nat.add_assoc, Nat.add_assoc]
      exact ih

/-- Adjacent blocks are one. -/
theorem aligned_consBlock {m : Match} (h : Aligned i j a b (m :: ms)) : Aligned i j a b (consBlock m ms) := by
  cases ms with
  | nil => exact h
  | cons n ms =>
    rw [consBlock]
    split
    · rename_i hadjacent
      cases h with
      | cons p q common hi hj hsize rest =>
        cases rest with
        | cons p' q' common' hi' hj' hsize' rest =>
          have hp : p' = [] := List.length_eq_zero_iff.mp (by omega)
          have hq : q' = [] := List.length_eq_zero_iff.mp (by omega)
          subst hp hq
          rw [List.nil_append, List.nil_append, ← List.append_assoc common, ← List.append_assoc common]
          refine .cons p q (common ++ common') hi hj ?_ ?_
          · rw [List.length_append, hsize, hsize']
          · dsimp only
            rw [← Nat.add_assoc, ← Nat.add_assoc, hadjacent.1, hadjacent.2]
            exact rest
    · exact h

theorem aligned_foldr_consBlock (h : Aligned i j a b ms) : Aligned i j a b (ms.foldr consBlock []) := by
  induction h with
  | nil i j a b => exact .nil _ _ _ _
  | cons p q common hi hj hsize rest ih => exact aligned_consBlock (.cons p q common hi hj hsize ih)

end Aligned

section Matching

variable [DecidableEq α] {a b : List α}

theorem take_commonPrefix (a b : List α) : a.take (commonPrefix a b) = b.take (commonPrefix a b) ∧
    commonPrefix a b ≤ a.length ∧ commonPrefix a b ≤ b.length := by
  induction a generalizing b with
  | nil => simp [commonPrefix]
  | cons x a ih =>
    cases b with
    | nil => simp [commonPrefix]
    | cons y b =>
      rw [commonPrefix]
      split
      · rename_i hxy
        obtain ⟨htake, ha, hb⟩ := ih b
        exact ⟨by rw [List.take_succ_cons, List.take_succ_cons, hxy, htake], Nat.succ_le_succ ha, Nat.succ_le_succ hb⟩
      · exact ⟨rfl, Nat.zero_le _, Nat.zero_le _⟩

/-- The sequences around a block. -/
def Match.Splits (m : Match) (a b : List α) : Prop :=
  ∃ p q common a' b', a = p ++ (common ++ a') ∧ b = q ++ (common ++ b') ∧ p.length = m.i ∧ q.length = m.j ∧
    common.length = m.size

theorem splits_of_mem_starts {m : Match} (h : m ∈ starts a b) : m.Splits a b := by
  obtain ⟨i, hi, hm⟩ := List.mem_flatMap.mp h
  obtain ⟨j, hj, rfl⟩ := List.mem_map.mp hm
  obtain ⟨htake, hle, -⟩ := take_commonPrefix (a.drop i) (b.drop j)
  let n := commonPrefix (a.drop i) (b.drop j)
  have hcut : ∀ (l common : List α) (k : Nat), common = (l.drop k).take n → l = l.take k ++ (common ++ (l.drop k).drop n) :=
    fun l common k hcommon => by rw [hcommon, List.take_append_drop, List.take_append_drop]
  exact ⟨a.take i, b.take j, (a.drop i).take n, (a.drop i).drop n, (b.drop j).drop n, hcut a _ i rfl, hcut b _ j htake,
    List.length_take_of_le (Nat.le_of_lt (List.mem_range.mp hi)),
    List.length_take_of_le (Nat.le_of_lt (List.mem_range.mp hj)), List.length_take_of_le hle⟩

theorem longestMatch_splits (a b : List α) : (longestMatch a b).Splits a b := by
  have hfold : ∀ (l : List Match) (best : Match), best.Splits a b → (∀ m ∈ l, m.Splits a b) →
      (l.foldl (fun best m => if best.size < m.size then m else best) best).Splits a b := by
    intro l
    induction l with
    | nil => exact fun _ hbest _ => hbest
    | cons m l ih =>
      intro best hbest hl
      rw [List.foldl_cons]
      refine ih _ ?_ fun m' hm' => hl m' (List.mem_cons_of_mem m hm')
      split
      · exact hl m List.mem_cons_self
      · exact hbest
  exact hfold _ _ ⟨[], [], [], a, b, rfl, rfl, rfl, rfl, rfl⟩ fun m hm => splits_of_mem_starts hm

theorem matchingBlocks_aligned (fuel : Nat) (a b : List α) : Aligned 0 0 a b (matchingBlocks fuel a b) := by
  induction fuel generalizing a b with
  | zero => exact .nil _ _ _ _
  | succ fuel ih =>
    rw [matchingBlocks]
    split
    · exact .nil _ _ _ _
    · have hsplits := longestMatch_splits a b
      generalize longestMatch a b = m at hsplits
      obtain ⟨p, q, common, a', b', rfl, rfl, hp, hq, hcommon⟩ := hsplits
      have hdrop : ∀ (p common a' : List α) (k : Nat), p.length = k → common.length = m.size →
          (p ++ (common ++ a')).drop (k + m.size) = a' := by
        intro p common a' k hk hc
        rw [← List.append_assoc, List.drop_left' (by rw [List.length_append, hk, hc])]
      rw [List.take_left' hp, List.take_left' hq, hdrop p common a' m.i hp hcommon, hdrop q common b' m.j hq hcommon]
      refine (ih p q).append ?_
      rw [Nat.zero_add, Nat.zero_add]
      refine .cons [] [] common (by rw [hp]; rfl) (by rw [hq]; rfl) hcommon.symm ?_
      exact (ih a' b').shift (m.i + m.size) (m.j + m.size)

end Matching

end Blocks

/-! ## The opcodes -/

section Opcodes

variable {α : Type} {i j : Nat} {a b : List α} {ops : List Opcode}

/-- What lies between two blocks is changed. -/
theorem editScript_gap {p q : List α} {m : Match} (hi : m.i = i + p.length) (hj : m.j = j + q.length)
    (rest : EditScript m.i m.j a b ops) : EditScript i j (p ++ a) (q ++ b) (gap i j m ++ ops) := by
  unfold gap
  split_ifs with hboth hdelete hinsert
  · exact .change p q (by simp) rfl hi rfl hj (fun h => nomatch h) (fun h => nomatch h) rest
  · have hq : q = [] := List.length_eq_zero_iff.mp (by omega)
    exact .change p q (by simp) rfl hi rfl hj (fun h => nomatch h) (fun _ => hq) rest
  · have hp : p = [] := List.length_eq_zero_iff.mp (by omega)
    exact .change p q (by simp) rfl hi rfl hj (fun _ => hp) (fun h => nomatch h) rest
  · have hp : p = [] := List.length_eq_zero_iff.mp (by omega)
    have hq : q = [] := List.length_eq_zero_iff.mp (by omega)
    subst hp hq
    rw [show m.i = i from hi, show m.j = j from hj] at rest
    exact rest

theorem editScript_opcodesFrom {ms : List Match} (h : Aligned i j a b ms) :
    EditScript i j a b (opcodesFrom i j (ms ++ [⟨i + a.length, j + b.length, 0⟩])) := by
  induction h with
  | nil i j a b =>
    have hlast : EditScript i j (a ++ []) (b ++ []) (gap i j ⟨i + a.length, j + b.length, 0⟩ ++ []) :=
      editScript_gap rfl rfl (.nil _ _)
    rw [List.append_nil, List.append_nil, List.append_nil] at hlast
    rw [List.nil_append, opcodesFrom, if_pos rfl, opcodesFrom, List.append_nil, List.append_nil]
    exact hlast
  | @cons i j a b m ms p q common hi hj hsize rest ih =>
    have hend : (⟨i + (p ++ (common ++ a)).length, j + (q ++ (common ++ b)).length, 0⟩ : Match) =
        ⟨m.i + m.size + a.length, m.j + m.size + b.length, 0⟩ := by
      rw [hi, hj, hsize]
      simp only [List.length_append, Nat.add_assoc]
    rw [List.cons_append, opcodesFrom, hend, List.append_assoc]
    refine editScript_gap hi hj ?_
    split
    · rename_i hzero
      have hcommon : common = [] := List.length_eq_zero_iff.mp (by omega)
      subst hcommon
      rw [hzero] at ih ⊢
      exact ih
    · exact .equal common rfl rfl (congrArg _ hsize) rfl (congrArg _ hsize) ih

/-- **The opcodes are an edit script.** -/
theorem getOpcodes_editScript [DecidableEq α] (a b : List α) : EditScript 0 0 a b (getOpcodes a b) := by
  have hscript := editScript_opcodesFrom (aligned_foldr_consBlock (matchingBlocks_aligned a.length a b))
  rw [Nat.zero_add, Nat.zero_add] at hscript
  exact hscript

end Opcodes

end CodeReader.Difflib
