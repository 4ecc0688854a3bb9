import Mathlib.Data.List.DropRight
import Mathlib.Data.List.Basic
import Mathlib.Tactic.Common

/-!
# Lines of a text

Two ways to cut a text into lines: after every one of a dozen line boundaries, and at newlines only.

* `splitlines` — Python's `str.splitlines`: the boundaries end lines, so nothing follows the last one;
* `splitNewlines` — JavaScript's `split('\n')`: the newlines stand between lines;
* `trimNewlines` — without the newlines at the end; `strip` — without the whitespace at both ends;
* `splitlines_agree_iff` — **up to which line both cut alike**: as long as newlines are the only boundaries, and before
  the blank lines at the end.
-/

namespace CodeReader.Text

/-- The characters that end a line in Python: newline, vertical tab, form feed, carriage return, the separators of files,
groups and records, next line, and the separators of lines and paragraphs. -/
def isLineBreak (c : Char) : Bool :=
  [0x0A, 0x0B, 0x0C, 0x0D, 0x1C, 0x1D, 0x1E, 0x85, 0x2028, 0x2029].contains c.toNat

/-- The character in front of the first line. -/
def consLine (c : Char) : List (List Char) → List (List Char)
  | [] => [[c]]
  | line :: lines => (c :: line) :: lines

/-- `str.splitlines`: a carriage return and the newline after it are one boundary. -/
def splitlines : List Char → List (List Char)
  | [] => []
  | '\r' :: '\n' :: text => [] :: splitlines text
  | c :: text => if isLineBreak c then [] :: splitlines text else consLine c (splitlines text)

/-- `text.split('\n')`. -/
def splitNewlines (text : List Char) : List (List Char) := text.splitOn '\n'

/-- `text.replace(/\n+$/, '')`. -/
def trimNewlines (text : List Char) : List Char := text.rdropWhile (· == '\n')

/-- `str.isspace`. -/
def isWhitespace (c : Char) : Bool :=
  isLineBreak c || [0x09, 0x1F, 0x20, 0xA0, 0x1680, 0x202F, 0x205F, 0x3000].contains c.toNat ||
    (0x2000 ≤ c.toNat && c.toNat ≤ 0x200A)

/-- `str.strip`. -/
def strip (text : List Char) : List Char := (text.dropWhile isWhitespace).rdropWhile isWhitespace

/-- Up to its `k`-th newline the text has no other boundary, and its `k`-th line is not a blank one at the end. -/
def PlainUpTo (text : List Char) (k : Nat) : Prop :=
  k ≤ (trimNewlines text).count '\n' + 1 ∧ ∀ piece ∈ (splitNewlines text).take k, piece.any isLineBreak = false

/-! ## A character more -/

theorem newline_isLineBreak : isLineBreak '\n' = true := by decide

theorem splitNewlines_newline (text : List Char) : splitNewlines ('\n' :: text) = [] :: splitNewlines text := by
  rw [splitNewlines, List.splitOn_cons_eq_if_modifyHead]
  rfl

theorem splitNewlines_cons {c : Char} (h : c ≠ '\n') (text : List Char) :
    splitNewlines (c :: text) = consLine c (splitNewlines text) := by
  rw [splitNewlines, List.splitOn_cons_eq_if_modifyHead, if_neg (by simpa using h)]
  cases hlines : text.splitOn '\n' with
  | nil => exact absurd hlines (List.splitOn_ne_nil _ _)
  | cons line lines => rw [splitNewlines, hlines]; rfl

theorem splitlines_newline (text : List Char) : splitlines ('\n' :: text) = [] :: splitlines text := by
  rw [splitlines.eq_def]
  simp [newline_isLineBreak]

theorem splitlines_cons {c : Char} (h : isLineBreak c = false) (text : List Char) :
    splitlines (c :: text) = consLine c (splitlines text) := by
  rw [splitlines.eq_def]
  split
  · rename_i heq
    cases heq
  · rename_i heq
    rw [(List.cons.inj heq).1] at h
    exact absurd h (by decide)
  · rename_i heq
    obtain ⟨rfl, rfl⟩ := List.cons.inj heq
    rw [if_neg (by simp [h])]

theorem splitlines_cons_ne_nil (c : Char) (text : List Char) : splitlines (c :: text) ≠ [] := by
  rw [splitlines.eq_def]
  split
  · rename_i heq
    cases heq
  · exact List.cons_ne_nil _ _
  · split
    · exact List.cons_ne_nil _ _
    · unfold consLine
      split <;> exact List.cons_ne_nil _ _

theorem splitNewlines_ne_nil (text : List Char) : splitNewlines text ≠ [] := List.splitOn_ne_nil _ _

theorem consLine_length (c : Char) {lines : List (List Char)} (hne : lines ≠ []) :
    (consLine c lines).length = lines.length := by
  cases lines with
  | nil => exact absurd rfl hne
  | cons line lines => rfl

theorem length_splitNewlines (text : List Char) : (splitNewlines text).length = text.count '\n' + 1 := by
  induction text with
  | nil => rfl
  | cons c text ih =>
    by_cases hc : c = '\n'
    · rw [hc, splitNewlines_newline, List.length_cons, ih, List.count_cons_self]
    · rw [splitNewlines_cons hc, consLine_length c (splitNewlines_ne_nil text), ih, List.count_cons_of_ne hc]

/-- No boundary is left within a line. -/
theorem not_isLineBreak_of_mem_splitlines {text line : List Char} (h : line ∈ splitlines text) :
    ∀ c ∈ line, isLineBreak c = false := by
  fun_induction splitlines text generalizing line with
  | case1 => exact absurd h List.not_mem_nil
  | case2 text ih =>
    rcases List.mem_cons.mp h with rfl | h
    · exact fun c hc => absurd hc List.not_mem_nil
    · exact ih h
  | case3 c text _ _ ih =>
    rcases List.mem_cons.mp h with rfl | h
    · exact fun c hc => absurd hc List.not_mem_nil
    · exact ih h
  | case4 c text _ hc ih =>
    have hbreak : isLineBreak c = false := eq_false_of_ne_true hc
    cases hlines : splitlines text with
    | nil =>
      rw [hlines, consLine, List.mem_singleton] at h
      intro d hd
      rw [h, List.mem_singleton] at hd
      exact hd ▸ hbreak
    | cons first rest =>
      rw [hlines] at h ih
      rcases List.mem_cons.mp h with rfl | h
      · intro d hd
        rcases List.mem_cons.mp hd with rfl | hd
        · exact hbreak
        · exact ih List.mem_cons_self d hd
      · exact ih (List.mem_cons_of_mem first h)

/-! ## Trimmed -/

/-- The newlines at the end, as blank lines. -/
theorem splitNewlines_append_replicate (text : List Char) (n : Nat) :
    splitNewlines (text ++ List.replicate n '\n') = splitNewlines text ++ List.replicate n [] := by
  induction n generalizing text with
  | zero => simp
  | succ n ih =>
    rw [List.replicate_succ', List.replicate_succ', ← List.append_assoc, ← List.append_assoc, ← ih]
    rw [splitNewlines, List.splitOn_append_cons_self]
    rfl

/-- A text is its trimmed part and newlines. -/
theorem trimNewlines_append (text : List Char) :
    ∃ n, text = trimNewlines text ++ List.replicate n '\n' := by
  refine ⟨(text.rtakeWhile (· == '\n')).length, ?_⟩
  have hnewlines : text.rtakeWhile (· == '\n') = List.replicate (text.rtakeWhile (· == '\n')).length '\n' :=
    List.eq_replicate_of_mem fun c hc => by simpa using List.mem_rtakeWhile_imp hc
  rw [← hnewlines]
  exact (List.rdropWhile_append_rtakeWhile).symm

/-- The lines of the trimmed text are the first lines of the text. -/
theorem splitNewlines_trim_prefix (text : List Char) : splitNewlines (trimNewlines text) <+: splitNewlines text := by
  obtain ⟨n, htext⟩ := trimNewlines_append text
  refine ⟨List.replicate n [], ?_⟩
  rw [← splitNewlines_append_replicate, ← htext]

/-! ## Both -/

/-- Up to the first other boundary, a line is the same for both. -/
theorem getElem?_splitlines {text : List Char} {k : Nat} (hk : k < (splitlines text).length)
    (hplain : ∀ piece ∈ (splitNewlines text).take (k + 1), ∀ c ∈ piece, isLineBreak c = false) :
    (splitlines text)[k]? = (splitNewlines text)[k]? := by
  induction text generalizing k with
  | nil => exact absurd hk (Nat.not_lt_zero k)
  | cons c text ih =>
    by_cases hc : c = '\n'
    · rw [hc, splitlines_newline, List.length_cons] at hk
      rw [hc, splitNewlines_newline] at hplain
      rw [hc, splitlines_newline, splitNewlines_newline]
      cases k with
      | zero => rfl
      | succ k =>
        rw [List.getElem?_cons_succ, List.getElem?_cons_succ]
        exact ih (Nat.lt_of_succ_lt_succ hk) fun piece hpiece => hplain piece (List.mem_cons_of_mem _ hpiece)
    · obtain ⟨first, rest, hrows⟩ := List.exists_cons_of_ne_nil (splitNewlines_ne_nil text)
      rw [splitNewlines_cons hc, hrows] at hplain
      have hfirst := hplain (c :: first) List.mem_cons_self
      have hbreak := hfirst c List.mem_cons_self
      have hrest : ∀ piece ∈ (splitNewlines text).take (k + 1), ∀ d ∈ piece, isLineBreak d = false := by
        rw [hrows]
        intro piece hpiece
        rcases List.mem_cons.mp hpiece with rfl | hpiece
        · exact fun d hd => hfirst d (List.mem_cons_of_mem c hd)
        · exact hplain piece (List.mem_cons_of_mem _ hpiece)
      rw [splitlines_cons hbreak] at hk ⊢
      rw [splitNewlines_cons hc]
      cases hlines : splitlines text with
      | nil =>
        -- the text is at its end, and the character alone is its last line
        rw [hlines] at hk
        obtain rfl : k = 0 := Nat.lt_one_iff.mp hk
        cases text with
        | nil => rfl
        | cons d text => exact absurd hlines (splitlines_cons_ne_nil d text)
      | cons line lines =>
        rw [hlines] at hk ih
        have hsame := ih (k := k) hk hrest
        rw [hrows] at hsame ⊢
        cases k with
        | zero => exact congrArg (Option.map (c :: ·)) hsame
        | succ k => exact hsame

/-- **Up to which line both cut alike.** -/
theorem splitlines_agree_iff {text : List Char} {k : Nat} (hk : k ≤ (splitlines text).length) :
    (∀ j < k, (splitlines text)[j]? = (splitNewlines (trimNewlines text))[j]?) ↔ PlainUpTo text k := by
  obtain ⟨blank, hblank⟩ := splitNewlines_trim_prefix text
  have hrow : ∀ j < (splitNewlines (trimNewlines text)).length,
      (splitNewlines (trimNewlines text))[j]? = (splitNewlines text)[j]? := fun j hj => by
    rw [← hblank, List.getElem?_append_left hj]
  rw [PlainUpTo, ← length_splitNewlines]
  constructor
  · intro hsame
    have hle : k ≤ (splitNewlines (trimNewlines text)).length := by
      by_contra hlt
      have hlast := hsame _ (Nat.lt_of_not_le hlt)
      rw [List.getElem?_eq_none (Nat.le_refl (splitNewlines (trimNewlines text)).length), List.getElem?_eq_none_iff] at hlast
      omega
    refine ⟨hle, fun piece hpiece => ?_⟩
    obtain ⟨j, hj⟩ := List.getElem?_of_mem hpiece
    have hjk : j < k := by
      have := (List.getElem?_eq_some_iff.mp hj).1
      rw [List.length_take] at this
      omega
    rw [List.getElem?_take_of_lt hjk, ← hrow j (by omega), ← hsame j hjk] at hj
    have hplain := not_isLineBreak_of_mem_splitlines (List.mem_of_getElem? hj)
    exact List.any_eq_false.mpr fun c hc => ne_true_of_eq_false (hplain c hc)
  · rintro ⟨hle, hplain⟩ j hj
    rw [hrow j (by omega)]
    refine getElem?_splitlines (by omega) fun piece hpiece c hc => ?_
    have hpiece' := hplain piece ((List.take_subset_take_left _ (Nat.succ_le_of_lt hj)) hpiece)
    exact eq_false_of_ne_true (List.any_eq_false.mp hpiece' c hc)

/-! ## Whitespace -/

theorem strip_subset (text : List Char) : strip text ⊆ text := fun _ hc =>
  (List.dropWhile_suffix _).subset ((List.rdropWhile_prefix _ _).subset hc)

/-- What is stripped has no whitespace in front. -/
theorem dropWhile_strip (text : List Char) : (strip text).dropWhile isWhitespace = strip text := by
  rw [List.dropWhile_eq_self_iff]
  intro hl
  have hne : text.dropWhile isWhitespace ≠ [] := fun hnil => by
    simp [strip, hnil] at hl
  have hhead : (strip text)[0] = (text.dropWhile isWhitespace).head hne := by
    rw [List.head_eq_getElem]
    exact (List.rdropWhile_prefix _ _).getElem hl
  rw [hhead, List.head_dropWhile_not _ hne]
  exact Bool.false_ne_true

theorem strip_strip (text : List Char) : strip (strip text) = strip text := by
  have h := dropWhile_strip text
  rw [strip, h]
  exact List.rdropWhile_idempotent _ _

theorem strip_cons_blank {c : Char} (hc : isWhitespace c = true) (text : List Char) : strip (c :: text) = strip text := by
  rw [strip, strip, List.dropWhile_cons_of_pos hc]

/-! ## Pieces with separators -/

section Pieces

variable {α : Type} {sep c : α} {pieces : List (List α)}

theorem intercalate_cons (sep : α) (piece : List α) (pieces : List (List α)) :
    [sep].intercalate (piece :: pieces) = piece ++ (pieces.map (sep :: ·)).flatten := by
  induction pieces generalizing piece with
  | nil => simp [List.intercalate]
  | cons next pieces ih =>
    rw [List.intercalate_cons_of_ne_nil (List.cons_ne_nil next pieces), ih]
    simp

theorem mem_intercalate_of_mem {piece : List α} (h : piece ∈ pieces) (hc : c ∈ piece) : c ∈ [sep].intercalate pieces := by
  cases pieces with
  | nil => exact absurd h List.not_mem_nil
  | cons first pieces =>
    rw [intercalate_cons, List.mem_append]
    rcases List.mem_cons.mp h with rfl | h
    · exact .inl hc
    · exact .inr (List.mem_flatten.mpr ⟨sep :: piece, List.mem_map_of_mem h, List.mem_cons_of_mem sep hc⟩)

theorem mem_intercalate_singleton (h : c ∈ [sep].intercalate pieces) : c = sep ∨ ∃ piece ∈ pieces, c ∈ piece := by
  cases pieces with
  | nil => exact absurd h List.not_mem_nil
  | cons piece pieces =>
    rw [intercalate_cons, List.mem_append] at h
    rcases h with h | h
    · exact .inr ⟨piece, List.mem_cons_self, h⟩
    · obtain ⟨field, hfield, hc⟩ := List.mem_flatten.mp h
      obtain ⟨other, hother, rfl⟩ := List.mem_map.mp hfield
      rcases List.mem_cons.mp hc with rfl | hc
      · exact .inl rfl
      · exact .inr ⟨other, List.mem_cons_of_mem piece hother, hc⟩

theorem notMem_of_mem_splitOn [DecidableEq α] {text piece : List α} (h : piece ∈ text.splitOn sep) :
    sep ∉ piece := by
  induction text generalizing piece with
  | nil =>
    rw [List.splitOn_nil] at h
    rw [List.mem_singleton.mp h]
    exact List.not_mem_nil
  | cons c text ih =>
    rw [List.splitOn_cons_eq_if_modifyHead] at h
    split at h
    · obtain rfl | h := List.mem_cons.mp h
      · exact List.not_mem_nil
      · exact ih h
    · rename_i hc
      cases hpieces : text.splitOn sep with
      | nil => exact absurd hpieces (List.splitOn_ne_nil _ _)
      | cons first pieces =>
        rw [hpieces, List.modifyHead_cons] at h
        obtain rfl | h := List.mem_cons.mp h
        · rw [List.mem_cons, not_or]
          exact ⟨fun he => hc (beq_iff_eq.mpr he.symm), ih (hpieces ▸ List.mem_cons_self)⟩
        · exact ih (hpieces ▸ List.mem_cons_of_mem first h)

theorem intercalate_cons_blank (sep blank : α) (piece : List α) (pieces : List (List α)) :
    [sep, blank].intercalate (piece :: pieces) = [sep].intercalate (piece :: pieces.map (blank :: ·)) := by
  induction pieces generalizing piece with
  | nil => simp [List.intercalate]
  | cons next pieces ih =>
    rw [List.intercalate_cons_of_ne_nil (List.cons_ne_nil next pieces), ih, List.map_cons,
      List.intercalate_cons_of_ne_nil (List.cons_ne_nil _ _), intercalate_cons, intercalate_cons]
    simp

end Pieces

end CodeReader.Text
