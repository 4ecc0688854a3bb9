import Mathlib.Data.List.Basic
import Mathlib.Algebra.Ring.Int.Defs
import Mathlib.Tactic.Linarith

/-!
# Replacing a pattern

Every occurrence of a pattern in a text is replaced, from the left, and what is inserted is not read again.

* `replaceAll` — Python's `str.replace`, of a pattern that is not empty;
* `Unbordered` — no part at the front of the pattern is one at its end: occurrences do not overlap;
* `Piece`, `expand` — a text with holes;
* `replaceAll_expand_iff` — **when replacing the pattern fills the holes it stands in**, and nothing else.
-/

namespace CodeReader.Replace

variable {α : Type}

/-! ## Pieces -/

def Unbordered (pattern : List α) : Prop := ∀ s, s <+: pattern → s <:+ pattern → s = [] ∨ s = pattern

/-- A text with holes. -/
inductive Piece (α : Type)
  | item (x : α)
  | hole

/-- The holes filled. -/
def expand (fill : List α) (pieces : List (Piece α)) : List α :=
  pieces.flatMap fun
    | .item x => [x]
    | .hole => fill

def holes (pieces : List (Piece α)) : Nat := pieces.countP fun
  | .item _ => false
  | .hole => true

section Pieces

variable {p : List α} {c : α}

/-- A proper end of the pattern in front of pieces is spelt by their items. -/
theorem items_of_suffix (hp : Unbordered p) {s : List α} (hs : s <:+ p) (hlt : s.length < p.length)
    {pieces : List (Piece α)} (h : s <+: expand p pieces) : ∃ rest, pieces = s.map Piece.item ++ rest := by
  induction s generalizing pieces with
  | nil => exact ⟨pieces, rfl⟩
  | cons x s ih =>
    cases pieces with
    | nil => cases List.prefix_nil.mp h
    | cons piece pieces =>
      cases piece with
      | item c =>
        obtain ⟨rfl, hrest⟩ := List.cons_prefix_cons.mp h
        obtain ⟨rest, rfl⟩ := ih ((List.suffix_cons x s).trans hs) (Nat.lt_of_succ_lt hlt) hrest
        exact ⟨rest, rfl⟩
      | hole =>
        have hborder := List.prefix_of_prefix_length_le h (List.prefix_append p (expand p pieces)) (Nat.le_of_lt hlt)
        rcases hp _ hborder hs with hnil | hsame
        · cases hnil
        · rw [hsame] at hlt
          exact absurd hlt (Nat.lt_irrefl _)

/-- An occurrence that begins with an item lies in items. -/
theorem items_of_prefix (hp : Unbordered p) {pieces : List (Piece α)} (h : p <+: c :: expand p pieces) (hne : p ≠ []) :
    ∃ rest, .item c :: pieces = p.map Piece.item ++ rest := by
  obtain ⟨x, p', rfl⟩ := List.exists_cons_of_ne_nil hne
  obtain ⟨rfl, hrest⟩ := List.cons_prefix_cons.mp h
  obtain ⟨rest, rfl⟩ := items_of_suffix hp (List.suffix_cons x p') (Nat.lt_succ_self _) hrest
  exact ⟨rest, rfl⟩

theorem expand_items (fill s : List α) (pieces : List (Piece α)) :
    expand fill (s.map Piece.item ++ pieces) = s ++ expand fill pieces := by
  induction s with
  | nil => rfl
  | cons x s ih => exact congrArg (x :: ·) ih

theorem holes_items (s : List α) (pieces : List (Piece α)) : holes (s.map Piece.item ++ pieces) = holes pieces := by
  induction s with
  | nil => rfl
  | cons x s ih => exact (List.countP_cons_of_neg Bool.false_ne_true).trans ih

end Pieces

/-! ## Replacing -/

variable [DecidableEq α]

/-- The items of an occurrence that has been replaced are skipped. -/
def replaceFrom (pattern value : List α) : Nat → List α → List α
  | _, [] => []
  | skip + 1, _ :: text => replaceFrom pattern value skip text
  | 0, c :: text =>
    if pattern <+: c :: text then value ++ replaceFrom pattern value (pattern.length - 1) text
    else c :: replaceFrom pattern value 0 text

/-- `text.replace(pattern, value)`. -/
def replaceAll (pattern value text : List α) : List α := replaceFrom pattern value 0 text

/-- Where the pattern stands in a text. -/
def occurrences (pattern : List α) : List α → Nat
  | [] => 0
  | c :: text => (if pattern <+: c :: text then 1 else 0) + occurrences pattern text

section Steps

variable {p v text : List α} {c : α}

theorem replaceFrom_skip (p v : List α) (skip : Nat) (text : List α) :
    replaceFrom p v skip text = replaceAll p v (text.drop skip) := by
  induction skip generalizing text with
  | zero => rfl
  | succ skip ih =>
    cases text with
    | nil => rfl
    | cons c text => exact ih text

theorem replaceAll_append (hne : p ≠ []) (v text : List α) : replaceAll p v (p ++ text) = v ++ replaceAll p v text := by
  obtain ⟨x, p', rfl⟩ := List.exists_cons_of_ne_nil hne
  have hstep : replaceAll (x :: p') v (x :: (p' ++ text)) = v ++ replaceFrom (x :: p') v p'.length (p' ++ text) :=
    if_pos (List.prefix_append (x :: p') text)
  rw [List.cons_append, hstep, replaceFrom_skip, List.drop_left]

theorem replaceAll_cons (h : ¬ p <+: c :: text) (v : List α) : replaceAll p v (c :: text) = c :: replaceAll p v text :=
  if_neg h

theorem occurrences_append_of_suffix (hp : Unbordered p) {s : List α} (hs : s <:+ p) (hlt : s.length < p.length)
    (text : List α) : occurrences p (s ++ text) = occurrences p text := by
  induction s with
  | nil => rfl
  | cons x s ih =>
    have hnot : ¬ p <+: x :: (s ++ text) := by
      intro hprefix
      have hborder := List.prefix_of_prefix_length_le (List.prefix_append (x :: s) text) hprefix (Nat.le_of_lt hlt)
      rcases hp _ hborder hs with hnil | hsame
      · cases hnil
      · rw [hsame] at hlt
        exact absurd hlt (Nat.lt_irrefl _)
    rw [List.cons_append, occurrences, if_neg hnot, Nat.zero_add]
    exact ih ((List.suffix_cons x s).trans hs) (Nat.lt_of_succ_lt hlt)

/-- No occurrence begins within another. -/
theorem occurrences_append (hp : Unbordered p) (hne : p ≠ []) (text : List α) :
    occurrences p (p ++ text) = 1 + occurrences p text := by
  obtain ⟨x, p', rfl⟩ := List.exists_cons_of_ne_nil hne
  have hfront : x :: p' <+: x :: (p' ++ text) := List.prefix_append (x :: p') text
  rw [List.cons_append, occurrences, if_pos hfront,
    occurrences_append_of_suffix hp (List.suffix_cons x p') (Nat.lt_succ_self _)]

end Steps

/-- Pieces are used up from the left: a hole, items that spell the pattern, or an item where it does not stand. -/
theorem pieces_induction {p : List α} (hp : Unbordered p) (hne : p ≠ []) {motive : List (Piece α) → Prop}
    (nil : motive []) (hole : ∀ pieces, motive pieces → motive (.hole :: pieces))
    (stray : ∀ pieces, motive pieces → motive (p.map Piece.item ++ pieces))
    (item : ∀ c pieces, ¬ p <+: c :: expand p pieces → motive pieces → motive (.item c :: pieces))
    (pieces : List (Piece α)) : motive pieces := by
  induction hn : pieces.length using Nat.strong_induction_on generalizing pieces with
  | _ n ih =>
    cases pieces with
    | nil => exact nil
    | cons piece pieces =>
      have hlt : pieces.length < n := hn ▸ Nat.lt_succ_self _
      cases piece with
      | hole => exact hole pieces (ih _ hlt pieces rfl)
      | item c =>
        by_cases hprefix : p <+: c :: expand p pieces
        · obtain ⟨rest, hrest⟩ := items_of_prefix hp hprefix hne
          rw [hrest] at hn ⊢
          rw [List.length_append, List.length_map] at hn
          have hpos := List.length_pos_iff.mpr hne
          exact stray rest (ih rest.length (by omega) rest rfl)
        · exact item c pieces hprefix (ih _ hlt pieces rfl)

section Expand

variable {p v : List α} (hp : Unbordered p) (hne : p ≠ [])
include hp hne

/-- The pattern stands in every hole it fills. -/
theorem holes_le_occurrences (pieces : List (Piece α)) : holes pieces ≤ occurrences p (expand p pieces) := by
  induction pieces using pieces_induction hp hne with
  | nil => exact Nat.zero_le _
  | hole pieces ih =>
    have hholes : holes (.hole :: pieces) = holes pieces + 1 := List.countP_cons_of_pos rfl
    have hexpand : expand p (.hole :: pieces) = p ++ expand p pieces := rfl
    rw [hholes, hexpand, occurrences_append hp hne]
    omega
  | stray pieces ih =>
    rw [expand_items, holes_items, occurrences_append hp hne]
    omega
  | item c pieces hnot ih =>
    have hholes : holes (.item c :: pieces) = holes pieces := List.countP_cons_of_neg Bool.false_ne_true
    have hexpand : expand p (.item c :: pieces) = c :: expand p pieces := rfl
    rw [hholes, hexpand, occurrences, if_neg hnot]
    omega

/-- How long the text is after the pattern is replaced, and with its holes filled. -/
theorem length_replaceAll (v : List α) (pieces : List (Piece α)) :
    ((replaceAll p v (expand p pieces)).length : Int) =
        (expand v pieces).length + (occurrences p (expand p pieces) - holes pieces) * (v.length - p.length) := by
  induction pieces using pieces_induction hp hne with
  | nil => simp [expand, replaceAll, replaceFrom, occurrences, holes]
  | hole pieces ih =>
    have hholes : holes (.hole :: pieces) = holes pieces + 1 := List.countP_cons_of_pos rfl
    have hexpand : ∀ fill : List α, expand fill (.hole :: pieces) = fill ++ expand fill pieces := fun _ => rfl
    rw [hholes, hexpand, hexpand, occurrences_append hp hne, replaceAll_append hne, List.length_append, List.length_append]
    push_cast
    linarith
  | stray pieces ih =>
    rw [expand_items, expand_items, holes_items, occurrences_append hp hne, replaceAll_append hne, List.length_append,
      List.length_append]
    push_cast
    linarith
  | item c pieces hnot ih =>
    have hholes : holes (.item c :: pieces) = holes pieces := List.countP_cons_of_neg Bool.false_ne_true
    have hexpand : ∀ fill : List α, expand fill (.item c :: pieces) = c :: expand fill pieces := fun _ => rfl
    rw [hholes, hexpand, hexpand, occurrences, if_neg hnot, replaceAll_cons hnot, List.length_cons, List.length_cons]
    push_cast
    linarith

/-- **Replacing the pattern fills the holes it stands in, and no more**, if it stands nowhere else. -/
theorem replaceAll_expand_iff (v : List α) (pieces : List (Piece α)) : replaceAll p v (expand p pieces) = expand v pieces ↔
    occurrences p (expand p pieces) = holes pieces ∨ v = p := by
  induction pieces using pieces_induction hp hne with
  | nil => exact ⟨fun _ => Or.inl rfl, fun _ => rfl⟩
  | hole pieces ih =>
    have hholes : holes (.hole :: pieces) = holes pieces + 1 := List.countP_cons_of_pos rfl
    have hexpand : ∀ fill : List α, expand fill (.hole :: pieces) = fill ++ expand fill pieces := fun _ => rfl
    rw [hholes, hexpand, hexpand, occurrences_append hp hne, replaceAll_append hne, List.append_cancel_left_eq, ih,
      Nat.add_comm 1, Nat.add_right_cancel_iff]
  | stray pieces ih =>
    have hle := holes_le_occurrences hp hne pieces
    have hlength := length_replaceAll hp hne v pieces
    rw [expand_items, expand_items, holes_items, occurrences_append hp hne, replaceAll_append hne]
    constructor
    · intro h
      -- as many more items as each stray occurrence brings: none
      have htotal := congrArg List.length h
      rw [List.length_append, List.length_append] at htotal
      have hsame : ((1 + (occurrences p (expand p pieces) - holes pieces : Int)) * (v.length - p.length)) = 0 := by
        linarith
      have hpos : (0 : Int) < 1 + (occurrences p (expand p pieces) - holes pieces : Int) := by omega
      have hzero := (mul_eq_zero.mp hsame).resolve_left (ne_of_gt hpos)
      exact Or.inr (List.append_inj_left h (by omega))
    · rintro (hcount | rfl)
      · omega
      · rw [ih.mpr (Or.inr rfl)]
  | item c pieces hnot ih =>
    have hholes : holes (.item c :: pieces) = holes pieces := List.countP_cons_of_neg Bool.false_ne_true
    have hexpand : ∀ fill : List α, expand fill (.item c :: pieces) = c :: expand fill pieces := fun _ => rfl
    rw [hholes, hexpand, hexpand, occurrences, if_neg hnot, replaceAll_cons hnot, List.cons.injEq, Nat.zero_add, ih]
    exact and_iff_right rfl

end Expand

end CodeReader.Replace
