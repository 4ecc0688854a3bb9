import CodeReader.Text.Lines
import Mathlib.Computability.RegularExpressions

/-!
# Patterns

Regular expressions over characters, and what `re.match` says of a pattern from `^` to `$`.

* `oneOf`, `oneOrMore`, `separatedBy`, `optional` — classes of characters, and what patterns are made of;
* `mem_oneOrMore_oneOf`, `mem_separatedBy` — the texts that they match;
* `matchLine` — `$` also matches before a last newline.
-/

namespace CodeReader.Text

open RegularExpression

variable {α : Type} {x : List α} {cs : List α} {r : RegularExpression α} {sep : α}

/-- `[abc]`. -/
def oneOf (cs : List α) : RegularExpression α := cs.foldr (fun c r => char c + r) 0

/-- `r+`. -/
def oneOrMore (r : RegularExpression α) : RegularExpression α := r * r.star

/-- `r?`. -/
def optional (r : RegularExpression α) : RegularExpression α := 1 + r

/-- `r(?:sep r)*`. -/
def separatedBy (sep : α) (r : RegularExpression α) : RegularExpression α := r * (char sep * r).star

theorem mem_oneOf : x ∈ (oneOf cs).matches' ↔ ∃ c ∈ cs, x = [c] := by
  induction cs with
  | nil => simp [oneOf]
  | cons c cs ih =>
    have hcons : oneOf (c :: cs) = char c + oneOf cs := rfl
    rw [hcons, matches'_add, Language.mem_add, ih, matches'_char, List.exists_mem_cons_iff]
    rfl

theorem mem_star_oneOf : x ∈ (oneOf cs).star.matches' ↔ ∀ c ∈ x, c ∈ cs := by
  rw [matches'_star, Language.mem_kstar]
  constructor
  · rintro ⟨pieces, rfl, hpieces⟩ c hc
    obtain ⟨piece, hpiece, hmem⟩ := List.mem_flatten.mp hc
    obtain ⟨d, hd, rfl⟩ := mem_oneOf.mp (hpieces piece hpiece)
    rwa [List.mem_singleton.mp hmem]
  · intro h
    have hletters : x = (x.map fun c => [c]).flatten := (List.flatMap_singleton' x).symm
    refine ⟨x.map fun c => [c], hletters, fun piece hpiece => ?_⟩
    obtain ⟨c, hc, rfl⟩ := List.mem_map.mp hpiece
    exact mem_oneOf.mpr ⟨c, h c hc, rfl⟩

theorem mem_oneOrMore_oneOf : x ∈ (oneOrMore (oneOf cs)).matches' ↔ x ≠ [] ∧ ∀ c ∈ x, c ∈ cs := by
  rw [oneOrMore, matches'_mul, Language.mem_mul]
  constructor
  · rintro ⟨first, hfirst, rest, hrest, rfl⟩
    obtain ⟨c, hc, rfl⟩ := mem_oneOf.mp hfirst
    exact ⟨List.cons_ne_nil c rest, List.forall_mem_cons.mpr ⟨hc, mem_star_oneOf.mp hrest⟩⟩
  · rintro ⟨hne, hall⟩
    obtain ⟨c, rest, rfl⟩ := List.exists_cons_of_ne_nil hne
    obtain ⟨hc, hrest⟩ := List.forall_mem_cons.mp hall
    exact ⟨[c], mem_oneOf.mpr ⟨c, hc, rfl⟩, rest, mem_star_oneOf.mpr hrest, rfl⟩

/-- **Pieces with separators between them.** -/
theorem mem_separatedBy : x ∈ (separatedBy sep r).matches' ↔
    ∃ pieces, pieces ≠ [] ∧ (∀ piece ∈ pieces, piece ∈ r.matches') ∧ x = [sep].intercalate pieces := by
  have hfield : ∀ field, field ∈ (char sep * r).matches' ↔ ∃ piece ∈ r.matches', field = sep :: piece := by
    intro field
    rw [matches'_mul, Language.mem_mul, matches'_char]
    constructor
    · rintro ⟨first, rfl, piece, hpiece, rfl⟩
      exact ⟨piece, hpiece, rfl⟩
    · rintro ⟨piece, hpiece, rfl⟩
      exact ⟨[sep], rfl, piece, hpiece, rfl⟩
  rw [separatedBy, matches'_mul, Language.mem_mul]
  constructor
  · rintro ⟨first, hfirst, rest, hrest, rfl⟩
    rw [matches'_star, Language.mem_kstar] at hrest
    obtain ⟨fields, rfl, hfields⟩ := hrest
    obtain ⟨pieces, hpieces, rfl⟩ : ∃ pieces : List (List α), (∀ piece ∈ pieces, piece ∈ r.matches') ∧ fields = pieces.map (sep :: ·) := by
      refine ⟨fields.map List.tail, fun piece hpiece => ?_, ?_⟩
      · obtain ⟨field, hmem, rfl⟩ := List.mem_map.mp hpiece
        obtain ⟨rest, hrest, rfl⟩ := (hfield field).mp (hfields field hmem)
        exact hrest
      · rw [List.map_map]
        refine ((List.map_congr_left fun field hmem => ?_).trans (List.map_id fields)).symm
        obtain ⟨piece, -, rfl⟩ := (hfield field).mp (hfields field hmem)
        rfl
    exact ⟨first :: pieces, List.cons_ne_nil first pieces, List.forall_mem_cons.mpr ⟨hfirst, hpieces⟩,
      (intercalate_cons sep first pieces).symm⟩
  · rintro ⟨pieces, hne, hall, rfl⟩
    obtain ⟨first, pieces, rfl⟩ := List.exists_cons_of_ne_nil hne
    obtain ⟨hfirst, hpieces⟩ := List.forall_mem_cons.mp hall
    refine ⟨first, hfirst, (pieces.map (sep :: ·)).flatten, ?_, (intercalate_cons sep first pieces).symm⟩
    rw [matches'_star, Language.mem_kstar]
    refine ⟨pieces.map (sep :: ·), rfl, fun field hmem => ?_⟩
    obtain ⟨piece, hpiece, rfl⟩ := List.mem_map.mp hmem
    exact (hfield _).mpr ⟨piece, hpieces piece hpiece, rfl⟩

theorem mem_optional : x ∈ (optional r).matches' ↔ x = [] ∨ x ∈ r.matches' := by
  rw [optional, matches'_add, Language.mem_add]
  rfl

/-- `re.match(r"^…$", text)`. -/
def matchLine (r : RegularExpression Char) (text : List Char) : Bool :=
  r.rmatch text || (text.getLast? == some '\n' && r.rmatch text.dropLast)

theorem matchLine_iff {r : RegularExpression Char} {text : List Char} (h : '\n' ∉ text) :
    matchLine r text = true ↔ text ∈ r.matches' := by
  have hlast : (text.getLast? == some '\n') = false := by
    rw [beq_eq_false_iff_ne]
    exact fun hlast => h (List.mem_of_getLast? hlast)
  rw [matchLine, hlast, Bool.false_and, Bool.or_false, rmatch_iff_matches']

end CodeReader.Text
