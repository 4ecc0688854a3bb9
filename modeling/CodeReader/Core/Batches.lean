import Mathlib.Data.List.Forall2
import Mathlib.Data.List.Basic

/-!
# A batch, item by item

A loop over a batch takes each item in or turns it down; what it raises at an item ends it.

* `ingest` — the loop, with the items taken in and those turned down so far;
* `ingest_eq_ok` — what it returns, in terms of what the body says of each item;
* `EachOnce` — every item is taken in or turned down, at its index, whatever the others are;
* `eachOnce_iff` — **this is so when and only when the body raises at no item**.
-/

namespace CodeReader.Batches

section Ingest

variable {Item Loaded Rejected Raised : Type} (body : Nat → Item → Except Raised (Loaded ⊕ Rejected))

/-- The two lists after an item. -/
def record (soFar : List Loaded × List Rejected) : Loaded ⊕ Rejected → List Loaded × List Rejected
  | .inl item => (soFar.1 ++ [item], soFar.2)
  | .inr report => (soFar.1, soFar.2 ++ [report])

/-- `for index, item in enumerate(items)`, from an index on. -/
def ingestFrom : Nat → List Item → List Loaded × List Rejected → Except Raised (List Loaded × List Rejected)
  | _, [], soFar => .ok soFar
  | index, item :: items, soFar =>
    match body index item with
    | .error raised => .error raised
    | .ok outcome => ingestFrom (index + 1) items (record soFar outcome)

def ingest (items : List Item) : Except Raised (List Loaded × List Rejected) := ingestFrom body 0 items ([], [])

/-- What the body says of each item, from an index on. -/
inductive Outcomes : Nat → List Item → List (Loaded ⊕ Rejected) → Prop
  | nil (index : Nat) : Outcomes index [] []
  | cons {index : Nat} {item : Item} {items : List Item} {outcome : Loaded ⊕ Rejected} {outcomes : List (Loaded ⊕ Rejected)}
      (h : body index item = .ok outcome) (hrest : Outcomes (index + 1) items outcomes) :
      Outcomes index (item :: items) (outcome :: outcomes)

/-- In the result every item is in one of the two lists, in the order of the batch, and what becomes of it is said by the
body of the item and its index alone; a report keeps the index. -/
def EachOnce (indexOf : Rejected → Nat) (items : List Item) (result : Except Raised (List Loaded × List Rejected)) : Prop :=
  ∃ outcomes : List (Loaded ⊕ Rejected), outcomes.length = items.length ∧
    result = .ok (outcomes.filterMap Sum.getLeft?, outcomes.filterMap Sum.getRight?) ∧
    ∀ index item outcome, items[index]? = some item → outcomes[index]? = some outcome →
      body index item = .ok outcome ∧ ∀ report, outcome = .inr report → indexOf report = index

end Ingest

section Laws

variable {Item Loaded Rejected Raised : Type} {body : Nat → Item → Except Raised (Loaded ⊕ Rejected)}
  {items : List Item} {outcomes : List (Loaded ⊕ Rejected)} {index : Nat}

theorem Outcomes.length_eq (h : Outcomes body index items outcomes) : outcomes.length = items.length := by
  induction h with
  | nil => rfl
  | cons _ _ ih => rw [List.length_cons, List.length_cons, ih]

theorem Outcomes.body_eq (h : Outcomes body index items outcomes) : ∀ {k : Nat} {item : Item} {outcome : Loaded ⊕ Rejected},
    items[k]? = some item → outcomes[k]? = some outcome → body (index + k) item = .ok outcome := by
  induction h with
  | nil => exact fun hitem => by cases hitem
  | @cons index item items outcome outcomes hbody _ ih =>
    intro k item' outcome' hitem houtcome
    cases k with
    | zero =>
      cases hitem
      cases houtcome
      exact hbody
    | succ k =>
      have hnext := ih hitem houtcome
      rwa [Nat.add_right_comm] at hnext

theorem exists_outcomes (h : ∀ k item, items[k]? = some item → ∃ outcome, body (index + k) item = .ok outcome) :
    ∃ outcomes, Outcomes body index items outcomes := by
  induction items generalizing index with
  | nil => exact ⟨[], .nil index⟩
  | cons item items ih =>
    obtain ⟨outcome, houtcome⟩ := h 0 item rfl
    have hnext : ∀ k item', items[k]? = some item' → ∃ outcome, body (index + 1 + k) item' = .ok outcome := by
      intro k item' hitem
      rw [Nat.add_right_comm]
      exact h (k + 1) item' hitem
    obtain ⟨outcomes, houtcomes⟩ := ih hnext
    exact ⟨_, .cons houtcome houtcomes⟩

/-- What the loop returns adds the outcomes to what it had. -/
theorem ingestFrom_eq_ok {soFar result : List Loaded × List Rejected} :
    ingestFrom body index items soFar = .ok result ↔ ∃ outcomes, Outcomes body index items outcomes ∧
      result = (soFar.1 ++ outcomes.filterMap Sum.getLeft?, soFar.2 ++ outcomes.filterMap Sum.getRight?) := by
  induction items generalizing index soFar with
  | nil =>
    constructor
    · intro h
      cases h
      exact ⟨[], .nil index, by simp⟩
    · rintro ⟨outcomes, houtcomes, rfl⟩
      cases houtcomes
      simp [ingestFrom]
  | cons item items ih =>
    have hrecord : ∀ (outcome : Loaded ⊕ Rejected) (outcomes : List (Loaded ⊕ Rejected)),
        ((record soFar outcome).1 ++ outcomes.filterMap Sum.getLeft?, (record soFar outcome).2 ++ outcomes.filterMap Sum.getRight?) =
          (soFar.1 ++ (outcome :: outcomes).filterMap Sum.getLeft?, soFar.2 ++ (outcome :: outcomes).filterMap Sum.getRight?) := by
      intro outcome outcomes
      cases outcome with
      | inl item => exact Prod.ext (List.append_assoc _ _ _) rfl
      | inr report => exact Prod.ext rfl (List.append_assoc _ _ _)
    rw [ingestFrom]
    constructor
    · intro h
      cases hbody : body index item with
      | error raised => rw [hbody] at h; cases h
      | ok outcome =>
        rw [hbody] at h
        obtain ⟨outcomes, houtcomes, hresult⟩ := ih.mp h
        exact ⟨_, .cons hbody houtcomes, by rw [hresult, hrecord]⟩
    · rintro ⟨outcomes, houtcomes, hresult⟩
      cases houtcomes with
      | cons hbody hrest =>
        rw [hbody]
        exact ih.mpr ⟨_, hrest, by rw [hresult, hrecord]⟩

theorem ingest_eq_ok {result : List Loaded × List Rejected} : ingest body items = .ok result ↔
    ∃ outcomes, Outcomes body 0 items outcomes ∧
      result = (outcomes.filterMap Sum.getLeft?, outcomes.filterMap Sum.getRight?) := by
  rw [ingest, ingestFrom_eq_ok]
  rfl

/-- **Every item is taken in or turned down when and only when the body raises at none.** -/
theorem eachOnce_iff {indexOf : Rejected → Nat}
    (hindex : ∀ index item report, body index item = .ok (.inr report) → indexOf report = index) :
    EachOnce body indexOf items (ingest body items) ↔ ∀ index item, items[index]? = some item → ∃ outcome, body index item = .ok outcome := by
  constructor
  · rintro ⟨outcomes, hlength, -, hall⟩ index item hitem
    obtain ⟨hlt, -⟩ := List.getElem?_eq_some_iff.mp hitem
    have houtcome : outcomes[index]? = some (outcomes.get ⟨index, hlength ▸ hlt⟩) := List.getElem?_eq_getElem _
    exact ⟨_, (hall index item _ hitem houtcome).1⟩
  · intro h
    have hfrom : ∀ k item, items[k]? = some item → ∃ outcome, body (0 + k) item = .ok outcome := by
      intro k item hitem
      rw [Nat.zero_add]
      exact h k item hitem
    obtain ⟨outcomes, houtcomes⟩ := exists_outcomes hfrom
    refine ⟨outcomes, houtcomes.length_eq, ingest_eq_ok.mpr ⟨outcomes, houtcomes, rfl⟩, fun index item outcome hitem hout => ?_⟩
    have hbody := houtcomes.body_eq hitem hout
    rw [Nat.zero_add] at hbody
    exact ⟨hbody, fun report hreport => hindex index item report (hreport ▸ hbody)⟩

end Laws

end CodeReader.Batches
