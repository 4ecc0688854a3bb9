import Mathlib.Data.List.Infix

/-!
# Histories of a state machine

What held of some earlier state, and what every step of a run meets, for runs of operations `ω` from a state `σ`.

* `Ever step P s ops` — `P` held of the start, or of a state that the run has been in;
* `Steps step Q s ops` — every operation meets `Q` of the run before it.
-/

namespace CodeReader.Txn

variable {σ ω : Type} {step : σ → ω → σ} {P : σ → Prop} {Q Q' : List ω → ω → Prop} {s : σ} {ops : List ω} {o : ω}

/-- `P` holds of some state of the run. -/
def Ever (step : σ → ω → σ) (P : σ → Prop) (s : σ) (ops : List ω) : Prop :=
  ∃ pre, pre <+: ops ∧ P (pre.foldl step s)

theorem prefix_append_singleton {pre : List ω} : pre <+: ops ++ [o] ↔ pre <+: ops ∨ pre = ops ++ [o] := by
  rw [List.prefix_concat_iff, or_comm]

theorem Ever.now (h : P (ops.foldl step s)) : Ever step P s ops := ⟨ops, List.prefix_rfl, h⟩

theorem Ever.later {ops' : List ω} (h : Ever step P s ops) (hp : ops <+: ops') : Ever step P s ops' := by
  obtain ⟨pre, hpre, hP⟩ := h
  exact ⟨pre, hpre.trans hp, hP⟩

theorem ever_append_singleton : Ever step P s (ops ++ [o]) ↔ Ever step P s ops ∨ P (step (ops.foldl step s) o) := by
  constructor
  · rintro ⟨pre, hpre, hP⟩
    rcases prefix_append_singleton.mp hpre with h | rfl
    · exact .inl ⟨pre, h, hP⟩
    · rw [List.foldl_append] at hP
      exact .inr hP
  · rintro (h | h)
    · exact h.later (List.prefix_append _ _)
    · refine ⟨ops ++ [o], List.prefix_rfl, ?_⟩
      rw [List.foldl_append]
      exact h

/-- Every operation of the run meets `Q` of the operations before it. -/
def Steps (Q : List ω → ω → Prop) (ops : List ω) : Prop := ∀ pre o, pre ++ [o] <+: ops → Q pre o

theorem steps_nil : Steps Q ([] : List ω) := by
  intro pre o h
  simp at h

theorem steps_append_singleton : Steps Q (ops ++ [o]) ↔ Steps Q ops ∧ Q ops o := by
  constructor
  · exact fun h => ⟨fun pre o' hpre => h pre o' (hpre.trans (List.prefix_append _ _)), h ops o List.prefix_rfl⟩
  · rintro ⟨h, hlast⟩ pre o' hpre
    rcases prefix_append_singleton.mp hpre with hp | hp
    · exact h pre o' hp
    · obtain ⟨rfl, ho⟩ := List.append_inj' hp rfl
      cases ho
      exact hlast

/-- **Runs step by step**: what holds of every state and every step of a run. -/
theorem steps_iff (hPQ : ∀ pre o, Steps Q pre → Steps Q' pre → (Q pre o ↔ Q' pre o)) : Steps Q ops ↔ Steps Q' ops := by
  induction ops using List.reverseRecOn with
  | nil => exact ⟨fun _ => steps_nil, fun _ => steps_nil⟩
  | append_singleton ops o ih =>
    rw [steps_append_singleton, steps_append_singleton]
    constructor
    · exact fun ⟨h, hlast⟩ => ⟨ih.mp h, (hPQ ops o h (ih.mp h)).mp hlast⟩
    · exact fun ⟨h, hlast⟩ => ⟨ih.mpr h, (hPQ ops o (ih.mpr h) h).mpr hlast⟩

end CodeReader.Txn
