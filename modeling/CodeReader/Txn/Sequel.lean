import CodeReader.Txn.Script

/-!
# One script after another

* `Script.andThen` — a script, and what follows it however its last session ends;
* `wp_inv` — what all statements keep holds where a program ends;
* `wpScript_andThen` — **the rule** for a script and its sequel.
-/

namespace CodeReader.Txn

variable {I : Iface} {τ α : Type}

/-- The sessions of `s`, and then those of `t`. -/
def Script.andThen : Script I α → Script I α → Script I α
  | .stop, t => t
  | .session p next, t => .session p fun r => (next r).andThen t

section Rules

variable {R : Local I → Shared I τ → Shared I τ → Prop} {G : Act → Local I → Shared I τ → Shared I τ → Prop} {i : τ}
  {J : Shared I τ → Prop} {Q : Except I.Err α → Local I → Shared I τ → Prop}

/-- What the others and the statements that meet `G` keep. -/
theorem wp_inv (hR : ∀ l S S', J S → R l S S' → J S') (hG : ∀ a l S S', J S → G a l S S' → J S') {p : Prog I α}
    {l : Local I} {S : Shared I τ} (h : wp R G i Q p l S) (hJ : J S) : wp R G i (fun r l S => Q r l S ∧ J S) p l S := by
  induction p generalizing l S with
  | ret a => exact fun S' hS => ⟨h S' hS, hR _ _ _ hJ hS⟩
  | throw e => exact fun S' hS => ⟨h S' hS, hR _ _ _ hJ hS⟩
  | lock r k ih => exact fun S' hS => ih (h S' hS) (hR _ _ _ hJ hS)
  | select t f k ih => exact fun S' hS => ih _ (h S' hS) (hR _ _ _ hJ hS)
  | write f k ih => exact fun S' hS => ih (h S' hS) (hR _ _ _ hJ hS)
  | commit k ih =>
    intro S' hS
    obtain ⟨hstep, hk⟩ := h S' hS
    exact ⟨hstep, ih hk (hG _ _ _ _ (hR _ _ _ hJ hS) hstep)⟩
  | kv f k ih =>
    intro S' hS
    obtain ⟨hstep, hk⟩ := h S' hS
    exact ⟨hstep, ih _ hk (hG _ _ _ _ (hR _ _ _ hJ hS) hstep)⟩
  | emit e k ih =>
    intro S' hS
    obtain ⟨hstep, hk⟩ := h S' hS
    exact ⟨hstep, ih hk (hG _ _ _ _ (hR _ _ _ hJ hS) hstep)⟩

/-- **A script and its sequel**, which can start wherever `J` holds. -/
theorem wpScript_andThen (hR : ∀ l S S', J S → R l S S' → J S') (hG : ∀ a l S S', J S → G a l S S' → J S')
    {s t : Script I α} (ht : ∀ S, J S → wpScript R G i t S) {S : Shared I τ} (h : wpScript R G i s S) (hJ : J S) :
    wpScript R G i (s.andThen t) S := by
  induction s generalizing S with
  | stop => exact ht S hJ
  | session p next ih => exact wp_mono (fun r _ _ hend => ih r hend.1 hend.2) (wp_inv hR hG h hJ)

end Rules

end CodeReader.Txn
