import CodeReader.Txn.System

/-!
# Rely and guarantee for interleaved programs

`R l s s'` — what the other threads may do to the shared state while a thread knows `l` of its own
transaction (the locks it holds and the tables it has read); `G a l s s'` — what one of its own statements
of kind `a` does.

* `wp R G i Q p l s` — from `s`, with `R`-steps of the others before every statement, each shared statement of
  `p` meets `G`, and `p` ends in `Q`;
* `wp_bind` — the rule for sequencing, one for each program;
* `Reach.good` — if what each thread guarantees is what the others rely on, every thread of every
  reachable state is where its `wp` says;
* `ReachWhen.good` — the same for runs that meet a condition, with an invariant that they keep;
* `Reach.inv` — and an invariant of the shared state that every guaranteed statement keeps holds of every
  reachable state.
-/

namespace CodeReader.Txn

variable {I : Iface} {τ α β : Type}

/-- The statements that others see: a commit, a command of the store, an observation. -/
inductive Act
  | commit | store | observe
  deriving DecidableEq

section Wp

variable (R : Local I → Shared I τ → Shared I τ → Prop) (G : Act → Local I → Shared I τ → Shared I τ → Prop) (i : τ)

/-- Every run of `p` among `R`-steps of the others meets `G` and ends in `Q`. -/
def wp (Q : Except I.Err α → Local I → Shared I τ → Prop) : Prog I α → Local I → Shared I τ → Prop
  | .ret a, l, s => ∀ s', R l s s' → Q (.ok a) l s'
  | .throw e, l, s => ∀ s', R l s s' → Q (.error e) l s'
  | .lock r k, l, s => ∀ s', R l s s' → wp Q k { l with held := insert r l.held } s'
  | .select t f k, l, s => ∀ s', R l s s' → wp Q (k (f (l.view s'.db)))
      { l with reads := ⟨t, s'.commits.length⟩ :: l.reads } s'
  | .write f k, l, s => ∀ s', R l s s' → wp Q k { l with view := f ∘ l.view } s'
  | .commit k, l, s => ∀ s', R l s s' →
      G .commit l s' { s' with db := l.view s'.db, commits := s'.commits ++ [i] } ∧
      wp Q k .idle { s' with db := l.view s'.db, commits := s'.commits ++ [i] }
  | .kv f k, l, s => ∀ s', R l s s' → G .store l s' { s' with kv := (f s'.kv).2 } ∧
      wp Q (k (f s'.kv).1) l { s' with kv := (f s'.kv).2 }
  | .emit e k, l, s => ∀ s', R l s s' → G .observe l s' { s' with trace := s'.trace ++ [(i, e)] } ∧
      wp Q k l { s' with trace := s'.trace ++ [(i, e)] }

variable {R G i}

/-- The others may move before the program starts. -/
theorem wp_rely (htrans : ∀ l a b c, R l a b → R l b c → R l a c)
    {Q : Except I.Err α → Local I → Shared I τ → Prop} {p : Prog I α} {l : Local I} {s s' : Shared I τ}
    (h : wp R G i Q p l s) (hs : R l s s') : wp R G i Q p l s' := by
  cases p <;> exact fun s'' hs' => h s'' (htrans _ _ _ _ hs hs')

theorem wp_mono {Q Q' : Except I.Err α → Local I → Shared I τ → Prop} (hQ : ∀ r l s, Q r l s → Q' r l s)
    {p : Prog I α} {l : Local I} {s : Shared I τ} (h : wp R G i Q p l s) : wp R G i Q' p l s := by
  induction p generalizing l s with
  | ret a => exact fun s' hs => hQ _ _ _ (h s' hs)
  | throw e => exact fun s' hs => hQ _ _ _ (h s' hs)
  | lock r k ih => exact fun s' hs => ih (h s' hs)
  | select t f k ih => exact fun s' hs => ih _ (h s' hs)
  | write f k ih => exact fun s' hs => ih (h s' hs)
  | commit k ih => exact fun s' hs => ⟨(h s' hs).1, ih (h s' hs).2⟩
  | kv f k ih => exact fun s' hs => ⟨(h s' hs).1, ih _ (h s' hs).2⟩
  | emit e k ih => exact fun s' hs => ⟨(h s' hs).1, ih (h s' hs).2⟩

/-- **Sequencing**: `p` ends where `g` can start, or ends in an exception that meets `Q`. -/
theorem wp_bind (hrefl : ∀ l s, R l s s) {Q : Except I.Err β → Local I → Shared I τ → Prop}
    {g : α → Prog I β} {p : Prog I α} {l : Local I} {s : Shared I τ}
    (h : wp R G i (fun r l s => match r with
      | .ok a => wp R G i Q (g a) l s
      | .error e => Q (.error e) l s) p l s) : wp R G i Q (p >>= g) l s := by
  induction p generalizing l s with
  | ret a => exact h s (hrefl l s)
  | throw e => exact h
  | lock r k ih => exact fun s' hs => ih (h s' hs)
  | select t f k ih => exact fun s' hs => ih _ (h s' hs)
  | write f k ih => exact fun s' hs => ih (h s' hs)
  | commit k ih => exact fun s' hs => ⟨(h s' hs).1, ih (h s' hs).2⟩
  | kv f k ih => exact fun s' hs => ⟨(h s' hs).1, ih _ (h s' hs).2⟩
  | emit e k ih => exact fun s' hs => ⟨(h s' hs).1, ih (h s' hs).2⟩

end Wp

/-! ## Soundness -/

variable [DecidableEq τ] [DecidableEq I.Lock]

/-- Thread `i` is where its `wp` says. -/
def Good (R : τ → Local I → Shared I τ → Shared I τ → Prop)
    (G : τ → Act → Local I → Shared I τ → Shared I τ → Prop)
    (Q : τ → Except I.Err α → Shared I τ → Prop) (s : Sys I τ α) (i : τ) : Prop :=
  match s.threads i with
  | .running p _ _ => wp (R i) (G i) i (fun r _ s => Q i r s) p (s.localOf i) s.shared
  | .done r => s.heldBy i = ∅ ∧ Q i r s.shared
  | .dead => True

/-- What one statement of thread `i` does: to itself, to the shared state, and to the others (nothing). -/
structure StepSpec (R : τ → Local I → Shared I τ → Shared I τ → Prop)
    (G : τ → Act → Local I → Shared I τ → Shared I τ → Prop)
    (Q : τ → Except I.Err α → Shared I τ → Prop) (s s' : Sys I τ α) (i : τ) : Prop where
  self : Good R G Q s' i
  shared : s'.shared = s.shared ∨
    ((∃ k reads view, s.threads i = .running (.commit k) reads view) ∧
      G i .commit (s.localOf i) s.shared s'.shared) ∨
    ∃ a, a ≠ .commit ∧ G i a (s.localOf i) s.shared s'.shared
  threads : ∀ j, j ≠ i → s'.threads j = s.threads j
  held : ∀ j, j ≠ i → s'.heldBy j = s.heldBy j

omit [DecidableEq τ] in
theorem heldBy_update_self {s : Sys I τ α} {i : τ} (r : I.Lock) :
    ({ s with locks := Function.update s.locks r (some i) } : Sys I τ α).heldBy i = insert r (s.heldBy i) := by
  ext r'
  simp only [Sys.heldBy, Set.mem_ofPred_eq, Set.mem_insert_iff]
  by_cases h : r' = r <;> simp [h]

omit [DecidableEq τ] in
theorem heldBy_update_ne {s : Sys I τ α} {i j : τ} {r : I.Lock} (hj : j ≠ i)
    (hr : s.locks r = none ∨ s.locks r = some i) :
    ({ s with locks := Function.update s.locks r (some i) } : Sys I τ α).heldBy j = s.heldBy j := by
  ext r'
  simp only [Sys.heldBy, Set.mem_ofPred_eq]
  by_cases h : r' = r
  · subst h
    rcases hr with hr | hr <;> simp [hr, Ne.symm hj]
  · simp [h]

variable {R : τ → Local I → Shared I τ → Shared I τ → Prop}
  {G : τ → Act → Local I → Shared I τ → Shared I τ → Prop} {Q : τ → Except I.Err α → Shared I τ → Prop}

omit [DecidableEq τ] [DecidableEq I.Lock] in
/-- At the start every thread is at the head of its program. -/
theorem good_start {db : I.Db} {kv : I.Kv} {prog : τ → Prog I α} {i : τ}
    (h : wp (R i) (G i) i (fun r _ s => Q i r s) (prog i) .idle ⟨⟨db, kv⟩, [], []⟩) :
    Good R G Q (Sys.start db kv prog) i := by
  have hheld : (Sys.start db kv prog).heldBy i = ∅ := by
    ext r
    simp [Sys.heldBy, Sys.start]
  have hl : (Sys.start db kv prog).localOf i = .idle := by
    simp only [Sys.localOf, Sys.start, Local.idle]
    congr 1
  simp only [Good, hl]
  exact h

theorem Good.step (hrefl : ∀ i l s, R i l s s) {s s' : Sys I τ α} {i : τ} (h : Good R G Q s i)
    (hs : s.step i = some s') : StepSpec R G Q s s' i := by
  cases hi : s.threads i with
  | done r => simp [Sys.step, hi] at hs
  | dead => simp [Sys.step, hi] at hs
  | running p reads view =>
    have hl : s.localOf i = ⟨s.heldBy i, reads, view⟩ := by simp [Sys.localOf, hi]
    simp only [Good, hi, hl] at h
    simp only [Sys.step, hi] at hs
    -- the clause of `wp` for the statement, with no step of the others before it
    cases p with
    | ret a =>
      cases hs
      refine ⟨?_, .inl rfl, fun j hj => by simp [Sys.setThread, hj], fun j hj => ?_⟩
      · simp only [Good, Sys.setThread_self]
        exact ⟨Sys.heldBy_release_self s i, h _ (hrefl _ _ _)⟩
      · exact Sys.heldBy_release_ne s hj
    | throw e =>
      cases hs
      refine ⟨?_, .inl rfl, fun j hj => by simp [Sys.setThread, hj], fun j hj => ?_⟩
      · simp only [Good, Sys.setThread_self]
        exact ⟨Sys.heldBy_release_self s i, h _ (hrefl _ _ _)⟩
      · exact Sys.heldBy_release_ne s hj
    | lock r k =>
      dsimp only at hs
      split at hs
      · rename_i hr
        cases hs
        refine ⟨?_, .inl rfl, fun j hj => by simp [Sys.setThread, hj],
          fun j hj => heldBy_update_ne hj hr⟩
        simp only [Good, Sys.setThread_self, Sys.localOf]
        have hh := heldBy_update_self (s := s) (i := i) r
        simp only [Sys.heldBy, Sys.setThread_locks] at hh ⊢
        rw [hh]
        exact h _ (hrefl _ _ _)
      · cases hs
    | select t f k =>
      cases hs
      refine ⟨?_, .inl rfl, fun j hj => by simp [Sys.setThread, hj], fun j hj => rfl⟩
      simp only [Good, Sys.setThread_self, Sys.localOf]
      exact h _ (hrefl _ _ _)
    | write f k =>
      cases hs
      refine ⟨?_, .inl rfl, fun j hj => by simp [Sys.setThread, hj], fun j hj => rfl⟩
      simp only [Good, Sys.setThread_self, Sys.localOf]
      exact h _ (hrefl _ _ _)
    | commit k =>
      cases hs
      obtain ⟨hG, hk⟩ := h _ (hrefl _ _ _)
      refine ⟨?_, .inr (.inl ⟨⟨k, reads, view, hi⟩, hl ▸ hG⟩), fun j hj => by simp [Sys.setThread, hj], fun j hj => ?_⟩
      · simp only [Good, Sys.setThread_self, Sys.localOf]
        have hh := Sys.heldBy_release_self s i
        simp only [Sys.heldBy, Sys.setThread_locks] at hh ⊢
        rw [hh]
        exact hk
      · exact Sys.heldBy_release_ne s hj
    | kv f k =>
      cases hs
      obtain ⟨hG, hk⟩ := h _ (hrefl _ _ _)
      refine ⟨?_, .inr (.inr ⟨.store, by decide, hl ▸ hG⟩), fun j hj => by simp [Sys.setThread, hj],
        fun j hj => rfl⟩
      simp only [Good, Sys.setThread_self, Sys.localOf]
      exact hk
    | emit e k =>
      cases hs
      obtain ⟨hG, hk⟩ := h _ (hrefl _ _ _)
      refine ⟨?_, .inr (.inr ⟨.observe, by decide, hl ▸ hG⟩), fun j hj => by simp [Sys.setThread, hj],
        fun j hj => rfl⟩
      simp only [Good, Sys.setThread_self, Sys.localOf]
      exact hk

/-- A commit meets what its thread guarantees. -/
theorem Good.commit (hrefl : ∀ i l s, R i l s s) {s s' : Sys I τ α} {i : τ} (h : Good R G Q s i) {k : Prog I α}
    {reads : List (Read I)} {view : I.Db → I.Db} (hi : s.threads i = .running (.commit k) reads view)
    (hs : s.step i = some s') : G i .commit (s.localOf i) s.shared s'.shared := by
  simp only [Good, hi] at h
  simp only [Sys.step, hi, Option.some.injEq] at hs
  have hl : s.localOf i = ⟨s.heldBy i, reads, view⟩ := by simp [Sys.localOf, hi]
  rw [hl] at h ⊢
  exact hs ▸ (h _ (hrefl _ _ _)).1

/-- What a proof by rely and guarantee has to show. -/
structure Rules (env : I.Kv → I.Kv → Prop) (s₀ : Sys I τ α)
    (R : τ → Local I → Shared I τ → Shared I τ → Prop)
    (G : τ → Act → Local I → Shared I τ → Shared I τ → Prop)
    (Q : τ → Except I.Err α → Shared I τ → Prop) : Prop where
  refl : ∀ i l s, R i l s s
  trans : ∀ i l a b c, R i l a b → R i l b c → R i l a c
  outside : ∀ i l (s : Shared I τ) kv, env s.kv kv → R i l s { s with kv := kv }
  /-- What one thread guarantees is what the others rely on. -/
  compat : ∀ (s : Sys I τ α) i j a S', j ≠ i → G i a (s.localOf i) s.shared S' → R j (s.localOf j) s.shared S'
  /-- A result stays true. -/
  stable : ∀ i r s s', Q i r s → R i .idle s s' → Q i r s'
  start : ∀ i, Good R G Q s₀ i

/-- What such a proof has to show where the statements meet `C`: the threads rely on each other only in states that have
`V`, which the statements keep. -/
structure RulesWhen (env : I.Kv → I.Kv → Prop) (C : Sys I τ α → τ → Prop) (V : Sys I τ α → Prop) (s₀ : Sys I τ α)
    (R : τ → Local I → Shared I τ → Shared I τ → Prop)
    (G : τ → Act → Local I → Shared I τ → Shared I τ → Prop)
    (Q : τ → Except I.Err α → Shared I τ → Prop) : Prop where
  refl : ∀ i l s, R i l s s
  trans : ∀ i l a b c, R i l a b → R i l b c → R i l a c
  outside : ∀ i l (s : Shared I τ) kv, env s.kv kv → R i l s { s with kv := kv }
  compat : ∀ (s : Sys I τ α) i j a S', V s → j ≠ i → G i a (s.localOf i) s.shared S' →
    R j (s.localOf j) s.shared S'
  stable : ∀ i r s s', Q i r s → R i .idle s s' → Q i r s'
  start : ∀ i, Good R G Q s₀ i
  valid_start : V s₀
  valid_step : ∀ s i s', V s → C s i → s.step i = some s' → StepSpec R G Q s s' i → V s'
  valid_crash : ∀ s i, V s → V (s.crash i)
  valid_outside : ∀ s kv, V s → env s.shared.kv kv → V (s.outside kv)

variable {env : I.Kv → I.Kv → Prop} {A : τ → Local I → Shared I τ → Prop} {C : Sys I τ α → τ → Prop}
  {V : Sys I τ α → Prop} {s₀ : Sys I τ α}

theorem Rules.rulesWhen (hr : Rules env s₀ R G Q) : RulesWhen env C (fun _ => True) s₀ R G Q :=
  { hr with
    compat := fun s i j a S' _ => hr.compat s i j a S'
    valid_start := trivial
    valid_step := fun _ _ _ _ _ _ _ => trivial
    valid_crash := fun _ _ _ => trivial
    valid_outside := fun _ _ _ _ => trivial }

omit [DecidableEq τ] [DecidableEq I.Lock] in
theorem Good.rely {s s' : Sys I τ α} {j : τ} (htrans : ∀ l a b c, R j l a b → R j l b c → R j l a c)
    (hstable : ∀ r s s', Q j r s → R j .idle s s' → Q j r s') (h : Good R G Q s j)
    (ht : s'.threads j = s.threads j) (hh : s'.heldBy j = s.heldBy j)
    (hR : R j (s.localOf j) s.shared s'.shared) : Good R G Q s' j := by
  unfold Good at h ⊢
  rw [ht]
  cases hj : s.threads j with
  | running p reads view =>
    have hl : s'.localOf j = s.localOf j := by simp [Sys.localOf, ht, hj, hh]
    simp only [hj] at h ⊢
    rw [hl]
    exact wp_rely htrans h hR
  | done r =>
    simp only [hj] at h ⊢
    have hl : s.localOf j = .idle := by simp [Sys.localOf, hj, h.1, Local.idle]
    exact ⟨hh ▸ h.1, hstable r _ _ h.2 (hl ▸ hR)⟩
  | dead => trivial

/-- **Soundness under a condition**: in every state reached every thread is where its `wp` says. -/
theorem ReachWhen.good (hr : RulesWhen env C V s₀ R G Q) {s : Sys I τ α} (h : ReachWhen env C s₀ s) :
    V s ∧ ∀ i, Good R G Q s i := by
  induction h with
  | start => exact ⟨hr.valid_start, hr.start⟩
  | @step s s' i _ hC hs ih =>
    obtain ⟨hV, hgood⟩ := ih
    have hstep := (hgood i).step hr.refl hs
    refine ⟨hr.valid_step s i s' hV hC hs hstep, fun j => ?_⟩
    by_cases hj : j = i
    · exact hj ▸ hstep.self
    · refine (hgood j).rely (hr.trans j) (hr.stable j) (hstep.threads j hj) (hstep.held j hj) ?_
      rcases hstep.shared with he | ⟨-, hG⟩ | ⟨a, -, hG⟩
      · rw [he]; exact hr.refl _ _ _
      · exact hr.compat s i j _ _ hV hj hG
      · exact hr.compat s i j a _ hV hj hG
  | @crash s i _ _ ih =>
    refine ⟨hr.valid_crash s i ih.1, fun j => ?_⟩
    by_cases hj : j = i
    · subst hj
      simp [Good, Sys.crash]
    · exact (ih.2 j).rely (hr.trans j) (hr.stable j) (Sys.setThread_ne _ _ hj) (Sys.heldBy_release_ne s hj)
        (hr.refl _ _ _)
  | @outside s kv _ he ih =>
    exact ⟨hr.valid_outside s kv ih.1 he,
      fun j => (ih.2 j).rely (hr.trans j) (hr.stable j) rfl rfl (hr.outside j _ _ _ he)⟩

/-- **Soundness**: in every reachable state every thread is where its `wp` says. -/
theorem Reach.good (hr : Rules env s₀ R G Q) {s : Sys I τ α} (h : Reach env A s₀ s) : ∀ i, Good R G Q s i :=
  (h.reachWhen.good hr.rulesWhen).2

/-- The rules hold from every reachable state on. -/
theorem Rules.restart (hr : Rules env s₀ R G Q) {s : Sys I τ α} (h : Reach env A s₀ s) : Rules env s R G Q :=
  { hr with start := h.good hr }

/-- **Invariants**: what the start has and every guaranteed statement keeps, every reachable state has; a commit is one
that the condition on commits admits. -/
theorem Reach.inv (hr : Rules env s₀ R G Q) {J : Shared I τ → Prop} (h₀ : J s₀.shared)
    (hcommit : ∀ (s : Sys I τ α) i S', A i (s.localOf i) s.shared → J s.shared →
      G i .commit (s.localOf i) s.shared S' → J S')
    (hother : ∀ (s : Sys I τ α) i a S', a ≠ .commit → J s.shared →
      G i a (s.localOf i) s.shared S' → J S')
    (hout : ∀ (S : Shared I τ) kv, env S.kv kv → J S → J { S with kv := kv })
    {s : Sys I τ α} (h : Reach env A s₀ s) : J s.shared := by
  induction h with
  | start => exact h₀
  | @step s s' i hs₀ hA hs ih =>
    rcases ((Reach.good hr hs₀ i).step hr.refl hs).shared with he | ⟨⟨k, reads, view, hk⟩, hG⟩ | ⟨a, ha, hG⟩
    · rw [he]; exact ih
    · exact hcommit s i _ (hA k reads view hk) ih hG
    · exact hother s i a _ ha ih hG
  | crash i _ _ ih => exact ih
  | outside kv _ he ih => exact hout _ _ he ih

end CodeReader.Txn
