import CodeReader.Txn.RelyGuarantee

/-!
# Sessions one after another

A job opens a session, closes it, and opens another one, whatever became of the one before: an exception ends the
session that it is thrown in, and a crash ends the job.

* `Script I α` — the sessions of a job, each depending on how the one before it ended;
* `Scripts.step` — a statement of a session, or the turn from a session that is over to the next;
* `Scripts.Reach` — the states reached by steps, crashes, and changes of the key-value store from outside;
* `wpScript` — from `s`, each session of the script is as its `wp` says;
* `Scripts.Reach.good`, `Scripts.Reach.inv` — rely and guarantee for scripts.
-/

namespace CodeReader.Txn

variable {I : Iface} {τ α : Type}

/-- Sessions, and what follows each of them. -/
inductive Script (I : Iface) (α : Type) : Type 1
  | stop
  | session (p : Prog I α) (next : Except I.Err α → Script I α)

namespace Script

/-- The thread that runs the first session. -/
def head : Script I α → Thread I α
  | stop => .dead
  | session p _ => .running p [] id

def rest : Script I α → Except I.Err α → Script I α
  | stop => fun _ => stop
  | session _ next => next

end Script

/-- The sessions that are open, and what follows them. -/
structure Scripts (I : Iface) (τ α : Type) where
  sys : Sys I τ α
  next : τ → Except I.Err α → Script I α

/-- A statement of one thread leaves the other threads where they are. -/
theorem Sys.step_threads [DecidableEq τ] [DecidableEq I.Lock] {s s' : Sys I τ α} {i j : τ} (h : s.step i = some s')
    (hj : j ≠ i) : s'.threads j = s.threads j := by
  cases hi : s.threads i with
  | done r => simp [Sys.step, hi] at h
  | dead => simp [Sys.step, hi] at h
  | running p reads view =>
    simp only [Sys.step, hi] at h
    cases p with
    | lock r k =>
      dsimp only at h
      split at h
      · cases h
        exact Sys.setThread_ne _ _ hj
      · cases h
    | _ =>
      cases h
      exact Sys.setThread_ne _ _ hj

namespace Scripts

/-- Every thread at the head of its script. -/
def start (db : I.Db) (kv : I.Kv) (script : τ → Script I α) : Scripts I τ α where
  sys := ⟨⟨⟨db, kv⟩, [], []⟩, fun _ => none, fun i => (script i).head⟩
  next i := (script i).rest

/-- The key-value store changes from outside. -/
def outside (s : Scripts I τ α) (kv : I.Kv) : Scripts I τ α := { s with sys := s.sys.outside kv }

variable [DecidableEq τ]

/-- Thread `i`, whose session has ended in `r`, opens the next one. -/
def turn (s : Scripts I τ α) (i : τ) (r : Except I.Err α) : Scripts I τ α where
  sys := s.sys.setThread i (s.next i r).head
  next := Function.update s.next i (s.next i r).rest

/-- Thread `i` dies, in a session or between two of them. -/
def crash (s : Scripts I τ α) (i : τ) : Scripts I τ α := { s with sys := s.sys.crash i }

variable [DecidableEq I.Lock]

/-- One step of thread `i`. -/
def step (s : Scripts I τ α) (i : τ) : Option (Scripts I τ α) :=
  match s.sys.threads i with
  | .done r => some (s.turn i r)
  | _ => (s.sys.step i).map fun sys => { s with sys := sys }

/-- The schedule `is` run from `s`. -/
def schedule (A : τ → Local I → Shared I τ → Prop) [∀ i l S, Decidable (A i l S)] (s : Scripts I τ α) :
    List τ → Option (Scripts I τ α)
  | [] => some s
  | i :: is => if s.sys.admits A i then (s.step i).bind fun s' => s'.schedule A is else none

/-- Where a schedule leads, or the start when it is none. -/
def after (A : τ → Local I → Shared I τ → Prop) [∀ i l S, Decidable (A i l S)] (s : Scripts I τ α) (is : List τ) :
    Scripts I τ α := (s.schedule A is).getD s

/-- The states reached from `s₀` when each commit meets `A` and the store changes from outside by `env`. -/
inductive Reach (env : I.Kv → I.Kv → Prop) (A : τ → Local I → Shared I τ → Prop) (s₀ : Scripts I τ α) :
    Scripts I τ α → Prop
  | start : Reach env A s₀ s₀
  | step {s s' : Scripts I τ α} (i : τ) : Reach env A s₀ s → Admits A s.sys i → s.step i = some s' → Reach env A s₀ s'
  | crash {s : Scripts I τ α} (i : τ) : Reach env A s₀ s → Reach env A s₀ (s.crash i)
  | outside {s : Scripts I τ α} (kv : I.Kv) : Reach env A s₀ s → env s.sys.shared.kv kv → Reach env A s₀ (s.outside kv)

section Runs

variable {env : I.Kv → I.Kv → Prop} {A : τ → Local I → Shared I τ → Prop} {s₀ s s' : Scripts I τ α} {i : τ}

/-- A step is a turn, or a statement. -/
theorem step_cases (h : s.step i = some s') :
    (∃ r, s.sys.threads i = .done r ∧ s' = s.turn i r) ∨
    ((∃ p reads view, s.sys.threads i = .running p reads view) ∧ s.sys.step i = some s'.sys ∧ s'.next = s.next) := by
  unfold step at h
  split at h
  · rename_i r hr
    cases h
    exact .inl ⟨r, hr, rfl⟩
  · rename_i hnot
    obtain ⟨sys, hsys, rfl⟩ := Option.map_eq_some_iff.mp h
    refine .inr ⟨?_, hsys, rfl⟩
    cases hi : s.sys.threads i with
    | running p reads view => exact ⟨p, reads, view, rfl⟩
    | done r => exact absurd hi (hnot r)
    | dead => simp [Sys.step, hi] at hsys

theorem Reach.trans {s₁ s₂ : Scripts I τ α} (h : Reach env A s₀ s₁) (h' : Reach env A s₁ s₂) : Reach env A s₀ s₂ := by
  induction h' with
  | start => exact h
  | step i _ hA hs ih => exact ih.step i hA hs
  | crash i _ ih => exact ih.crash i
  | outside kv _ hkv ih => exact ih.outside kv hkv

theorem Reach.mono {A' : τ → Local I → Shared I τ → Prop} (hA : ∀ i l S, A i l S → A' i l S)
    (h : Reach env A s₀ s) : Reach env A' s₀ s := by
  induction h with
  | start => exact .start
  | step i _ hadmits hs ih => exact ih.step i (fun k reads view hk => hA _ _ _ (hadmits k reads view hk)) hs
  | crash i _ ih => exact ih.crash i
  | outside kv _ hkv ih => exact ih.outside kv hkv

theorem Reach.of_schedule [∀ i l S, Decidable (A i l S)] {is : List τ} (h : Reach env A s₀ s)
    (hs : s.schedule A is = some s') : Reach env A s₀ s' := by
  induction is generalizing s with
  | nil =>
    cases hs
    exact h
  | cons i is ih =>
    unfold schedule at hs
    split at hs
    · rename_i hadmits
      obtain ⟨s₁, h₁, h₂⟩ := Option.bind_eq_some_iff.mp hs
      refine ih (h.step i (fun k reads view hk => ?_) h₁) h₂
      rw [Sys.admits, hk] at hadmits
      exact of_decide_eq_true hadmits
    · cases hs

theorem Reach.after [∀ i l S, Decidable (A i l S)] {is : List τ} (h : (s.schedule A is).isSome = true) :
    Reach env A s (s.after A is) := by
  obtain ⟨s', hs⟩ := Option.isSome_iff_exists.mp h
  rw [Scripts.after, hs]
  exact .of_schedule .start hs

/-- A dead thread stays dead. -/
theorem Reach.dead (h : Reach env A s s') (hi : s.sys.threads i = .dead) : s'.sys.threads i = .dead := by
  induction h with
  | start => exact hi
  | @step s₁ s₂ j _ _ hs ih =>
    obtain ⟨_, hr, rfl⟩ | ⟨⟨p, reads, view, hp⟩, hstep, -⟩ := step_cases hs
    · have hji : i ≠ j := fun he => by simp [← he, ih] at hr
      rw [turn, Sys.setThread_ne _ _ hji, ih]
    · have hji : i ≠ j := fun he => by simp [← he, ih] at hp
      rw [Sys.step_threads hstep hji, ih]
  | @crash s₁ j _ ih =>
    by_cases hji : i = j
    · rw [hji, Scripts.crash, Sys.crash, Sys.setThread_self]
    · rw [Scripts.crash, Sys.crash, Sys.setThread_ne _ _ hji, Sys.release_threads, ih]
  | outside kv _ _ ih => exact ih

end Runs

end Scripts

/-! ## Rely and guarantee -/

/-- Each session of the script meets `G` among `R`-steps of the others. -/
def wpScript (R : Local I → Shared I τ → Shared I τ → Prop) (G : Act → Local I → Shared I τ → Shared I τ → Prop) (i : τ) :
    Script I α → Shared I τ → Prop
  | .stop, _ => True
  | .session p next, S => wp R G i (fun r _ S => wpScript R G i (next r) S) p .idle S

theorem wpScript_rely {R : Local I → Shared I τ → Shared I τ → Prop}
    {G : Act → Local I → Shared I τ → Shared I τ → Prop} {i : τ} (htrans : ∀ l a b c, R l a b → R l b c → R l a c)
    {p : Script I α} {S S' : Shared I τ} (h : wpScript R G i p S) (hS : R .idle S S') : wpScript R G i p S' := by
  cases p with
  | stop => trivial
  | session p next => exact wp_rely htrans h hS

variable [DecidableEq τ] [DecidableEq I.Lock]

namespace Scripts

/-- What the result of a session has to say about what follows. -/
abbrev Follows (R : τ → Local I → Shared I τ → Shared I τ → Prop)
    (G : τ → Act → Local I → Shared I τ → Shared I τ → Prop) (next : τ → Except I.Err α → Script I α) (i : τ)
    (r : Except I.Err α) (S : Shared I τ) : Prop := wpScript (R i) (G i) i (next i r) S

/-- What a proof by rely and guarantee has to show. -/
structure Rules (env : I.Kv → I.Kv → Prop) (s₀ : Scripts I τ α) (R : τ → Local I → Shared I τ → Shared I τ → Prop)
    (G : τ → Act → Local I → Shared I τ → Shared I τ → Prop) : Prop where
  refl : ∀ i l S, R i l S S
  trans : ∀ i l a b c, R i l a b → R i l b c → R i l a c
  outside : ∀ i l (S : Shared I τ) kv, env S.kv kv → R i l S { S with kv := kv }
  /-- What one thread guarantees is what the others rely on. -/
  compat : ∀ (s : Sys I τ α) i j a S', j ≠ i → G i a (s.localOf i) s.shared S' → R j (s.localOf j) s.shared S'
  start : ∀ i, Good R G (Follows R G s₀.next) s₀.sys i

variable {env : I.Kv → I.Kv → Prop} {A : τ → Local I → Shared I τ → Prop} {s₀ s s' : Scripts I τ α}
  {R : τ → Local I → Shared I τ → Shared I τ → Prop} {G : τ → Act → Local I → Shared I τ → Shared I τ → Prop} {i : τ}

omit [DecidableEq τ] [DecidableEq I.Lock] in
theorem good_start {db : I.Db} {kv : I.Kv} {script : τ → Script I α}
    (h : wpScript (R i) (G i) i (script i) ⟨⟨db, kv⟩, [], []⟩) :
    Good R G (Follows R G (start db kv script).next) (start db kv script).sys i := by
  have hheld : (start db kv script).sys.heldBy i = ∅ := by
    ext r
    simp [Sys.heldBy, start]
  cases hi : script i with
  | stop => simp [Good, start, hi, Script.head]
  | session p next =>
    have hl : (start db kv script).sys.localOf i = .idle := by
      rw [Sys.localOf]
      simp only [start, hi, Script.head, Local.idle]
      congr 1
    simp only [Good, hl]
    rw [hi] at h
    have hnext : (start db kv script).next i = next := by simp only [start, hi, Script.rest]
    simp only [Follows, hnext]
    simp only [start, hi, Script.head]
    exact h

omit [DecidableEq τ] [DecidableEq I.Lock] in
/-- The rules of the sessions that are open. -/
theorem Rules.sessions (hr : Rules env s₀ R G) : Txn.Rules env s₀.sys R G (Follows R G s₀.next) where
  refl := hr.refl
  trans := hr.trans
  outside := hr.outside
  compat := hr.compat
  stable i _ _ _ h hS := wpScript_rely (hr.trans i) h hS
  start := hr.start

omit [DecidableEq I.Lock] in
/-- A turn leads to the head of what follows. -/
theorem good_turn {r : Except I.Err α} (hi : s.sys.threads i = .done r)
    (h : ∀ j, Good R G (Follows R G s.next) s.sys j) (j : τ) :
    Good R G (Follows R G (s.turn i r).next) (s.turn i r).sys j := by
  have hheld : ∀ j, (s.turn i r).sys.heldBy j = s.sys.heldBy j := fun j => rfl
  by_cases hj : j = i
  · subst hj
    have hdone := h j
    simp only [Good, hi] at hdone
    obtain ⟨hnone, hfollows⟩ := hdone
    cases hnext : s.next j r with
    | stop => simp [Good, turn, hnext, Script.head]
    | session p next =>
      have hl : (s.turn j r).sys.localOf j = .idle := by
        rw [Sys.localOf, hheld, hnone]
        simp only [turn, Sys.setThread_self, hnext, Script.head]
        rfl
      simp only [Good, hl]
      have hrest : (s.turn j r).next j = next := by
        simp only [turn, Function.update_self, hnext, Script.rest]
      simp only [Follows, hrest]
      simp only [turn, Sys.setThread_self, Sys.setThread_shared, hnext, Script.head]
      rw [Follows, hnext] at hfollows
      exact hfollows
  · have hthread : (s.turn i r).sys.threads j = s.sys.threads j := Sys.setThread_ne _ _ hj
    have hnext : (s.turn i r).next j = s.next j := Function.update_of_ne hj _ _
    have hl : (s.turn i r).sys.localOf j = s.sys.localOf j := by
      unfold Sys.localOf
      rw [hthread, hheld]
    have hgood := h j
    unfold Good at hgood ⊢
    rw [hthread, hl, hheld]
    simp only [Follows, hnext]
    exact hgood

/-- **Soundness**: in every reachable state every thread is where its `wpScript` says. -/
theorem Reach.good (hr : Rules env s₀ R G) (h : Reach env A s₀ s) : ∀ i, Good R G (Follows R G s.next) s.sys i := by
  induction h with
  | start => exact hr.start
  | @step s s' i _ hA hs ih =>
    have hrules : Rules env s R G := { hr with start := ih }
    obtain ⟨_, hdone, rfl⟩ | ⟨-, hstep, hnext⟩ := step_cases hs
    · exact good_turn hdone ih
    · rw [hnext]
      exact Txn.Reach.good hrules.sessions (Txn.Reach.start.step i hA hstep)
  | @crash s i _ ih =>
    have hrules : Rules env s R G := { hr with start := ih }
    intro j
    by_cases hj : j = i
    · simp [Good, hj, Scripts.crash, Sys.crash]
    · exact (ih j).rely (hrules.sessions.trans _) (hrules.sessions.stable _) (Sys.setThread_ne _ _ hj)
        (Sys.heldBy_release_ne _ hj) (hr.refl _ _ _)
  | @outside s kv _ he ih =>
    have hrules : Rules env s R G := { hr with start := ih }
    intro j
    exact (ih j).rely (hrules.sessions.trans _) (hrules.sessions.stable _) rfl rfl (hr.outside j _ _ _ he)

/-- The rules hold from every reachable state on. -/
theorem Rules.restart (hr : Rules env s₀ R G) (h : Reach env A s₀ s) : Rules env s R G :=
  { hr with start := h.good hr }

/-- **Invariants**: what the start has and every guaranteed statement keeps, every reachable state has. -/
theorem Reach.inv (hr : Rules env s₀ R G) {J : Shared I τ → Prop} (h₀ : J s₀.sys.shared)
    (hstep : ∀ (s : Scripts I τ α) i a S', Reach env A s₀ s → (∃ p reads view, s.sys.threads i = .running p reads view) →
      (a = .commit → A i (s.sys.localOf i) s.sys.shared) → J s.sys.shared →
      G i a (s.sys.localOf i) s.sys.shared S' → J S')
    (hout : ∀ (S : Shared I τ) kv, env S.kv kv → J S → J { S with kv := kv })
    (h : Reach env A s₀ s) : J s.sys.shared := by
  induction h with
  | start => exact h₀
  | @step s s' i hs₀ hA hs ih =>
    obtain ⟨_, -, rfl⟩ | ⟨hrun, hst, -⟩ := step_cases hs
    · exact ih
    · rcases ((hs₀.good hr i).step hr.refl hst).shared with he | ⟨⟨k, reads, view, hk⟩, hG⟩ | ⟨a, ha, hG⟩
      · rw [he]
        exact ih
      · exact hstep s i _ _ hs₀ hrun (fun _ => hA k reads view hk) ih hG
      · exact hstep s i a _ hs₀ hrun (fun hc => absurd hc ha) ih hG
  | crash i _ ih => exact ih
  | outside kv _ he ih => exact hout _ _ he ih

end Scripts

end CodeReader.Txn
