import CodeReader.Txn.Tenants

/-!
# A flag of the store, and who holds it

A thread sets a flag of the key-value store when it is not set, and takes it away in the end.  The store says only
whether it is set; whose it is, is known of the run.

* `holderAfter`, `HolderRun` — the thread that set the flag, along a run whose steps meet conditions;
* `Prog.Leased` — a program that sets the flag only when it is free, and takes it away only when it set it;
* `HolderRun.own` — **only the holder takes the flag away**, when every program is so and the flag is not lost while
  the thread that set it runs.
-/

namespace CodeReader.Txn

variable {I : Iface} {τ α β : Type}

/-! ## Programs -/

namespace Prog

/-- The program keeps to the flag: from where it has set it (`mine`) it may take it away, from elsewhere it may set it
when it is free.  A barred program takes no lock where it has not set the flag, so what would follow is left open. -/
def Leased (held : I.Kv → Bool) (barred : Prop) : Bool → Prog I α → Prop
  | _, ret _ => True
  | _, throw _ => True
  | mine, lock _ k => (barred ∧ mine = false) ∨ k.Leased held barred mine
  | mine, select _ _ k => ∀ b, (k b).Leased held barred mine
  | mine, write _ k => k.Leased held barred mine
  | mine, commit k => k.Leased held barred mine
  | mine, kv f k => ∀ s, (mine = true → held s = true) →
      (held (f s).2 = held s ∧ (k (f s).1).Leased held barred mine) ∨
      (held s = mine ∧ held (f s).2 = !mine ∧ (k (f s).1).Leased held barred (!mine))
  | mine, emit _ k => k.Leased held barred mine

variable {held : I.Kv → Bool} {barred : Prop} {mine : Bool}

/-- The command leaves the flag. -/
def KeepsFlag (held : I.Kv → Bool) (β : Type) (f : I.Kv → β × I.Kv) : Prop := ∀ s, held (f s).2 = held s

/-- What only leaves the flag does not count. -/
theorem Leased.bind {W : (I.Db → I.Db) → Prop} {p : Prog I α} {g : α → Prog I β} (hp : p.All W (KeepsFlag held))
    (hg : ∀ a, (g a).Leased held barred mine) : (p >>= g).Leased held barred mine := by
  induction p with
  | ret a => exact hg a
  | throw e => trivial
  | lock r k ih => exact .inr (ih hp)
  | select t f k ih => exact fun b => ih b (hp b)
  | write f k ih => exact ih hp.2
  | commit k ih => exact ih hp
  | kv f k ih => exact fun s _ => .inl ⟨hp.1 s, ih _ (hp.2 _)⟩
  | emit e k ih => exact ih hp

theorem leased_of_all {W : (I.Db → I.Db) → Prop} {p : Prog I α} (hp : p.All W (KeepsFlag held)) :
    p.Leased held barred mine := by
  induction p with
  | ret a => trivial
  | throw e => trivial
  | lock r k ih => exact .inr (ih hp)
  | select t f k ih => exact fun b => ih b (hp b)
  | write f k ih => exact ih hp.2
  | commit k ih => exact ih hp
  | kv f k ih => exact fun s _ => .inl ⟨hp.1 s, ih _ (hp.2 _)⟩
  | emit e k ih => exact ih hp

/-- What follows may leave the flag wherever it is. -/
theorem Leased.map {p : Prog I α} {g : α → Prog I β} (hp : p.Leased held barred mine)
    (hg : ∀ mine a, (g a).Leased held barred mine) : (p >>= g).Leased held barred mine := by
  induction p generalizing mine with
  | ret a => exact hg mine a
  | throw e => trivial
  | lock r k ih => exact hp.imp_right ih
  | select t f k ih => exact fun b => ih b (hp b)
  | write f k ih => exact ih hp
  | commit k ih => exact ih hp
  | kv f k ih => exact fun s hs => (hp s hs).imp (And.imp_right (ih _)) (And.imp_right (And.imp_right (ih _)))
  | emit e k ih => exact ih hp

/-- The flag is taken away at the end, whatever that is. -/
theorem Leased.andFinally {W : (I.Db → I.Db) → Prop} {p : Prog I α} {fin : Prog I Unit}
    (hp : p.All W (KeepsFlag held))
    (hfin : ∀ q : Prog I α, q.Leased held barred false → (fin >>= fun _ => q).Leased held barred true) :
    (p.andFinally fin).Leased held barred true := by
  induction p with
  | ret a => exact hfin (.ret a) trivial
  | throw e => exact hfin (.throw e) trivial
  | lock r k ih => exact .inr (ih hp)
  | select t f k ih => exact fun b => ih b (hp b)
  | write f k ih => exact ih hp.2
  | commit k ih => exact ih hp
  | kv f k ih => exact fun s _ => .inl ⟨hp.1 s, ih _ (hp.2 _)⟩
  | emit e k ih => exact ih hp

/-- A tenant's program has the same commands. -/
theorem Leased.of {U : Type} [DecidableEq U] (u : U) {p : Prog I α} (h : p.Leased held barred mine) :
    Leased (I := Tenants U I) held barred mine (p.of u) := by
  induction p generalizing mine with
  | ret a => trivial
  | throw e => trivial
  | lock r k ih => exact h.imp_right ih
  | select t f k ih => exact fun b => ih b (h b)
  | write f k ih => exact ih h
  | commit k ih => exact ih h
  | kv f k ih => exact fun s hs => (h s hs).imp (And.imp_right (ih _)) (And.imp_right (And.imp_right (ih _)))
  | emit e k ih => exact ih h

end Prog

/-! ## Runs -/

/-- The next statement of the thread is a lock. -/
def Sys.Locking (s : Sys I τ α) (i : τ) : Prop := ∃ r k reads view, s.threads i = .running (.lock r k) reads view

def Sys.Running (s : Sys I τ α) (i : τ) : Prop := ∃ p reads view, s.threads i = .running p reads view

section Run

variable [DecidableEq τ] [DecidableEq I.Lock]

/-- The holder after a step of thread `i`: whoever sets the flag when it is free. -/
def holderAfter (held : I.Kv → Bool) (i : τ) (o : Option τ) (kv kv' : I.Kv) : Option τ :=
  if held kv' then if held kv then o else some i else none

/-- The states reached, each with the thread that set the flag.  Steps of threads meet `A`, and changes of the store
from outside meet `B`. -/
inductive HolderRun (held : I.Kv → Bool) (A : Sys I τ α → Option τ → τ → Prop)
    (B : Sys I τ α → Option τ → I.Kv → Prop) (s₀ : Sys I τ α) : Sys I τ α → Option τ → Prop
  | start : HolderRun held A B s₀ s₀ none
  | step {s s' : Sys I τ α} {o : Option τ} (i : τ) : HolderRun held A B s₀ s o → A s o i → s.step i = some s' →
      HolderRun held A B s₀ s' (holderAfter held i o s.shared.kv s'.shared.kv)
  | crash {s : Sys I τ α} {o : Option τ} (i : τ) : HolderRun held A B s₀ s o → s.Running i →
      HolderRun held A B s₀ (s.crash i) o
  | outside {s : Sys I τ α} {o : Option τ} (kv : I.Kv) : HolderRun held A B s₀ s o → B s o kv →
      HolderRun held A B s₀ (s.outside kv) (if held kv then o else none)

/-- A schedule with the holder, and where it leads. -/
def Sys.holderSchedule (held : I.Kv → Bool) (s : Sys I τ α) (o : Option τ) : List τ → Option (Sys I τ α × Option τ)
  | [] => some (s, o)
  | i :: is => (s.step i).bind fun s' =>
    s'.holderSchedule held (holderAfter held i o s.shared.kv s'.shared.kv) is

variable {held : I.Kv → Bool} {A : Sys I τ α → Option τ → τ → Prop} {B : Sys I τ α → Option τ → I.Kv → Prop}
  {s₀ s s' : Sys I τ α} {o : Option τ} {i : τ} {barred : τ → Prop}

theorem HolderRun.of_schedule (hA : ∀ s o i, A s o i) (h : HolderRun held A B s₀ s o) {is : List τ} {o' : Option τ}
    (hs : s.holderSchedule held o is = some (s', o')) : HolderRun held A B s₀ s' o' := by
  induction is generalizing s o with
  | nil =>
    obtain ⟨rfl, rfl⟩ := Prod.mk.inj (Option.some.inj hs)
    exact h
  | cons i is ih =>
    obtain ⟨s₁, h₁, h₂⟩ := Option.bind_eq_some_iff.mp hs
    exact ih (h.step i (hA _ _ _) h₁) h₂

/-- Where a schedule leads, or the start when it is none. -/
def Sys.holderAfterwards (held : I.Kv → Bool) (x : Sys I τ α × Option τ) (is : List τ) : Sys I τ α × Option τ :=
  (x.1.holderSchedule held x.2 is).getD x

theorem HolderRun.afterwards (hA : ∀ s o i, A s o i) {x : Sys I τ α × Option τ} (h : HolderRun held A B s₀ x.1 x.2)
    {is : List τ} (hs : (x.1.holderSchedule held x.2 is).isSome = true) :
    HolderRun held A B s₀ (Sys.holderAfterwards held x is).1 (Sys.holderAfterwards held x is).2 := by
  obtain ⟨x', hx⟩ := Option.isSome_iff_exists.mp hs
  rw [Sys.holderAfterwards, hx]
  exact h.of_schedule hA hx

/-- What holds along a run: the holder's flag is set, and every thread is where its program keeps to the flag. -/
structure HolderInv (held : I.Kv → Bool) (barred : τ → Prop) (s : Sys I τ α) (o : Option τ) : Prop where
  set : o ≠ none → held s.shared.kv = true
  leased : ∀ i p reads view, s.threads i = .running p reads view → p.Leased held (barred i) (decide (o = some i))

omit [DecidableEq I.Lock] in
theorem HolderInv.holderAfter_eq (h : HolderInv held barred s o) : holderAfter held i o s.shared.kv s.shared.kv = o := by
  unfold holderAfter
  cases o with
  | none => split <;> rfl
  | some j => rw [if_pos (h.set (Option.some_ne_none j)), if_pos (h.set (Option.some_ne_none j))]

omit [DecidableEq I.Lock] in
/-- A statement of thread `i` besides the store's: the holder stays. -/
theorem HolderInv.moved (h : HolderInv held barred s o) (hkv : s'.shared.kv = s.shared.kv)
    (hthreads : ∀ j, j ≠ i → s'.threads j = s.threads j)
    (hself : ∀ p reads view, s'.threads i = .running p reads view →
      p.Leased held (barred i) (decide (o = some i))) :
    HolderInv held barred s' (holderAfter held i o s.shared.kv s'.shared.kv) := by
  rw [hkv, h.holderAfter_eq]
  refine ⟨fun ho => hkv ▸ h.set ho, fun j p reads view hj => ?_⟩
  by_cases hji : j = i
  · rw [hji] at hj ⊢
    exact hself p reads view hj
  · rw [hthreads j hji] at hj
    exact h.leased j p reads view hj

omit [DecidableEq I.Lock] in
/-- A command of thread `i`. -/
theorem HolderInv.command (h : HolderInv held barred s o) {kv' : I.Kv} {p : Prog I α} {reads : List (Read I)}
    {view : I.Db → I.Db} (hp : (held kv' = held s.shared.kv ∧ p.Leased held (barred i) (decide (o = some i))) ∨
      (held s.shared.kv = decide (o = some i) ∧ held kv' = !decide (o = some i) ∧
        p.Leased held (barred i) (!decide (o = some i)))) :
    HolderInv held barred ((s.outside kv').setThread i (.running p reads view))
      (holderAfter held i o s.shared.kv kv') := by
  -- the holder afterwards, and that nobody else becomes it
  have hafter : (holderAfter held i o s.shared.kv kv' ≠ none → held kv' = true) ∧
      p.Leased held (barred i) (decide (holderAfter held i o s.shared.kv kv' = some i)) ∧
      ∀ j, j ≠ i → (holderAfter held i o s.shared.kv kv' = some j ↔ o = some j) := by
    rcases hp with ⟨hkeep, hp⟩ | ⟨hbefore, hflip, hp⟩
    · have ho : holderAfter held i o s.shared.kv kv' = o := by
        have hsame := h.holderAfter_eq (i := i)
        unfold holderAfter at hsame ⊢
        rw [hkeep]
        exact hsame
      rw [ho]
      exact ⟨fun hne => hkeep.trans (h.set hne), hp, fun _ _ => Iff.rfl⟩
    · by_cases hmine : o = some i
      · have ho : holderAfter held i o s.shared.kv kv' = none := by
          simp [holderAfter, hflip, hmine]
        rw [ho, hmine]
        simp only [hmine] at hp
        exact ⟨fun hne => absurd rfl hne, by simpa using hp, fun j hj => by simp [Ne.symm hj]⟩
      · have hfree : o = none := by
          by_contra hne
          rw [h.set hne] at hbefore
          exact hmine (by simpa using hbefore.symm)
        have ho : holderAfter held i o s.shared.kv kv' = some i := by
          simp [holderAfter, hflip, hbefore, hmine]
        rw [ho]
        simp only [hmine] at hp hflip
        refine ⟨fun _ => by simpa using hflip, by simpa using hp, fun j hj => ?_⟩
        simp [hfree, Ne.symm hj]
  refine ⟨hafter.1, fun j q reads' view' hj => ?_⟩
  by_cases hji : j = i
  · subst hji
    simp only [Sys.setThread_self, Thread.running.injEq] at hj
    obtain ⟨rfl, -, -⟩ := hj
    exact hafter.2.1
  · have hj' : s.threads j = .running q reads' view' := by
      simpa [Sys.setThread, Sys.outside, hji] using hj
    have hleased := h.leased j q reads' view' hj'
    have heq : decide (holderAfter held i o s.shared.kv kv' = some j) = decide (o = some j) :=
      decide_eq_decide.mpr (hafter.2.2 j hji)
    rw [heq]
    exact hleased

/-- One step: the invariant stays, and the flag is only taken away by its holder. -/
theorem HolderInv.step (h : HolderInv held barred s o) (hA : barred i → s.Locking i → o = some i)
    (hs : s.step i = some s') : HolderInv held barred s' (holderAfter held i o s.shared.kv s'.shared.kv) ∧
      (held s.shared.kv = true → held s'.shared.kv = false → o = some i) := by
  cases hi : s.threads i with
  | done r => simp [Sys.step, hi] at hs
  | dead => simp [Sys.step, hi] at hs
  | running p reads view =>
    have hp := h.leased i p reads view hi
    simp only [Sys.step, hi] at hs
    -- nothing but a command changes the store
    have hquiet : s'.shared.kv = s.shared.kv → (∀ j, j ≠ i → s'.threads j = s.threads j) →
        (∀ q reads' view', s'.threads i = .running q reads' view' →
          q.Leased held (barred i) (decide (o = some i))) →
        HolderInv held barred s' (holderAfter held i o s.shared.kv s'.shared.kv) ∧
          (held s.shared.kv = true → held s'.shared.kv = false → o = some i) := by
      intro hkv hthreads hself
      refine ⟨h.moved hkv hthreads hself, fun hset hgone => ?_⟩
      rw [hkv, hset] at hgone
      exact absurd hgone (by decide)
    cases p with
    | ret a =>
      cases hs
      exact hquiet rfl (fun j hj => by simp [Sys.setThread, hj, Sys.release]) fun q _ _ hq => by simp at hq
    | throw e =>
      cases hs
      exact hquiet rfl (fun j hj => by simp [Sys.setThread, hj, Sys.release]) fun q _ _ hq => by simp at hq
    | lock r k =>
      dsimp only at hs
      split at hs
      · cases hs
        refine hquiet rfl (fun j hj => by simp [Sys.setThread, hj]) fun q _ _ hq => ?_
        simp only [Sys.setThread_self, Thread.running.injEq] at hq
        obtain ⟨rfl, -, -⟩ := hq
        rcases hp with ⟨hbarred, hmine⟩ | hk
        · exact absurd (hA hbarred ⟨r, k, reads, view, hi⟩) (by simpa using hmine)
        · exact hk
      · cases hs
    | select t f k =>
      cases hs
      refine hquiet rfl (fun j hj => by simp [Sys.setThread, hj]) fun q _ _ hq => ?_
      simp only [Sys.setThread_self, Thread.running.injEq] at hq
      obtain ⟨rfl, -, -⟩ := hq
      exact hp _
    | write f k =>
      cases hs
      refine hquiet rfl (fun j hj => by simp [Sys.setThread, hj]) fun q _ _ hq => ?_
      simp only [Sys.setThread_self, Thread.running.injEq] at hq
      obtain ⟨rfl, -, -⟩ := hq
      exact hp
    | commit k =>
      cases hs
      refine hquiet rfl (fun j hj => by simp [Sys.setThread, hj, Sys.release]) fun q _ _ hq => ?_
      simp only [Sys.setThread_self, Thread.running.injEq] at hq
      obtain ⟨rfl, -, -⟩ := hq
      exact hp
    | kv f k =>
      cases hs
      have hcmd := hp s.shared.kv fun hmine => h.set (by rw [of_decide_eq_true hmine]; exact Option.some_ne_none i)
      refine ⟨h.command hcmd, fun hset hgone => ?_⟩
      have hgone' : held (f s.shared.kv).2 = false := hgone
      rcases hcmd with ⟨hkeep, -⟩ | ⟨hbefore, -, -⟩
      · rw [hkeep, hset] at hgone'
        exact absurd hgone' (by decide)
      · rw [hset] at hbefore
        exact of_decide_eq_true hbefore.symm
    | emit e k =>
      cases hs
      refine hquiet rfl (fun j hj => by simp [Sys.setThread, hj]) fun q _ _ hq => ?_
      simp only [Sys.setThread_self, Thread.running.injEq] at hq
      obtain ⟨rfl, -, -⟩ := hq
      exact hp

/-- **The invariant along a run**: barred threads take locks only as holders, and the flag is not lost while its holder
runs. -/
theorem HolderRun.inv (hA : ∀ s o i, A s o i → barred i → s.Locking i → o = some i)
    (hlost : ∀ s o kv, B s o kv → held kv = false → ∀ i, o = some i → ¬ s.Running i)
    (h₀ : HolderInv held barred s₀ none) (h : HolderRun held A B s₀ s o) : HolderInv held barred s o := by
  induction h with
  | start => exact h₀
  | step i _ ha hs ih => exact (ih.step (hA _ _ _ ha) hs).1
  | @crash s o i _ hrun ih =>
    refine ⟨ih.set, fun j p reads view hj => ?_⟩
    by_cases hji : j = i
    · rw [hji, Sys.crash, Sys.setThread_self] at hj
      cases hj
    · refine ih.leased j p reads view ?_
      simpa [Sys.crash, Sys.setThread, Sys.release, hji] using hj
  | @outside s o kv _ hb ih =>
    cases hkv : held kv with
    | true => exact ⟨fun _ => hkv, ih.leased⟩
    | false =>
      refine ⟨fun hne => absurd rfl hne, fun j p reads view hj => ?_⟩
      have hfree : o ≠ some j := fun ho => hlost _ _ _ hb hkv j ho ⟨p, reads, view, hj⟩
      have hleased := ih.leased j p reads view hj
      rw [decide_eq_false hfree] at hleased
      simpa using hleased

/-- **Only the holder takes the flag away.** -/
theorem HolderRun.own (hA : ∀ s o i, A s o i → barred i → s.Locking i → o = some i)
    (hlost : ∀ s o kv, B s o kv → held kv = false → ∀ i, o = some i → ¬ s.Running i)
    (h₀ : HolderInv held barred s₀ none) (h : HolderRun held A B s₀ s o) (ha : A s o i) (hs : s.step i = some s')
    (hflag : held s.shared.kv = true) (hgone : held s'.shared.kv = false) : o = some i :=
  ((h.inv hA hlost h₀).step (hA _ _ _ ha) hs).2 hflag hgone

end Run

end CodeReader.Txn
