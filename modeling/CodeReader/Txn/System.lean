import CodeReader.Txn.Prog
import Mathlib.Data.Set.Insert

/-!
# Interleaved programs

Any number of programs over the same tables and the same key-value store, run statement by statement in any
order.  A thread is a request with its open transaction; a lock taken in a transaction is held to its end;
commit publishes the transaction's writes and releases its locks; an exception, the end of the program and a
crash drop the open transaction.

A transaction's reads are kept with the number of commits there had been, so a condition on schedules can ask
whether anything was committed since.

* `Sys.step` — one statement of one thread (`none` while the thread waits for a lock or has nothing to do);
* `Reach` — the states reached by statements, crashes, and changes of the key-value store from outside
  (expiry, loss).  Commits can be restricted by a condition, `anyCommit` for none;
* `ReachWhen` — the states reached when every statement meets a condition on the whole state.
-/

namespace CodeReader.Txn

variable {I : Iface} {τ α : Type}

/-- The store, with what has been observed of the run so far, and the threads that committed, in the order of their
commits. -/
structure Shared (I : Iface) (τ : Type) extends Store I where
  trace : List (τ × I.Ev)
  commits : List τ

/-- A read of an open transaction: the table, and how many commits there had been. -/
structure Read (I : Iface) where
  tbl : I.Tbl
  since : Nat

/-- A request: its remaining program, what its open transaction has read and written, or its end. -/
inductive Thread (I : Iface) (α : Type) : Type 1
  | running (p : Prog I α) (reads : List (Read I)) (view : I.Db → I.Db)
  | done (r : Except I.Err α)
  | dead

/-- The thread is over and answered. -/
def Thread.answered : Thread I α → Option α
  | .done (.ok a) => some a
  | _ => none

theorem Thread.done_of_answered {t : Thread I α} {a : α} (h : t.answered = some a) : t = .done (.ok a) := by
  unfold Thread.answered at h
  split at h
  · cases h
    rfl
  · cases h

structure Sys (I : Iface) (τ α : Type) where
  shared : Shared I τ
  locks : I.Lock → Option τ
  threads : τ → Thread I α

/-- What a thread knows of its open transaction: the locks it holds, its reads, its writes. -/
structure Local (I : Iface) where
  held : Set I.Lock
  reads : List (Read I)
  view : I.Db → I.Db

/-- A transaction that has done nothing. -/
def Local.idle : Local I := ⟨∅, [], id⟩

namespace Sys

/-- The locks of thread `i`. -/
def heldBy (s : Sys I τ α) (i : τ) : Set I.Lock := {r | s.locks r = some i}

def localOf (s : Sys I τ α) (i : τ) : Local I :=
  match s.threads i with
  | .running _ reads view => ⟨s.heldBy i, reads, view⟩
  | _ => ⟨s.heldBy i, [], id⟩

/-- The start: every thread at the head of its program, no lock taken. -/
def start (db : I.Db) (kv : I.Kv) (prog : τ → Prog I α) : Sys I τ α where
  shared := ⟨⟨db, kv⟩, [], []⟩
  locks := fun _ => none
  threads := fun i => .running (prog i) [] id

variable [DecidableEq τ]

/-- Thread `i` becomes `t`. -/
def setThread (s : Sys I τ α) (i : τ) (t : Thread I α) : Sys I τ α :=
  { s with threads := Function.update s.threads i t }

/-- The locks of thread `i` are released. -/
def release (s : Sys I τ α) (i : τ) : Sys I τ α :=
  { s with locks := fun r => if s.locks r = some i then none else s.locks r }

variable [DecidableEq I.Lock]

/-- One statement of thread `i`. -/
def step (s : Sys I τ α) (i : τ) : Option (Sys I τ α) :=
  match s.threads i with
  | .running p reads view =>
    match p with
    | .ret a => some ((s.release i).setThread i (.done (.ok a)))
    | .throw e => some ((s.release i).setThread i (.done (.error e)))
    | .lock r k =>
      if s.locks r = none ∨ s.locks r = some i then
        some ({ s with locks := Function.update s.locks r (some i) }.setThread i (.running k reads view))
      else none
    | .select t f k =>
      some (s.setThread i (.running (k (f (view s.shared.db))) (⟨t, s.shared.commits.length⟩ :: reads) view))
    | .write f k => some (s.setThread i (.running k reads (f ∘ view)))
    | .commit k =>
      some ({ s.release i with
        shared := { s.shared with db := view s.shared.db, commits := s.shared.commits ++ [i] } }.setThread i (.running k [] id))
    | .kv f k =>
      some ({ s with shared := { s.shared with kv := (f s.shared.kv).2 } }.setThread i
        (.running (k (f s.shared.kv).1) reads view))
    | .emit e k =>
      some ({ s with shared := { s.shared with trace := s.shared.trace ++ [(i, e)] } }.setThread i
        (.running k reads view))
  | _ => none

omit [DecidableEq I.Lock] in
/-- Thread `i` dies; its transaction is rolled back. -/
def crash (s : Sys I τ α) (i : τ) : Sys I τ α := (s.release i).setThread i .dead

/-- The key-value store changes from outside. -/
def outside (s : Sys I τ α) (kv : I.Kv) : Sys I τ α := { s with shared := { s.shared with kv := kv } }

/-- The next statement of thread `i`, if it is its commit, meets `A`. -/
def admits (A : τ → Local I → Shared I τ → Prop) [∀ i l S, Decidable (A i l S)] (s : Sys I τ α) (i : τ) : Bool :=
  match s.threads i with
  | .running (.commit _) _ _ => decide (A i (s.localOf i) s.shared)
  | _ => true

/-- The schedule `is` run from `s`: `none` when some turn falls on a thread that cannot move, or on a commit that does
not meet `A`. -/
def schedule (A : τ → Local I → Shared I τ → Prop) [∀ i l S, Decidable (A i l S)] (s : Sys I τ α) :
    List τ → Option (Sys I τ α)
  | [] => some s
  | i :: is => if s.admits A i then (s.step i).bind fun s' => s'.schedule A is else none

end Sys

variable [DecidableEq τ] [DecidableEq I.Lock]

/-- No condition on commits. -/
abbrev anyCommit : τ → Local I → Shared I τ → Prop := fun _ _ _ => True

/-- If the next statement of thread `i` is its commit, it meets `A`. -/
def Admits (A : τ → Local I → Shared I τ → Prop) (s : Sys I τ α) (i : τ) : Prop :=
  ∀ k reads view, s.threads i = .running (.commit k) reads view → A i (s.localOf i) s.shared

/-- The states reached from `s₀` when each commit meets `A` and the store changes from outside by `env`. -/
inductive Reach (env : I.Kv → I.Kv → Prop) (A : τ → Local I → Shared I τ → Prop) (s₀ : Sys I τ α) :
    Sys I τ α → Prop
  | start : Reach env A s₀ s₀
  | step {s s' : Sys I τ α} (i : τ) : Reach env A s₀ s → Admits A s i → s.step i = some s' → Reach env A s₀ s'
  | crash {s : Sys I τ α} (i : τ) : Reach env A s₀ s → (∃ p l w, s.threads i = .running p l w) →
      Reach env A s₀ (s.crash i)
  | outside {s : Sys I τ α} (kv : I.Kv) : Reach env A s₀ s → env s.shared.kv kv → Reach env A s₀ (s.outside kv)

theorem Reach.of_schedule {env : I.Kv → I.Kv → Prop} {A : τ → Local I → Shared I τ → Prop}
    [∀ i l S, Decidable (A i l S)] {s₀ s s' : Sys I τ α} {is : List τ} (h : Reach env A s₀ s)
    (hs : s.schedule A is = some s') : Reach env A s₀ s' := by
  induction is generalizing s with
  | nil =>
    simp only [Sys.schedule, Option.some.injEq] at hs
    exact hs ▸ h
  | cons i is ih =>
    unfold Sys.schedule at hs
    split at hs
    · rename_i hadmits
      obtain ⟨s₁, h₁, h₂⟩ := Option.bind_eq_some_iff.mp hs
      refine ih (h.step i (fun k reads view hk => ?_) h₁) h₂
      rw [Sys.admits, hk] at hadmits
      exact of_decide_eq_true hadmits
    · cases hs

theorem Reach.mono {env : I.Kv → I.Kv → Prop} {A A' : τ → Local I → Shared I τ → Prop} {s₀ s : Sys I τ α}
    (hA : ∀ i l S, A i l S → A' i l S) (h : Reach env A s₀ s) : Reach env A' s₀ s := by
  induction h with
  | start => exact .start
  | step i _ hadmits hs ih => exact ih.step i (fun k reads view hk => hA _ _ _ (hadmits k reads view hk)) hs
  | crash i _ hrun ih => exact ih.crash i hrun
  | outside kv _ hkv ih => exact ih.outside kv hkv

theorem Reach.trans {env : I.Kv → I.Kv → Prop} {A : τ → Local I → Shared I τ → Prop} {s₀ s₁ s₂ : Sys I τ α}
    (h : Reach env A s₀ s₁) (h' : Reach env A s₁ s₂) : Reach env A s₀ s₂ := by
  induction h' with
  | start => exact h
  | step i _ hadmits hs ih => exact ih.step i hadmits hs
  | crash i _ hrun ih => exact ih.crash i hrun
  | outside kv _ hkv ih => exact ih.outside kv hkv

/-- Where a schedule leads, or the start when it is none. -/
def Sys.after (A : τ → Local I → Shared I τ → Prop) [∀ i l S, Decidable (A i l S)] (s : Sys I τ α) (is : List τ) :
    Sys I τ α := (s.schedule A is).getD s

theorem Reach.after {env : I.Kv → I.Kv → Prop} {A : τ → Local I → Shared I τ → Prop} [∀ i l S, Decidable (A i l S)]
    {s : Sys I τ α} {is : List τ} (h : (s.schedule A is).isSome = true) : Reach env A s (s.after A is) := by
  obtain ⟨s', hs⟩ := Option.isSome_iff_exists.mp h
  rw [Sys.after, hs]
  exact .of_schedule .start hs

/-- The statements up to the next commit meet every condition on commits. -/
theorem Reach.uncommitted {env : I.Kv → I.Kv → Prop} {A : τ → Local I → Shared I τ → Prop} {s₀ s : Sys I τ α}
    {is : List τ} (h : Reach env A s₀ s) (hs : (s.schedule (fun _ _ _ => False) is).isSome = true) :
    Reach env A s₀ (s.after (fun _ _ _ => False) is) := by
  have hafter : Reach env (fun _ _ _ => False) s (s.after (fun _ _ _ => False) is) := .after hs
  exact h.trans (hafter.mono fun _ _ _ hf => hf.elim)

/-- One more statement. -/
theorem Reach.next {env : I.Kv → I.Kv → Prop} {A : τ → Local I → Shared I τ → Prop} {s₀ s : Sys I τ α} {i : τ}
    (h : Reach env A s₀ s) (hA : A i (s.localOf i) s.shared) (hs : (s.step i).isSome = true) :
    Reach env A s₀ ((s.step i).getD s) := by
  obtain ⟨s', hs'⟩ := Option.isSome_iff_exists.mp hs
  rw [hs']
  exact h.step i (fun _ _ _ _ => hA) hs'

/-! ## Conditions on every statement -/

/-- The states reached from `s₀` when each statement of a thread meets `C` in the state before it. -/
inductive ReachWhen (env : I.Kv → I.Kv → Prop) (C : Sys I τ α → τ → Prop) (s₀ : Sys I τ α) : Sys I τ α → Prop
  | start : ReachWhen env C s₀ s₀
  | step {s s' : Sys I τ α} (i : τ) : ReachWhen env C s₀ s → C s i → s.step i = some s' → ReachWhen env C s₀ s'
  | crash {s : Sys I τ α} (i : τ) : ReachWhen env C s₀ s → (∃ p l w, s.threads i = .running p l w) →
      ReachWhen env C s₀ (s.crash i)
  | outside {s : Sys I τ α} (kv : I.Kv) : ReachWhen env C s₀ s → env s.shared.kv kv → ReachWhen env C s₀ (s.outside kv)

/-- A condition on commits is a condition on statements. -/
theorem Reach.reachWhen {env : I.Kv → I.Kv → Prop} {A : τ → Local I → Shared I τ → Prop} {s₀ s : Sys I τ α}
    (h : Reach env A s₀ s) : ReachWhen env (Admits A) s₀ s := by
  induction h with
  | start => exact .start
  | step i _ hadmits hs ih => exact ih.step i hadmits hs
  | crash i _ hrun ih => exact ih.crash i hrun
  | outside kv _ hkv ih => exact ih.outside kv hkv

/-- The schedule `is` run from `s`: `none` when some turn falls on a thread that cannot move, or does not meet `C`. -/
def Sys.scheduleWhen (C : Sys I τ α → τ → Prop) [∀ s i, Decidable (C s i)] (s : Sys I τ α) :
    List τ → Option (Sys I τ α)
  | [] => some s
  | i :: is => if C s i then (s.step i).bind fun s' => s'.scheduleWhen C is else none

/-- Where a schedule leads, or the start when it is none. -/
def Sys.afterWhen (C : Sys I τ α → τ → Prop) [∀ s i, Decidable (C s i)] (s : Sys I τ α) (is : List τ) : Sys I τ α :=
  (s.scheduleWhen C is).getD s

theorem ReachWhen.of_schedule {env : I.Kv → I.Kv → Prop} {C : Sys I τ α → τ → Prop} [∀ s i, Decidable (C s i)]
    {s₀ s s' : Sys I τ α} {is : List τ} (h : ReachWhen env C s₀ s) (hs : s.scheduleWhen C is = some s') :
    ReachWhen env C s₀ s' := by
  induction is generalizing s with
  | nil =>
    simp only [Sys.scheduleWhen, Option.some.injEq] at hs
    exact hs ▸ h
  | cons i is ih =>
    unfold Sys.scheduleWhen at hs
    split at hs
    · rename_i hC
      obtain ⟨s₁, h₁, h₂⟩ := Option.bind_eq_some_iff.mp hs
      exact ih (h.step i hC h₁) h₂
    · cases hs

theorem ReachWhen.after {env : I.Kv → I.Kv → Prop} {C : Sys I τ α → τ → Prop} [∀ s i, Decidable (C s i)]
    {s : Sys I τ α} {is : List τ} (h : (s.scheduleWhen C is).isSome = true) :
    ReachWhen env C s (s.afterWhen C is) := by
  obtain ⟨s', hs⟩ := Option.isSome_iff_exists.mp h
  rw [Sys.afterWhen, hs]
  exact .of_schedule .start hs

/-! ## What the steps do to locks and threads -/

namespace Sys

omit [DecidableEq I.Lock]

@[simp] theorem setThread_shared (s : Sys I τ α) (i : τ) (t : Thread I α) :
    (s.setThread i t).shared = s.shared := rfl
@[simp] theorem setThread_locks (s : Sys I τ α) (i : τ) (t : Thread I α) :
    (s.setThread i t).locks = s.locks := rfl
@[simp] theorem setThread_self (s : Sys I τ α) (i : τ) (t : Thread I α) :
    (s.setThread i t).threads i = t := by simp [setThread]
theorem setThread_ne (s : Sys I τ α) {i j : τ} (t : Thread I α) (h : j ≠ i) :
    (s.setThread i t).threads j = s.threads j := by simp [setThread, h]
@[simp] theorem release_shared (s : Sys I τ α) (i : τ) : (s.release i).shared = s.shared := rfl
@[simp] theorem release_threads (s : Sys I τ α) (i : τ) : (s.release i).threads = s.threads := rfl

theorem heldBy_release_self (s : Sys I τ α) (i : τ) : (s.release i).heldBy i = ∅ := by
  ext r
  simp only [heldBy, release, Set.mem_ofPred_eq, Set.mem_empty_iff_false, iff_false]
  split <;> simp_all

theorem heldBy_release_ne (s : Sys I τ α) {i j : τ} (h : j ≠ i) : (s.release i).heldBy j = s.heldBy j := by
  ext r
  simp only [heldBy, release, Set.mem_ofPred_eq]
  split
  · rename_i hr
    simp [hr, Ne.symm h]
  · rfl

omit [DecidableEq τ] in
/-- No two threads hold the same lock. -/
theorem heldBy_disjoint (s : Sys I τ α) {i j : τ} (h : j ≠ i) {r : I.Lock} (hi : r ∈ s.heldBy i) :
    r ∉ s.heldBy j := by
  simp only [heldBy, Set.mem_ofPred_eq] at hi ⊢
  simp [hi, Ne.symm h]

omit [DecidableEq τ] in
/-- What two threads know to hold is disjoint. -/
theorem localOf_disjoint (s : Sys I τ α) {i j : τ} (h : j ≠ i) : ∀ r ∈ (s.localOf i).held, r ∉ (s.localOf j).held := by
  have hheld : ∀ k, (s.localOf k).held = s.heldBy k := by
    intro k
    unfold localOf
    split <;> rfl
  intro r hr
  rw [hheld] at hr ⊢
  exact s.heldBy_disjoint h hr

end Sys

end CodeReader.Txn
