import CodeReader.Txn.Transaction

/-!
# Tenants

Programs that each run on the tables of one tenant, under that tenant's locks, and share one key-value store.  Some
tenants are kept and the others taken away; what a kept thread does cannot depend on the others unless they meet in
the store.

* `Tenants`, `Prog.of` — the tables of all tenants, and a program as one of them runs it;
* `wp_of` — reasoning about one tenant's program on its own tables;
* `Purged` — a run and the same run without the others;
* `Reach.purge` — **noninterference**: the run without the others exists, and the kept threads and tables are the same.
-/

namespace CodeReader.Txn

variable {I : Iface} {U τ α β : Type}

/-- The tables of all tenants, with a lock of its own for each tenant and each lock. -/
abbrev Tenants (U : Type) (I : Iface) : Iface where
  Db := U → I.Db
  Kv := I.Kv
  Lock := U × I.Lock
  Tbl := I.Tbl
  Ev := I.Ev
  Err := I.Err

section On

variable [DecidableEq U]

/-- A change of the tables of tenant `u`. -/
def onTenant {δ : Type} (u : U) (w : δ → δ) (db : U → δ) : U → δ := Function.update db u (w (db u))

variable {δ : Type} {u v : U} {w : δ → δ} {db : U → δ}

@[simp] theorem onTenant_self : onTenant u w db u = w (db u) := Function.update_self ..

theorem onTenant_ne (h : v ≠ u) : onTenant u w db v = db v := Function.update_of_ne h ..

@[simp] theorem onTenant_id : onTenant u (id : δ → δ) = id := funext fun _ => Function.update_eq_self ..

theorem onTenant_comp (f : δ → δ) : onTenant u f ∘ onTenant u w = onTenant u (f ∘ w) := by
  funext db
  simp [onTenant]

end On

namespace Prog

/-- The program as tenant `u` runs it. -/
def of [DecidableEq U] (u : U) : Prog I α → Prog (Tenants U I) α
  | ret a => ret a
  | throw e => throw e
  | lock r k => lock (u, r) (k.of u)
  | select t f k => select t (fun db => f (db u)) fun b => (k b).of u
  | write f k => write (onTenant u f) (k.of u)
  | commit k => commit (k.of u)
  | kv f k => kv f fun b => (k b).of u
  | emit e k => emit e (k.of u)

end Prog

/-! ## One tenant -/

/-- The shared state, with the tables of one tenant. -/
def Shared.tenant (u : U) (S : Shared (Tenants U I) τ) : Shared I τ := ⟨⟨S.db u, S.kv⟩, S.trace, S.commits⟩

/-- **A tenant's program reasons about its own tables**: a `wp` of the program alone, whose rely and guarantee speak of
the tenant's part of the shared state, is one of the program as the tenant runs it. -/
theorem wp_of [DecidableEq U] {u : U} {i : τ} {r : Shared I τ → Shared I τ → Prop}
    {g : Act → Shared I τ → Shared I τ → Prop} {q : Except I.Err α → Shared I τ → Prop}
    {R : Local (Tenants U I) → Shared (Tenants U I) τ → Shared (Tenants U I) τ → Prop}
    {G : Act → Local (Tenants U I) → Shared (Tenants U I) τ → Shared (Tenants U I) τ → Prop}
    {Q : Except I.Err α → Local (Tenants U I) → Shared (Tenants U I) τ → Prop}
    (hR : ∀ L S S', R L S S' → r (S.tenant u) (S'.tenant u))
    (hG : ∀ a L S S', g a (S.tenant u) (S'.tenant u) → (∀ v, v ≠ u → S'.db v = S.db v) → G a L S S')
    (hQ : ∀ x L S, q x (S.tenant u) → Q x L S) {p : Prog I α} {l : Local I} {L : Local (Tenants U I)}
    {S : Shared (Tenants U I) τ} (hview : L.view = onTenant u l.view)
    (h : wp (fun _ => r) (fun a _ => g a) i (fun x _ s => q x s) p l (S.tenant u)) : wp R G i Q (p.of u) L S := by
  induction p generalizing l L S with
  | ret a => exact fun S' hs => hQ _ _ _ (h _ (hR _ _ _ hs))
  | throw e => exact fun S' hs => hQ _ _ _ (h _ (hR _ _ _ hs))
  | lock x k ih => exact fun S' hs => ih (l := { l with held := insert x l.held }) hview (h _ (hR _ _ _ hs))
  | select t f k ih =>
    intro S' hs
    refine ih _ (l := { l with reads := ⟨t, S'.commits.length⟩ :: l.reads }) hview ?_
    dsimp only
    rw [hview, onTenant_self]
    exact h _ (hR _ _ _ hs)
  | write f k ih =>
    intro S' hs
    refine ih (l := { l with view := f ∘ l.view }) ?_ (h _ (hR _ _ _ hs))
    rw [hview, onTenant_comp]
  | commit k ih =>
    intro S' hs
    obtain ⟨hg, hk⟩ := h _ (hR _ _ _ hs)
    have htenant : Shared.tenant u { S' with db := L.view S'.db, commits := S'.commits ++ [i] } =
        { S'.tenant u with db := l.view (S'.tenant u).db, commits := (S'.tenant u).commits ++ [i] } := by
      simp only [Shared.tenant, hview, onTenant_self]
    refine ⟨hG _ _ _ _ (by rw [htenant]; exact hg) fun v hv => ?_, ih (l := .idle) onTenant_id.symm ?_⟩
    · dsimp only
      rw [hview, onTenant_ne hv]
    · rw [htenant]
      exact hk
  | kv f k ih =>
    intro S' hs
    obtain ⟨hg, hk⟩ := h _ (hR _ _ _ hs)
    exact ⟨hG _ _ _ _ hg fun v _ => rfl, ih _ hview hk⟩
  | emit e k ih =>
    intro S' hs
    obtain ⟨hg, hk⟩ := h _ (hR _ _ _ hs)
    exact ⟨hG _ _ _ _ hg fun v _ => rfl, ih hview hk⟩

/-! ## Without the others -/

/-- The threads at the start, each a program of its owner. -/
def Tenants.start [DecidableEq U] (owner : τ → U) (rows : U → I.Db) (kv : I.Kv) (prog : τ → Prog I α) :
    Sys (Tenants U I) τ α :=
  Sys.start (I := Tenants U I) rows kv fun i => (prog i).of (owner i)

/-- The system without the threads outside `kept`. -/
def Sys.keep (kept : τ → Bool) (s : Sys I τ α) : Sys I τ α :=
  { s with threads := fun i => if kept i then s.threads i else .dead }

/-- What a thread ended in. -/
def Thread.result : Thread I α → Option (Except I.Err α)
  | .done r => some r
  | _ => none

theorem Thread.done_of_result {t : Thread I α} {r : Except I.Err α} (h : t.result = some r) : t = .done r := by
  cases t with
  | running p reads view => cases h
  | dead => cases h
  | done r' => rw [Option.some.inj h]

/-- The threads are where each other is, up to the counts of their reads. -/
inductive Thread.Same : Thread I α → Thread I α → Prop
  | running (p : Prog I α) (reads reads' : List (Read I)) (view : I.Db → I.Db) :
      Same (.running p reads view) (.running p reads' view)
  | done (r : Except I.Err α) : Same (.done r) (.done r)
  | dead : Same .dead .dead

theorem Thread.Same.refl (t : Thread I α) : t.Same t := by
  cases t with
  | running p reads view => exact .running p reads reads view
  | done r => exact .done r
  | dead => exact .dead

theorem Thread.Same.result {t t' : Thread I α} (h : t.Same t') : t.result = t'.result := by
  cases h <;> rfl

section Purge

variable [DecidableEq U] (owner : τ → U) (kept : U → Bool) (E : I.Kv → I.Kv → Prop)

/-- A command of a kept thread: from stores that look alike it takes the same, and leaves stores that look alike. -/
def Sees (β : Type) (f : I.Kv → β × I.Kv) : Prop :=
  ∀ kv kv', E kv kv' → (f kv).1 = (f kv').1 ∧ E (f kv).2 (f kv').2

/-- A command of another thread: the store looks as before. -/
def Hides (β : Type) (f : I.Kv → β × I.Kv) : Prop := ∀ kv kv', E kv kv' → E (f kv).2 kv'

/-- The thread runs a program of tenant `u`, on the tables of `u`; its commands are as the side of `u` demands. -/
def Tenanted (u : U) (t : Thread (Tenants U I) α) : Prop :=
  ∀ p reads view, t = .running p reads view → ∃ (q : Prog I α) (w : I.Db → I.Db), p = q.of u ∧ view = onTenant u w ∧
    q.All (fun _ => True) (if kept u then Sees E else Hides E)

/-- `t` is where `s` is, for the kept tenants. -/
structure Purged (s t : Sys (Tenants U I) τ α) : Prop where
  kv : E s.shared.kv t.shared.kv
  db : ∀ u, kept u = true → s.shared.db u = t.shared.db u
  locks : ∀ u r, kept u = true → s.locks (u, r) = t.locks (u, r)
  owners : ∀ u r i, s.locks (u, r) = some i → owner i = u
  threads : ∀ i, kept (owner i) = true → (s.threads i).Same (t.threads i)
  tenanted : ∀ i, Tenanted kept E (owner i) (s.threads i)

variable {owner kept E} {s s' t t' : Sys (Tenants U I) τ α} {i : τ}

/-! ### Parts of a step -/

omit [DecidableEq U] in
/-- A released lock was the thread's. -/
theorem release_locks (howners : ∀ u r j, s.locks (u, r) = some j → owner j = u) [DecidableEq τ] {u : U} (hu : u ≠ owner i)
    (r : I.Lock) : (s.release i).locks (u, r) = s.locks (u, r) := by
  simp only [Sys.release]
  split
  · rename_i hr
    exact absurd (howners u r i hr).symm hu
  · rfl

omit [DecidableEq U] in
theorem release_owners (howners : ∀ u r j, s.locks (u, r) = some j → owner j = u) [DecidableEq τ] (u : U) (r : I.Lock)
    (j : τ) (h : (s.release i).locks (u, r) = some j) : owner j = u := by
  simp only [Sys.release] at h
  split at h
  · cases h
  · exact howners u r j h

theorem Tenanted.ended {u : U} (t : Thread (Tenants U I) α) (h : ∀ p reads view, t ≠ .running p reads view) :
    Tenanted kept E u t := fun p reads view he => absurd he (h p reads view)

theorem Tenanted.running {u : U} {q : Prog I α} {w : I.Db → I.Db} (reads : List (Read (Tenants U I)))
    (hq : q.All (fun _ => True) (if kept u then Sees E else Hides E)) :
    Tenanted kept E u (.running (q.of u) reads (onTenant u w)) := by
  intro p reads' view he
  cases he
  exact ⟨q, w, rfl, rfl, hq⟩

namespace Purged

/-- A change of thread `i`, of its own tables and locks, that the other tenants' part of the run does not see. -/
theorem hidden_of (h : Purged owner kept E s t) (hi : kept (owner i) = false)
    (hkv : E s'.shared.kv t.shared.kv) (hdb : ∀ u, u ≠ owner i → s'.shared.db u = s.shared.db u)
    (hlocks : ∀ u r, u ≠ owner i → s'.locks (u, r) = s.locks (u, r))
    (howners : ∀ u r j, s'.locks (u, r) = some j → owner j = u)
    (hthreads : ∀ j, j ≠ i → s'.threads j = s.threads j) (hself : Tenanted kept E (owner i) (s'.threads i)) :
    Purged owner kept E s' t := by
  have hne : ∀ u, kept u = true → u ≠ owner i := by
    rintro u hu rfl
    rw [hi] at hu
    cases hu
  refine ⟨hkv, fun u hu => ?_, fun u r hu => ?_, howners, fun j hj => ?_, fun j => ?_⟩
  · rw [hdb u (hne u hu)]
    exact h.db u hu
  · rw [hlocks u r (hne u hu)]
    exact h.locks u r hu
  · have hji : j ≠ i := by
      rintro rfl
      exact hne _ hj rfl
    rw [hthreads j hji]
    exact h.threads j hj
  · by_cases hji : j = i
    · rw [hji]
      exact hself
    · rw [hthreads j hji]
      exact h.tenanted j

/-- The same change of thread `i` on both sides. -/
theorem seen_of (h : Purged owner kept E s t) (hkv : E s'.shared.kv t'.shared.kv)
    (hdb : ∀ u, kept u = true → s'.shared.db u = t'.shared.db u)
    (hlocks : ∀ u r, kept u = true → s'.locks (u, r) = t'.locks (u, r))
    (howners : ∀ u r j, s'.locks (u, r) = some j → owner j = u)
    (hthreads : ∀ j, j ≠ i → s'.threads j = s.threads j) (hthreads' : ∀ j, j ≠ i → t'.threads j = t.threads j)
    (hself : (s'.threads i).Same (t'.threads i)) (hten : Tenanted kept E (owner i) (s'.threads i)) :
    Purged owner kept E s' t' := by
  refine ⟨hkv, hdb, hlocks, howners, fun j hj => ?_, fun j => ?_⟩
  · by_cases hji : j = i
    · rw [hji]
      exact hself
    · rw [hthreads j hji, hthreads' j hji]
      exact h.threads j hj
  · by_cases hji : j = i
    · rw [hji]
      exact hten
    · rw [hthreads j hji]
      exact h.tenanted j

variable [DecidableEq τ] [DecidableEq I.Lock]

/-- A step of a thread that is taken away. -/
theorem hidden (h : Purged owner kept E s t) (hi : kept (owner i) = false) (hs : s.step i = some s') :
    Purged owner kept E s' t := by
  cases hth : s.threads i with
  | done r => simp [Sys.step, hth] at hs
  | dead => simp [Sys.step, hth] at hs
  | running p reads view =>
    obtain ⟨q, w, rfl, rfl, hq⟩ := h.tenanted i _ _ _ hth
    have hq' := hq
    rw [hi] at hq'
    simp only [Sys.step, hth] at hs
    have hset : ∀ (x : Sys (Tenants U I) τ α) (th : Thread (Tenants U I) α), x.threads = s.threads →
        ∀ j, j ≠ i → (x.setThread i th).threads j = s.threads j := by
      intro x th hx j hj
      rw [Sys.setThread_ne x th hj, hx]
    cases q with
    | ret a =>
      cases hs
      refine h.hidden_of hi h.kv (fun u _ => rfl) (fun u r hu => release_locks h.owners hu r)
        (fun u r j => release_owners h.owners u r j) (hset _ _ rfl) ?_
      rw [Sys.setThread_self]
      exact .ended _ fun _ _ _ he => by cases he
    | throw e =>
      cases hs
      refine h.hidden_of hi h.kv (fun u _ => rfl) (fun u r hu => release_locks h.owners hu r)
        (fun u r j => release_owners h.owners u r j) (hset _ _ rfl) ?_
      rw [Sys.setThread_self]
      exact .ended _ fun _ _ _ he => by cases he
    | lock r k =>
      simp only [Prog.of] at hs
      split at hs
      · cases hs
        refine h.hidden_of hi h.kv (fun u _ => rfl) (fun u r' hu => ?_) (fun u r' j hj => ?_) (hset _ _ rfl) ?_
        · exact Function.update_of_ne (fun he => hu (congrArg Prod.fst he)) ..
        · by_cases hr : (u, r') = (owner i, r)
          · simp only [Sys.setThread_locks, hr, Function.update_self, Option.some.injEq] at hj
            cases hr
            rw [hj]
          · simp only [Sys.setThread_locks, Function.update_of_ne hr] at hj
            exact h.owners u r' j hj
        · rw [Sys.setThread_self]
          exact .running _ hq
      · cases hs
    | select t f k =>
      cases hs
      refine h.hidden_of hi h.kv (fun u _ => rfl) (fun u r hu => rfl) h.owners (hset _ _ rfl) ?_
      rw [Sys.setThread_self]
      exact .running _ (hq _)
    | write f k =>
      cases hs
      refine h.hidden_of hi h.kv (fun u _ => rfl) (fun u r hu => rfl) h.owners (hset _ _ rfl) ?_
      rw [Sys.setThread_self, onTenant_comp]
      exact .running _ hq.2
    | commit k =>
      cases hs
      refine h.hidden_of hi h.kv (fun u hu => onTenant_ne hu) (fun u r hu => release_locks h.owners hu r)
        (fun u r j => release_owners h.owners u r j) (hset _ _ rfl) ?_
      rw [Sys.setThread_self, ← onTenant_id (u := owner i)]
      exact .running _ hq
    | kv f k =>
      cases hs
      refine h.hidden_of hi (hq'.1 _ _ h.kv) (fun u _ => rfl) (fun u r hu => rfl) h.owners (hset _ _ rfl) ?_
      rw [Sys.setThread_self]
      exact .running _ (hq.2 _)
    | emit e k =>
      cases hs
      refine h.hidden_of hi h.kv (fun u _ => rfl) (fun u r hu => rfl) h.owners (hset _ _ rfl) ?_
      rw [Sys.setThread_self]
      exact .running _ hq

/-- A step of a kept thread is a step of the run without the others. -/
theorem seen (h : Purged owner kept E s t) (hi : kept (owner i) = true) (hs : s.step i = some s') :
    ∃ t', t.step i = some t' ∧ Purged owner kept E s' t' := by
  cases hth : s.threads i with
  | done r => simp [Sys.step, hth] at hs
  | dead => simp [Sys.step, hth] at hs
  | running p reads view =>
    obtain ⟨q, w, rfl, rfl, hq⟩ := h.tenanted i _ _ _ hth
    have hq' := hq
    rw [hi] at hq'
    obtain ⟨reads', hth'⟩ : ∃ reads', t.threads i = .running (q.of (owner i)) reads' (onTenant (owner i) w) := by
      have hsame := h.threads i hi
      rw [hth] at hsame
      generalize t.threads i = th at hsame
      cases hsame
      exact ⟨_, rfl⟩
    simp only [Sys.step, hth] at hs
    simp only [Sys.step, hth']
    have hset : ∀ (x y : Sys (Tenants U I) τ α) (th : Thread (Tenants U I) α), x.threads = y.threads →
        ∀ j, j ≠ i → (x.setThread i th).threads j = y.threads j := by
      intro x y th hx j hj
      rw [Sys.setThread_ne x th hj, hx]
    have hrelease : ∀ u r, kept u = true → (s.release i).locks (u, r) = (t.release i).locks (u, r) := by
      intro u r hu
      simp only [Sys.release, h.locks u r hu]
    have hview : ∀ u, kept u = true → onTenant (owner i) w s.shared.db u = onTenant (owner i) w t.shared.db u := by
      intro u hu
      by_cases hui : u = owner i
      · rw [hui, onTenant_self, onTenant_self, h.db _ hi]
      · rw [onTenant_ne hui, onTenant_ne hui, h.db u hu]
    cases q with
    | ret a =>
      cases hs
      refine ⟨_, rfl, h.seen_of h.kv h.db hrelease (fun u r j => release_owners h.owners u r j) (hset _ _ _ rfl)
        (hset _ _ _ rfl) ?_ ?_⟩
      · rw [Sys.setThread_self, Sys.setThread_self]
        exact .done _
      · rw [Sys.setThread_self]
        exact .ended _ fun _ _ _ he => by cases he
    | throw e =>
      cases hs
      refine ⟨_, rfl, h.seen_of h.kv h.db hrelease (fun u r j => release_owners h.owners u r j) (hset _ _ _ rfl)
        (hset _ _ _ rfl) ?_ ?_⟩
      · rw [Sys.setThread_self, Sys.setThread_self]
        exact .done _
      · rw [Sys.setThread_self]
        exact .ended _ fun _ _ _ he => by cases he
    | lock r k =>
      simp only [Prog.of] at hs ⊢
      rw [← h.locks (owner i) r hi]
      split at hs
      · rename_i hfree
        cases hs
        rw [if_pos hfree]
        refine ⟨_, rfl, h.seen_of h.kv h.db (fun u r' hu => ?_) (fun u r' j hj => ?_) (hset _ _ _ rfl)
          (hset _ _ _ rfl) ?_ ?_⟩
        · by_cases hr : (u, r') = (owner i, r)
          · simp only [Sys.setThread_locks, hr, Function.update_self]
          · simp only [Sys.setThread_locks, Function.update_of_ne hr]
            exact h.locks u r' hu
        · by_cases hr : (u, r') = (owner i, r)
          · simp only [Sys.setThread_locks, hr, Function.update_self, Option.some.injEq] at hj
            cases hr
            rw [hj]
          · simp only [Sys.setThread_locks, Function.update_of_ne hr] at hj
            exact h.owners u r' j hj
        · rw [Sys.setThread_self, Sys.setThread_self]
          exact .running ..
        · rw [Sys.setThread_self]
          exact .running _ hq
      · cases hs
    | select tbl f k =>
      cases hs
      refine ⟨_, rfl, h.seen_of h.kv h.db h.locks h.owners (hset _ _ _ rfl) (hset _ _ _ rfl) ?_ ?_⟩
      · -- both read the same tables of the tenant
        rw [Sys.setThread_self, Sys.setThread_self]
        dsimp only
        rw [hview (owner i) hi]
        exact .running ..
      · rw [Sys.setThread_self]
        exact .running _ (hq _)
    | write f k =>
      cases hs
      refine ⟨_, rfl, h.seen_of h.kv h.db h.locks h.owners (hset _ _ _ rfl) (hset _ _ _ rfl) ?_ ?_⟩
      · rw [Sys.setThread_self, Sys.setThread_self]
        exact .running ..
      · rw [Sys.setThread_self, onTenant_comp]
        exact .running _ hq.2
    | commit k =>
      cases hs
      refine ⟨_, rfl, h.seen_of h.kv hview hrelease (fun u r j => release_owners h.owners u r j) (hset _ _ _ rfl)
        (hset _ _ _ rfl) ?_ ?_⟩
      · rw [Sys.setThread_self, Sys.setThread_self]
        exact .running ..
      · rw [Sys.setThread_self, ← onTenant_id (u := owner i)]
        exact .running _ hq
    | kv f k =>
      cases hs
      obtain ⟨htakes, hleaves⟩ := hq'.1 _ _ h.kv
      refine ⟨_, rfl, h.seen_of hleaves h.db h.locks h.owners (hset _ _ _ rfl) (hset _ _ _ rfl) ?_ ?_⟩
      · rw [Sys.setThread_self, Sys.setThread_self, htakes]
        exact .running ..
      · rw [Sys.setThread_self]
        exact .running _ (hq.2 _)
    | emit e k =>
      cases hs
      refine ⟨_, rfl, h.seen_of h.kv h.db h.locks h.owners (hset _ _ _ rfl) (hset _ _ _ rfl) ?_ ?_⟩
      · rw [Sys.setThread_self, Sys.setThread_self]
        exact .running ..
      · rw [Sys.setThread_self]
        exact .running _ hq

omit [DecidableEq I.Lock] in
/-- A crash of a thread that is taken away. -/
theorem crash_hidden (h : Purged owner kept E s t) (hi : kept (owner i) = false) :
    Purged owner kept E (s.crash i) t := by
  refine h.hidden_of hi h.kv (fun u _ => rfl) (fun u r hu => release_locks h.owners hu r)
    (fun u r j => release_owners h.owners u r j) (fun j hj => Sys.setThread_ne _ _ hj) ?_
  rw [Sys.crash, Sys.setThread_self]
  exact .ended _ fun _ _ _ he => by cases he

omit [DecidableEq I.Lock] in
theorem crash_seen (h : Purged owner kept E s t) : Purged owner kept E (s.crash i) (t.crash i) := by
  refine h.seen_of h.kv h.db (fun u r hu => ?_) (fun u r j => release_owners h.owners u r j)
    (fun j hj => Sys.setThread_ne _ _ hj) (fun j hj => Sys.setThread_ne _ _ hj) ?_ ?_
  · simp only [Sys.crash, Sys.setThread_locks, Sys.release, h.locks u r hu]
  · rw [Sys.crash, Sys.crash, Sys.setThread_self, Sys.setThread_self]
    exact .dead
  · rw [Sys.crash, Sys.setThread_self]
    exact .ended _ fun _ _ _ he => by cases he

end Purged

/-- **Noninterference.**  The commands of the kept threads see, and leave, no more of the store than what `E` compares,
those of the others leave it as it was, and the store changes from outside alike in stores that are alike.  Then every
run has a run without the others, in which the kept threads and their tenants' tables are the same. -/
theorem Reach.purge [DecidableEq τ] [DecidableEq I.Lock] {env : I.Kv → I.Kv → Prop} {rows : U → I.Db} {kv : I.Kv}
    {prog : τ → Prog I α} (hE : E kv kv)
    (henv : ∀ kv kv' kv'', env kv kv' → E kv kv'' → ∃ kv₃, env kv'' kv₃ ∧ E kv' kv₃)
    (hprog : ∀ i, (prog i).All (fun _ => True) (if kept (owner i) then Sees E else Hides E))
    (h : Reach (I := Tenants U I) env anyCommit (Tenants.start owner rows kv prog) s) :
    ∃ t, Reach (I := Tenants U I) env anyCommit ((Tenants.start owner rows kv prog).keep fun i => kept (owner i)) t ∧
      Purged owner kept E s t := by
  induction h with
  | start =>
    refine ⟨_, .start, hE, fun u _ => rfl, fun u r _ => rfl, fun u r i hi => (by cases hi), fun i hi => ?_, fun i => ?_⟩
    · simp only [Sys.keep, hi, if_true]
      exact .refl _
    · rw [Tenants.start, Sys.start, ← onTenant_id (u := owner i)]
      exact .running _ (hprog i)
  | step i _ _ hs ih =>
    obtain ⟨t, ht, hp⟩ := ih
    cases hi : kept (owner i) with
    | false => exact ⟨t, ht, hp.hidden hi hs⟩
    | true =>
      obtain ⟨t', hs', hp'⟩ := hp.seen hi hs
      exact ⟨t', ht.step i (fun _ _ _ _ => trivial) hs', hp'⟩
  | crash i _ hrun ih =>
    obtain ⟨t, ht, hp⟩ := ih
    cases hi : kept (owner i) with
    | false => exact ⟨t, ht, hp.crash_hidden hi⟩
    | true =>
      refine ⟨t.crash i, ht.crash i ?_, hp.crash_seen⟩
      obtain ⟨p, reads, view, hth⟩ := hrun
      have hsame := hp.threads i hi
      rw [hth] at hsame
      generalize t.threads i = th at hsame
      cases hsame
      exact ⟨_, _, _, rfl⟩
  | outside kv' _ he ih =>
    obtain ⟨t, ht, hp⟩ := ih
    obtain ⟨kv₃, he', hE'⟩ := henv _ _ _ he hp.kv
    exact ⟨t.outside kv₃, Reach.outside (I := Tenants U I) kv₃ ht he', hE', hp.db, hp.locks, hp.owners, hp.threads, hp.tenanted⟩

end Purge

end CodeReader.Txn
