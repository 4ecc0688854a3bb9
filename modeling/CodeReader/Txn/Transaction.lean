import CodeReader.Txn.RelyGuarantee

/-!
# Transactions whose reads are still current

The part of a transaction between its first reads and its commit only takes locks, reads, and writes: nothing of it
is seen by others.  If nothing was committed since its first relevant read, it has computed what it would compute
alone, on the tables as they are when it commits.

* `Prog.Within K` — only locks, reads, and writes that meet `K`;
* `Prog.All W C` — every write meets `W`, every command of the store `C`;
* `Local.Valid` — nothing was committed since the relevant reads of the open transaction;
* `wp_within` — the rule for such a part: what it keeps, and that its outcome is current when its reads are;
* `wp_all`, `wp_andFinally` — the rules for an invariant of a whole program, and for finalizers;
* `Reach.serial` — when every commit is current, the order of the commits is a serial order of the run.
-/

namespace CodeReader.Txn

variable {I : Iface} {τ α β : Type}

namespace Prog

/-- Only locks, reads, and writes that meet `K`. -/
def Within (K : (I.Db → I.Db) → Prop) : Prog I α → Prop
  | .ret _ => True
  | .throw _ => True
  | .lock _ k => k.Within K
  | .select _ _ k => ∀ b, (k b).Within K
  | .write f k => K f ∧ k.Within K
  | .commit _ => False
  | .kv _ _ => False
  | .emit _ _ => False

variable {K : (I.Db → I.Db) → Prop}

theorem Within.bind {p : Prog I α} {g : α → Prog I β} (hp : p.Within K) (hg : ∀ a, (g a).Within K) :
    (p >>= g).Within K := by
  induction p with
  | ret a => exact hg a
  | throw e => trivial
  | lock r k ih => exact ih hp
  | select t f k ih => exact fun b => ih b (hp b)
  | write f k ih => exact ⟨hp.1, ih hp.2⟩
  | commit k => exact hp.elim
  | kv f k => exact hp.elim
  | emit e k => exact hp.elim

theorem Within.mono {K' : (I.Db → I.Db) → Prop} (hK : ∀ f, K f → K' f) {p : Prog I α} (hp : p.Within K) :
    p.Within K' := by
  induction p with
  | ret a => trivial
  | throw e => trivial
  | lock r k ih => exact ih hp
  | select t f k ih => exact fun b => ih b (hp b)
  | write f k ih => exact ⟨hK _ hp.1, ih hp.2⟩
  | commit k => exact hp.elim
  | kv f k => exact hp.elim
  | emit e k => exact hp.elim

theorem within_query {t : I.Tbl} {f : I.Db → β} : (query t f : Prog I β).Within K := fun _ => trivial

/-- Run alone, such a program leaves the store. -/
theorem Within.exec_store {p : Prog I α} (hp : p.Within K) (cur : I.Db) (s : Store I) : (p.exec cur s).store = s := by
  induction p generalizing cur with
  | ret a => rfl
  | throw e => rfl
  | lock r k ih => exact ih hp cur
  | select t f k ih => exact ih _ (hp _) cur
  | write f k ih => exact ih hp.2 _
  | commit k => exact hp.elim
  | kv f k => exact hp.elim
  | emit e k => exact hp.elim

/-! ### Writes and commands -/

/-- Every write meets `W`, and every command of the store meets `C`. -/
def All (W : (I.Db → I.Db) → Prop) (C : ∀ β : Type, (I.Kv → β × I.Kv) → Prop) : Prog I α → Prop
  | ret _ => True
  | throw _ => True
  | lock _ k => k.All W C
  | select _ _ k => ∀ b, (k b).All W C
  | write f k => W f ∧ k.All W C
  | commit k => k.All W C
  | kv f k => C _ f ∧ ∀ b, (k b).All W C
  | emit _ k => k.All W C

variable {W W' : (I.Db → I.Db) → Prop} {C C' : ∀ β : Type, (I.Kv → β × I.Kv) → Prop}

theorem All.bind {p : Prog I α} {g : α → Prog I β} (hp : p.All W C) (hg : ∀ a, (g a).All W C) :
    (p >>= g).All W C := by
  induction p with
  | ret a => exact hg a
  | throw e => trivial
  | lock r k ih => exact ih hp
  | select t f k ih => exact fun b => ih b (hp b)
  | write f k ih => exact ⟨hp.1, ih hp.2⟩
  | commit k ih => exact ih hp
  | kv f k ih => exact ⟨hp.1, fun b => ih b (hp.2 b)⟩
  | emit e k ih => exact ih hp

theorem All.andFinally {p : Prog I α} {fin : Prog I Unit} (hp : p.All W C) (hfin : fin.All W C) :
    (p.andFinally fin).All W C := by
  induction p with
  | ret a => exact hfin.bind fun _ => trivial
  | throw e => exact hfin.bind fun _ => trivial
  | lock r k ih => exact ih hp
  | select t f k ih => exact fun b => ih b (hp b)
  | write f k ih => exact ⟨hp.1, ih hp.2⟩
  | commit k ih => exact ih hp
  | kv f k ih => exact ⟨hp.1, fun b => ih b (hp.2 b)⟩
  | emit e k ih => exact ih hp

theorem All.mono (hW : ∀ f, W f → W' f) (hC : ∀ β f, C β f → C' β f) {p : Prog I α} (hp : p.All W C) :
    p.All W' C' := by
  induction p with
  | ret a => trivial
  | throw e => trivial
  | lock r k ih => exact ih hp
  | select t f k ih => exact fun b => ih b (hp b)
  | write f k ih => exact ⟨hW _ hp.1, ih hp.2⟩
  | commit k ih => exact ih hp
  | kv f k ih => exact ⟨hC _ _ hp.1, fun b => ih b (hp.2 b)⟩
  | emit e k ih => exact ih hp

/-- A part of a transaction has no commands. -/
theorem Within.all {p : Prog I α} (hp : p.Within W) : p.All W C := by
  induction p with
  | ret a => trivial
  | throw e => trivial
  | lock r k ih => exact ih hp
  | select t f k ih => exact fun b => ih b (hp b)
  | write f k ih => exact ⟨hp.1, ih hp.2⟩
  | commit k => exact hp.elim
  | kv f k => exact hp.elim
  | emit e k => exact hp.elim

end Prog

/-- Nothing was committed since the reads of the open transaction from tables that matter. -/
def Local.Valid (relevant : I.Tbl → Prop) (l : Local I) (s : Shared I τ) : Prop :=
  ∀ r ∈ l.reads, relevant r.tbl → r.since = s.commits.length

section Rules

variable {R : Local I → Shared I τ → Shared I τ → Prop} {G : Act → Local I → Shared I τ → Shared I τ → Prop} {i : τ}

/-- **A part of a transaction.**  `J` is kept by the others and by the part's own locks, reads and writes, and while
its reads are valid the tables stay.  Then whatever the part ends in, `J` holds there; and if its reads are valid, it
ends as it would alone: as `alone` says of the tables. -/
theorem wp_within {K : (I.Db → I.Db) → Prop} (relevant : I.Tbl → Prop) (J : Local I → Shared I τ → Prop)
    (hR : ∀ l s s', J l s → R l s s' → J l s')
    (hvalid : ∀ l s s', J l s → R l s s' → l.Valid relevant s' → l.Valid relevant s ∧ s'.db = s.db)
    (hlock : ∀ l s r, J l s → J { l with held := insert r l.held } s)
    (hread : ∀ l s t, J l s → J { l with reads := ⟨t, s.commits.length⟩ :: l.reads } s)
    (hwrite : ∀ l s f, K f → J l s → J { l with view := f ∘ l.view } s)
    {alone : I.Db → I.Kv → Run I α} {Q : Except I.Err α → Local I → Shared I τ → Prop} {p : Prog I α}
    (hp : p.Within K) {l : Local I} {s : Shared I τ} (hJ : J l s)
    (hE : l.Valid relevant s → ∀ kv, p.exec (l.view s.db) ⟨s.db, kv⟩ = alone s.db kv)
    (hQ : ∀ r l' s', J l' s' →
      (l'.Valid relevant s' → ∀ kv, alone s'.db kv = ⟨r, l'.view s'.db, ⟨s'.db, kv⟩⟩) → Q r l' s') :
    wp R G i Q p l s := by
  -- what the rest comes to alone stays what it was, as long as the reads are valid
  have hmove : ∀ (q : Prog I α) l s s', J l s → R l s s' →
      (l.Valid relevant s → ∀ kv, q.exec (l.view s.db) ⟨s.db, kv⟩ = alone s.db kv) →
      (l.Valid relevant s' → ∀ kv, q.exec (l.view s'.db) ⟨s'.db, kv⟩ = alone s'.db kv) := by
    intro q l s s' hJ hs hE hv kv
    obtain ⟨hv', hdb⟩ := hvalid l s s' hJ hs hv
    rw [hdb]
    exact hE hv' kv
  induction p generalizing l s with
  | ret a =>
    intro s' hs
    refine hQ _ _ _ (hR _ _ _ hJ hs) fun hv kv => ?_
    exact (hmove _ _ _ _ hJ hs hE hv kv).symm
  | throw e =>
    intro s' hs
    refine hQ _ _ _ (hR _ _ _ hJ hs) fun hv kv => ?_
    exact (hmove _ _ _ _ hJ hs hE hv kv).symm
  | lock r k ih =>
    intro s' hs
    exact ih hp (hlock _ _ _ (hR _ _ _ hJ hs)) fun hv kv => hmove _ _ _ _ hJ hs hE hv kv
  | select t f k ih =>
    intro s' hs
    refine ih _ (hp _) (hread _ _ _ (hR _ _ _ hJ hs)) fun hv kv => ?_
    exact hmove _ _ _ _ hJ hs hE (fun r hr => hv r (List.mem_cons_of_mem _ hr)) kv
  | write f k ih =>
    intro s' hs
    exact ih hp.2 (hwrite _ _ _ hp.1 (hR _ _ _ hJ hs)) fun hv kv => hmove _ _ _ _ hJ hs hE hv kv
  | commit k => exact hp.elim
  | kv f k => exact hp.elim
  | emit e k => exact hp.elim

/-- **An invariant**: kept by the others and by each statement, it holds wherever the program ends. -/
theorem wp_all {W : (I.Db → I.Db) → Prop} {C : ∀ β : Type, (I.Kv → β × I.Kv) → Prop}
    (J : Local I → Shared I τ → Prop) (hR : ∀ l s s', J l s → R l s s' → J l s')
    (hlock : ∀ l s r, J l s → J { l with held := insert r l.held } s)
    (hread : ∀ l s t, J l s → J { l with reads := ⟨t, s.commits.length⟩ :: l.reads } s)
    (hwrite : ∀ l s f, W f → J l s → J { l with view := f ∘ l.view } s)
    (hcommit : ∀ l s, J l s → G .commit l s { s with db := l.view s.db, commits := s.commits ++ [i] } ∧
      J .idle { s with db := l.view s.db, commits := s.commits ++ [i] })
    (hkv : ∀ l s (β : Type) (f : I.Kv → β × I.Kv), C β f → J l s →
      G .store l s { s with kv := (f s.kv).2 } ∧ J l { s with kv := (f s.kv).2 })
    (hemit : ∀ l s e, J l s → G .observe l s { s with trace := s.trace ++ [(i, e)] } ∧
      J l { s with trace := s.trace ++ [(i, e)] })
    {p : Prog I α} (hp : p.All W C) {l : Local I} {s : Shared I τ} (hJ : J l s) :
    wp R G i (fun _ l s => J l s) p l s := by
  induction p generalizing l s with
  | ret a => exact fun s' hs => hR _ _ _ hJ hs
  | throw e => exact fun s' hs => hR _ _ _ hJ hs
  | lock r k ih => exact fun s' hs => ih hp (hlock _ _ _ (hR _ _ _ hJ hs))
  | select t f k ih => exact fun s' hs => ih _ (hp _) (hread _ _ _ (hR _ _ _ hJ hs))
  | write f k ih => exact fun s' hs => ih hp.2 (hwrite _ _ _ hp.1 (hR _ _ _ hJ hs))
  | commit k ih =>
    intro s' hs
    obtain ⟨hG, hJ'⟩ := hcommit _ _ (hR _ _ _ hJ hs)
    exact ⟨hG, ih hp hJ'⟩
  | kv f k ih =>
    intro s' hs
    obtain ⟨hG, hJ'⟩ := hkv _ _ _ f hp.1 (hR _ _ _ hJ hs)
    exact ⟨hG, ih _ (hp.2 _) hJ'⟩
  | emit e k ih =>
    intro s' hs
    obtain ⟨hG, hJ'⟩ := hemit _ _ e (hR _ _ _ hJ hs)
    exact ⟨hG, ih hp hJ'⟩

/-- **Finalizers**: `p` ends where its finalizer can start, whether it returns or throws. -/
theorem wp_andFinally (hrefl : ∀ l s, R l s s) {Q : Except I.Err α → Local I → Shared I τ → Prop} {p : Prog I α}
    {fin : Prog I Unit} {l : Local I} {s : Shared I τ}
    (h : wp R G i (fun r l s => wp R G i Q (fin >>= fun _ => match r with
      | .ok a => Prog.ret a
      | .error e => Prog.throw e) l s) p l s) : wp R G i Q (p.andFinally fin) l s := by
  induction p generalizing l s with
  | ret a => exact h s (hrefl l s)
  | throw e => exact h s (hrefl l s)
  | lock r k ih => exact fun s' hs => ih (h s' hs)
  | select t f k ih => exact fun s' hs => ih _ (h s' hs)
  | write f k ih => exact fun s' hs => ih (h s' hs)
  | commit k ih => exact fun s' hs => ⟨(h s' hs).1, ih (h s' hs).2⟩
  | kv f k ih => exact fun s' hs => ⟨(h s' hs).1, ih _ (h s' hs).2⟩
  | emit e k ih => exact fun s' hs => ⟨(h s' hs).1, ih (h s' hs).2⟩

end Rules

/-! ## The serial order -/

/-- The tables after the transactions of `order`, one after another: `alone i` is what that of `i` does. -/
def serial {δ : Type} (alone : τ → δ → δ) (order : List τ) (db : δ) : δ := order.foldl (fun db i => alone i db) db

theorem serial_append {δ : Type} (alone : τ → δ → δ) (order : List τ) (i : τ) (db : δ) :
    serial alone (order ++ [i]) db = alone i (serial alone order db) := by
  rw [serial, List.foldl_append]
  rfl

/-- **Serializability**: if every admitted commit leaves what its transaction leaves alone, and no thread commits twice,
the tables are those of the serial order of the commits. -/
theorem Reach.serial [DecidableEq τ] [DecidableEq I.Lock] {env : I.Kv → I.Kv → Prop} {s₀ s : Sys I τ α}
    {R : τ → Local I → Shared I τ → Shared I τ → Prop} {G : τ → Act → Local I → Shared I τ → Shared I τ → Prop}
    {Q : τ → Except I.Err α → Shared I τ → Prop} {A : τ → Local I → Shared I τ → Prop} {alone : τ → I.Db → I.Db}
    (hr : Rules env s₀ R G Q) (h₀ : s₀.shared.commits = [])
    (hcommit : ∀ i l S S', A i l S → G i .commit l S S' →
      i ∉ S.commits ∧ S'.commits = S.commits ++ [i] ∧ S'.db = alone i S.db)
    (hother : ∀ i a l S S', a ≠ .commit → G i a l S S' → S'.commits = S.commits ∧ S'.db = S.db)
    (h : Reach env A s₀ s) :
    s.shared.commits.Nodup ∧ s.shared.db = Txn.serial alone s.shared.commits s₀.shared.db := by
  refine Reach.inv hr (J := fun S => S.commits.Nodup ∧ S.db = Txn.serial alone S.commits s₀.shared.db) ?_ ?_ ?_ ?_ h
  · rw [h₀]
    exact ⟨List.nodup_nil, rfl⟩
  · intro s i S' hA ⟨hnodup, hdb⟩ hG
    obtain ⟨hi, hc, hd⟩ := hcommit i _ _ _ hA hG
    rw [hc, hd, serial_append, ← hdb]
    refine ⟨List.nodup_append.mpr ⟨hnodup, by simp, fun j hj k hk hjk => ?_⟩, rfl⟩
    rw [List.mem_singleton.mp hk] at hjk
    exact hi (hjk ▸ hj)
  · intro s i a S' ha hinv hG
    obtain ⟨hc, hd⟩ := hother i a _ _ _ ha hG
    rw [hc, hd]
    exact hinv
  · exact fun S kv _ hinv => hinv

end CodeReader.Txn
