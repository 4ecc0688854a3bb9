import CodeReader.Txn.Commits
import CodeReader.Txn.Lift

/-!
# Transactions of which some reads matter

What a transaction leaves may depend on some of its reads, whatever the others give.  Such a transaction is as good
as alone when nothing was committed since the reads that matter.

* `Prog.Ensures rel Q` — the program, run alone, ends in `Q` whatever it reads from the tables outside `rel`;
* `ensures_bind`, `ensures_of_exec`, `ensures_lift` — its rules;
* `Tracked`, `wp_tracked` — among others' commits: where the reads that matter are current, it ends in `Q` of the
  tables as they are;
* `OthersOf`, `CommitsOnce`, `Reach.tables_of_commits` — each thread commits at most once, and what every admitted
  commit keeps.
-/

namespace CodeReader.Txn

variable {I : Iface} {τ α β : Type}

namespace Prog

/-- From the tables `cur` of its transaction, holding `held`, a part of a transaction ends in `Q`; a read of a table
outside `rel` may be of any tables. -/
def Ensures (rel : I.Tbl → Prop) (Q : Except I.Err α → Set I.Lock → I.Db → Prop) : Prog I α → Set I.Lock → I.Db → Prop
  | ret a, held, cur => Q (.ok a) held cur
  | throw e, held, cur => Q (.error e) held cur
  | lock r k, held, cur => k.Ensures rel Q (insert r held) cur
  | select t f k, held, cur =>
    (rel t → (k (f cur)).Ensures rel Q held cur) ∧ (¬ rel t → ∀ d, (k (f d)).Ensures rel Q held cur)
  | write f k, held, cur => k.Ensures rel Q held (f cur)
  | commit _, _, _ => False
  | kv _ _, _, _ => False
  | emit _ _, _, _ => False

variable {rel : I.Tbl → Prop} {Q Q' : Except I.Err α → Set I.Lock → I.Db → Prop} {p : Prog I α} {held : Set I.Lock}
  {cur : I.Db}

theorem Ensures.mono (hQ : ∀ r held cur, Q r held cur → Q' r held cur) (h : p.Ensures rel Q held cur) :
    p.Ensures rel Q' held cur := by
  induction p generalizing held cur with
  | ret a => exact hQ _ _ _ h
  | throw e => exact hQ _ _ _ h
  | lock r k ih => exact ih h
  | select t f k ih => exact ⟨fun ht => ih _ (h.1 ht), fun ht d => ih _ (h.2 ht d)⟩
  | write f k ih => exact ih h
  | commit k => exact h.elim
  | kv f k => exact h.elim
  | emit e k => exact h.elim

/-- **Sequencing.** -/
theorem ensures_bind {Q : Except I.Err β → Set I.Lock → I.Db → Prop} {g : α → Prog I β}
    (h : p.Ensures rel (fun r held cur => match r with
      | .ok a => (g a).Ensures rel Q held cur
      | .error e => Q (.error e) held cur) held cur) : (p >>= g).Ensures rel Q held cur := by
  induction p generalizing held cur with
  | ret a => exact h
  | throw e => exact h
  | lock r k ih => exact ih h
  | select t f k ih => exact ⟨fun ht => ih _ (h.1 ht), fun ht d => ih _ (h.2 ht d)⟩
  | write f k ih => exact ih h
  | commit k => exact h.elim
  | kv f k => exact h.elim
  | emit e k => exact h.elim

/-- A read of another table. -/
theorem ensures_query {t : I.Tbl} {f : I.Db → α} (ht : ¬ rel t) : (query t f : Prog I α).Ensures rel
    (fun r held' cur' => ∃ d, r = .ok (f d) ∧ held' = held ∧ cur' = cur) held cur :=
  ⟨fun h => absurd h ht, fun _ d => ⟨d, rfl, rfl, rfl⟩⟩

/-- What is ensured is what happens alone. -/
theorem Ensures.exec (h : p.Ensures rel Q held cur) (s : Store I) :
    (p.exec cur s).store = s ∧ ∃ held', Q (p.exec cur s).res held' (p.exec cur s).cur := by
  induction p generalizing held cur with
  | ret a => exact ⟨rfl, held, h⟩
  | throw e => exact ⟨rfl, held, h⟩
  | lock r k ih => exact ih h
  | select t f k ih =>
    by_cases ht : rel t
    · exact ih _ (h.1 ht)
    · exact ih _ (h.2 ht cur)
  | write f k ih => exact ih h
  | commit k => exact h.elim
  | kv f k => exact h.elim
  | emit e k => exact h.elim

/-- Only the tables of `rel` are read. -/
def Reads (rel : I.Tbl → Prop) : Prog I α → Prop
  | ret _ => True
  | throw _ => True
  | lock _ k => k.Reads rel
  | select t _ k => rel t ∧ ∀ b, (k b).Reads rel
  | write _ k => k.Reads rel
  | commit _ => False
  | kv _ _ => False
  | emit _ _ => False

theorem Reads.bind {g : α → Prog I β} (hp : p.Reads rel) (hg : ∀ a, (g a).Reads rel) : (p >>= g).Reads rel := by
  induction p with
  | ret a => exact hg a
  | throw e => trivial
  | lock r k ih => exact ih hp
  | select t f k ih => exact ⟨hp.1, fun b => ih b (hp.2 b)⟩
  | write f k ih => exact ih hp
  | commit k => exact hp.elim
  | kv f k => exact hp.elim
  | emit e k => exact hp.elim

/-- When every read matters, what happens alone is ensured. -/
theorem ensures_of_exec {Q : Except I.Err α → I.Db → Prop} (hp : p.Reads rel) (s : Store I)
    (h : Q (p.exec cur s).res (p.exec cur s).cur) : p.Ensures rel (fun r _ cur => Q r cur) held cur := by
  induction p generalizing held cur with
  | ret a => exact h
  | throw e => exact h
  | lock r k ih => exact ih hp h
  | select t f k ih => exact ⟨fun _ => ih _ (hp.2 _) h, fun ht => absurd hp.1 ht⟩
  | write f k ih => exact ih hp h
  | commit k => exact hp.elim
  | kv f k => exact hp.elim
  | emit e k => exact hp.elim

/-- A program over a part of the tables, run over all of them. -/
theorem ensures_lift {D L T : Type} {P : Part I D L T} {rel' : T → Prop} {Q : Except I.Err α → I.Db → Prop}
    (hrel : ∀ t, rel' (P.tbl t) ↔ rel t) {d : D} {held' : Set L}
    (h : p.Ensures rel (fun r _ cur => Q r cur) held (P.get d)) :
    (p.lift P).Ensures (I := I.over D L T) rel' (fun r _ d' => ∃ cur, d' = P.set cur d ∧ Q r cur) held' d := by
  have hgen : ∀ cur, p.Ensures rel (fun r _ cur => Q r cur) held cur →
      (p.lift P).Ensures (I := I.over D L T) rel' (fun r _ d' => ∃ cur, d' = P.set cur d ∧ Q r cur) held' (P.set cur d) := by
    clear h
    intro cur h
    induction p generalizing held held' cur with
    | ret a => exact ⟨cur, rfl, h⟩
    | throw e => exact ⟨cur, rfl, h⟩
    | lock r k ih => exact ih cur h
    | select t f k ih =>
      refine ⟨fun ht => ?_, fun ht d' => ih _ cur (h.2 (fun hr => ht ((hrel t).mpr hr)) (P.get d'))⟩
      dsimp only
      rw [P.get_set]
      exact ih _ cur (h.1 ((hrel t).mp ht))
    | write f k ih =>
      have hmodify : P.modify f (P.set cur d) = P.set (f cur) d := by
        rw [Part.modify, P.get_set, P.set_set]
      simp only [Prog.lift, Ensures, hmodify]
      exact ih (f cur) h
    | commit k => exact h.elim
    | kv f k => exact h.elim
    | emit e k => exact h.elim
  have hd := hgen (P.get d) h
  rwa [P.set_get] at hd

/-- Locks are kept. -/
theorem Ensures.keeps (h : p.Ensures rel Q held cur) :
    p.Ensures rel (fun r held' cur => held ⊆ held' ∧ Q r held' cur) held cur := by
  induction p generalizing held cur with
  | ret a => exact ⟨subset_rfl, h⟩
  | throw e => exact ⟨subset_rfl, h⟩
  | lock r k ih => exact (ih h).mono fun _ _ _ hq => ⟨(Set.subset_insert r held).trans hq.1, hq.2⟩
  | select t f k ih => exact ⟨fun ht => ih _ (h.1 ht), fun ht d => ih _ (h.2 ht d)⟩
  | write f k ih => exact ih h
  | commit k => exact h.elim
  | kv f k => exact h.elim
  | emit e k => exact h.elim

end Prog

/-! ## Among others' commits -/

/-- Where the reads that matter are current, `p` ensures `Q` of the tables as they are; before the first of them, of
whatever tables. -/
structure Tracked (rel : I.Tbl → Prop) (Q : I.Db → Except I.Err α → Set I.Lock → I.Db → Prop) (p : Prog I α)
    (l : Local I) (S : Shared I τ) : Prop where
  bounded : ∀ r ∈ l.reads, r.since ≤ S.commits.length
  opening : (∃ r ∈ l.reads, rel r.tbl) ∨ ∀ db, p.Ensures rel (Q db) l.held (l.view db)
  current : l.Valid rel S → p.Ensures rel (Q S.db) l.held (l.view S.db)

/-- The program that ends at once. -/
def Prog.result : Except I.Err α → Prog I α
  | .ok a => .ret a
  | .error e => .throw e

section Rules

variable {rel : I.Tbl → Prop} {Q : I.Db → Except I.Err α → Set I.Lock → I.Db → Prop} {p : Prog I α} {l : Local I}
  {S S' : Shared I τ}

/-- A transaction that has read nothing. -/
theorem Tracked.start (h : ∀ db, p.Ensures rel (Q db) ∅ db) : Tracked rel Q p (.idle : Local I) S where
  bounded _ hr := nomatch hr
  opening := .inr h
  current _ := h S.db

theorem Tracked.others (h : Tracked rel Q p l S) (ho : Others S S') : Tracked rel Q p l S' where
  bounded r hr := Nat.le_trans (h.bounded r hr) ho.commits.length_le
  opening := h.opening
  current hv := by
    rcases h.opening with ⟨r, hr, ht⟩ | hall
    · -- a read that matters is current, so nothing was committed
      have hsince := hv r hr ht
      have hlen : S'.commits.length = S.commits.length := by
        have := h.bounded r hr
        have := ho.commits.length_le
        omega
      rw [ho.same hlen]
      exact h.current fun r' hr' ht' => (hv r' hr' ht').trans hlen
    · exact hall S'.db

theorem Tracked.select {t : I.Tbl} {f : I.Db → β} {k : β → Prog I α} (h : Tracked rel Q (.select t f k) l S) :
    Tracked rel Q (k (f (l.view S.db))) { l with reads := ⟨t, S.commits.length⟩ :: l.reads } S where
  bounded r hr := by
    rcases List.mem_cons.mp hr with rfl | hr
    · exact Nat.le_refl _
    · exact h.bounded r hr
  opening := by
    by_cases ht : rel t
    · exact .inl ⟨_, List.mem_cons_self, ht⟩
    · rcases h.opening with ⟨r, hr, htr⟩ | hall
      · exact .inl ⟨r, List.mem_cons_of_mem _ hr, htr⟩
      · exact .inr fun db => (hall db).2 ht (l.view S.db)
  current hv := by
    have hk := h.current fun r hr => hv r (List.mem_cons_of_mem _ hr)
    by_cases ht : rel t
    · exact hk.1 ht
    · exact hk.2 ht (l.view S.db)

variable {R : Local I → Shared I τ → Shared I τ → Prop} {G : Act → Local I → Shared I τ → Shared I τ → Prop} {i : τ}

/-- **A part of a transaction among others' commits**: what the others and the part's own locks, reads and writes keep
holds where it ends; and where the reads that matter are current, it ends in what it ensures. -/
theorem wp_tracked {K : (I.Db → I.Db) → Prop} (J : Local I → Shared I τ → Prop)
    (hR : ∀ l s s', J l s → R l s s' → J l s' ∧ Others s s')
    (hlock : ∀ l s r, J l s → J { l with held := insert r l.held } s)
    (hread : ∀ l s t, J l s → J { l with reads := ⟨t, s.commits.length⟩ :: l.reads } s)
    (hwrite : ∀ l s f, K f → J l s → J { l with view := f ∘ l.view } s)
    (hp : p.Within K) (hJ : J l S) (h : Tracked rel Q p l S) :
    wp R G i (fun r l S => J l S ∧ Tracked rel Q (.result r) l S) p l S := by
  induction p generalizing l S with
  | ret a =>
    intro S' hs
    obtain ⟨hJ', ho⟩ := hR _ _ _ hJ hs
    exact ⟨hJ', h.others ho⟩
  | throw e =>
    intro S' hs
    obtain ⟨hJ', ho⟩ := hR _ _ _ hJ hs
    exact ⟨hJ', h.others ho⟩
  | lock r k ih =>
    intro S' hs
    obtain ⟨hJ', ho⟩ := hR _ _ _ hJ hs
    have h' := h.others ho
    exact ih hp (hlock _ _ _ hJ') ⟨h'.bounded, h'.opening, h'.current⟩
  | select t f k ih =>
    intro S' hs
    obtain ⟨hJ', ho⟩ := hR _ _ _ hJ hs
    exact ih _ (hp _) (hread _ _ _ hJ') (h.others ho).select
  | write f k ih =>
    intro S' hs
    obtain ⟨hJ', ho⟩ := hR _ _ _ hJ hs
    have h' := h.others ho
    exact ih hp.2 (hwrite _ _ _ hp.1 hJ') ⟨h'.bounded, h'.opening, h'.current⟩
  | commit k => exact hp.elim
  | kv f k => exact hp.elim
  | emit e k => exact hp.elim

end Rules

/-! ## One commit each -/

section Once

variable {W : I.Db → I.Db → Prop} {P : τ → Local I → Shared I τ → I.Db → Prop}

/-- The others commit, none of their commits is of thread `i`, and the tables change as `W` says. -/
structure OthersOf (W : I.Db → I.Db → Prop) (i : τ) (S S' : Shared I τ) : Prop extends Others S S' where
  once : i ∉ S.commits → i ∉ S'.commits
  keeps : W S.db S'.db

/-- A first commit of the thread that changes the tables as `W` says and meets `P`, or a statement that leaves the
tables. -/
abbrev CommitsOnce (W : I.Db → I.Db → Prop) (P : Local I → Shared I τ → I.Db → Prop) (i : τ) :
    Act → Local I → Shared I τ → Shared I τ → Prop :=
  Commits (fun l S db' => i ∉ S.commits ∧ W S.db db' ∧ P l S db') i

theorem commitsOnce_rules (hrefl : ∀ db, W db db) (htrans : ∀ a b c, W a b → W b c → W a c) {db : I.Db} {kv : I.Kv}
    {prog : τ → Prog I α} (h : ∀ i S, i ∉ S.commits →
      wp (fun _ => OthersOf W i) (CommitsOnce W (P i) i) i (fun _ _ _ => True) (prog i) .idle S) :
    Rules (fun _ _ => True) (Sys.start db kv prog) (fun i _ => OthersOf W i) (fun i => CommitsOnce W (P i) i)
      (fun _ _ _ => True) where
  refl _ _ S := ⟨Others.refl S, id, hrefl _⟩
  trans _ _ _ _ _ h h' := ⟨h.toOthers.trans h'.toOthers, h'.once ∘ h.once, htrans _ _ _ h.keeps h'.keeps⟩
  outside _ _ S kv _ := ⟨⟨List.prefix_rfl, fun _ => rfl⟩, id, hrefl _⟩
  compat s i j a S' hj hG := by
    by_cases ha : a = .commit
    · obtain ⟨hc, -, hW, -⟩ := hG.1 ha
      refine ⟨hG.others, fun hn => ?_, hW⟩
      rw [hc, List.mem_append, List.mem_singleton]
      exact fun hm => hm.elim hn hj
    · obtain ⟨hc, hdb⟩ := hG.2 ha
      refine ⟨hG.others, fun hn => ?_, ?_⟩
      · rwa [hc]
      · rw [hdb]
        exact hrefl _
  stable _ _ _ _ _ _ := trivial
  start i := good_start (h i _ List.not_mem_nil)

/-- **What every admitted commit keeps** of the threads that committed and the tables holds in every reachable state. -/
theorem Reach.tables_of_commits [DecidableEq τ] [DecidableEq I.Lock] (hrefl : ∀ db, W db db)
    (htrans : ∀ a b c, W a b → W b c → W a c) {J : List τ → I.Db → Prop} {A : τ → Local I → Shared I τ → Prop}
    {db : I.Db} {kv : I.Kv} {prog : τ → Prog I α}
    (hwp : ∀ i S, i ∉ S.commits →
      wp (fun _ => OthersOf W i) (CommitsOnce W (P i) i) i (fun _ _ _ => True) (prog i) .idle S)
    (hdb : J [] db)
    (hJ : ∀ i l S db', A i l S → i ∉ S.commits → P i l S db' → J S.commits S.db → J (S.commits ++ [i]) db')
    {s : Sys I τ α} (h : Reach (fun _ _ => True) A (Sys.start db kv prog) s) : J s.shared.commits s.shared.db := by
  refine Reach.inv (commitsOnce_rules hrefl htrans hwp) (J := fun S => J S.commits S.db) hdb ?_ ?_ (fun S kv _ hS => hS) h
  · intro s i S' hA hS hG
    obtain ⟨hc, hi, -, hP⟩ := hG.1 rfl
    rw [hc]
    exact hJ i _ _ _ hA hi hP hS
  · intro s i a S' ha hS hG
    rw [(hG.2 ha).1, (hG.2 ha).2]
    exact hS

end Once

end CodeReader.Txn
