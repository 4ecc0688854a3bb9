import CodeReader.Txn.Transaction

/-!
# Facts about the tables alone

Where a property is about the tables only, it is enough to say what each commit does to them.

* `Others` — the others: they only commit, and the tables change only by commits;
* `Commits P` — a statement: a commit that meets `P`, or one that leaves the tables;
* `wp_part` — the rule for the part of a transaction before its commit;
* `Steady` — what the others, locks and reads keep, and with it a rule for each statement;
* `Reach.tables` — what every admitted commit keeps holds of the tables in every reachable state.
-/

namespace CodeReader.Txn

variable {I : Iface} {τ α β : Type}

/-- The others commit, and the tables change only by their commits. -/
structure Others (S S' : Shared I τ) : Prop where
  commits : S.commits <+: S'.commits
  same : S'.commits.length = S.commits.length → S'.db = S.db

theorem Others.refl (S : Shared I τ) : Others S S := ⟨List.prefix_rfl, fun _ => rfl⟩

theorem Others.trans {S₁ S₂ S₃ : Shared I τ} (h : Others S₁ S₂) (h' : Others S₂ S₃) : Others S₁ S₃ where
  commits := h.commits.trans h'.commits
  same he := by
    have h₁ := h.commits.length_le
    have h₂ := h'.commits.length_le
    rw [h'.same (by omega), h.same (by omega)]

/-- A commit of thread `i` that meets `P`, or a statement that leaves the tables: `P l S db` is about the tables `db`
committed from `S`. -/
def Commits (P : Local I → Shared I τ → I.Db → Prop) (i : τ) (a : Act) (l : Local I) (S S' : Shared I τ) : Prop :=
  (a = .commit → S'.commits = S.commits ++ [i] ∧ P l S S'.db) ∧ (a ≠ .commit → S'.commits = S.commits ∧ S'.db = S.db)

theorem Commits.commit {P : Local I → Shared I τ → I.Db → Prop} {i : τ} {l : Local I} {S : Shared I τ} {db : I.Db}
    (h : P l S db) : Commits P i .commit l S { S with db := db, commits := S.commits ++ [i] } :=
  ⟨fun _ => ⟨rfl, h⟩, fun hne => absurd rfl hne⟩

/-- A command of the store leaves the tables. -/
theorem Commits.store (P : Local I → Shared I τ → I.Db → Prop) (i : τ) (l : Local I) (S : Shared I τ) (kv : I.Kv) :
    Commits P i .store l S { S with kv := kv } :=
  ⟨fun h => Act.noConfusion h, fun _ => ⟨rfl, rfl⟩⟩

theorem Commits.observe (P : Local I → Shared I τ → I.Db → Prop) (i : τ) (l : Local I) (S : Shared I τ)
    (trace : List (τ × I.Ev)) : Commits P i .observe l S { S with trace := trace } :=
  ⟨fun h => Act.noConfusion h, fun _ => ⟨rfl, rfl⟩⟩

theorem Commits.others {P : Local I → Shared I τ → I.Db → Prop} {i : τ} {a : Act} {l : Local I} {S S' : Shared I τ}
    (h : Commits P i a l S S') : Others S S' := by
  by_cases ha : a = .commit
  · obtain ⟨hc, -⟩ := h.1 ha
    refine ⟨by rw [hc]; exact List.prefix_append _ _, fun hlen => ?_⟩
    rw [hc, List.length_append, List.length_singleton] at hlen
    omega
  · obtain ⟨hc, hdb⟩ := h.2 ha
    exact ⟨⟨[], by rw [hc, List.append_nil]⟩, fun _ => hdb⟩

/-- What every commit does to the tables. -/
theorem Commits.keeps {P : Local I → Shared I τ → I.Db → Prop} {i : τ} {a : Act} {l : Local I} {S S' : Shared I τ}
    {W : I.Db → I.Db → Prop} (hrefl : ∀ db, W db db) (h : Commits P i a l S S') (hP : ∀ db', P l S db' → W S.db db') :
    W S.db S'.db := by
  by_cases ha : a = .commit
  · exact hP _ (h.1 ha).2
  · rw [(h.2 ha).2]
    exact hrefl _

/-! ## Rules -/

section Rules

variable {R : Local I → Shared I τ → Shared I τ → Prop} {G : Act → Local I → Shared I τ → Shared I τ → Prop} {i : τ}

/-- **Before the commit**: what the others and the part's own locks, reads and writes keep holds where the part ends. -/
theorem wp_part {K : (I.Db → I.Db) → Prop} (J : Local I → Shared I τ → Prop)
    (hR : ∀ l s s', J l s → R l s s' → J l s')
    (hlock : ∀ l s r, J l s → J { l with held := insert r l.held } s)
    (hread : ∀ l s t, J l s → J { l with reads := ⟨t, s.commits.length⟩ :: l.reads } s)
    (hwrite : ∀ l s f, K f → J l s → J { l with view := f ∘ l.view } s)
    {p : Prog I α} (hp : p.Within K) {l : Local I} {s : Shared I τ} (hJ : J l s) :
    wp R G i (fun _ l s => J l s) p l s := by
  induction p generalizing l s with
  | ret a => exact fun s' hs => hR _ _ _ hJ hs
  | throw e => exact fun s' hs => hR _ _ _ hJ hs
  | lock r k ih => exact fun s' hs => ih hp (hlock _ _ _ (hR _ _ _ hJ hs))
  | select t f k ih => exact fun s' hs => ih _ (hp _) (hread _ _ _ (hR _ _ _ hJ hs))
  | write f k ih => exact fun s' hs => ih hp.2 (hwrite _ _ _ hp.1 (hR _ _ _ hJ hs))
  | commit k => exact hp.elim
  | kv f k => exact hp.elim
  | emit e k => exact hp.elim

/-- What the others keep, and the transaction's own locks and reads. -/
structure Steady (R : Local I → Shared I τ → Shared I τ → Prop) (J : Local I → Shared I τ → Prop) : Prop where
  rely : ∀ l s s', J l s → R l s s' → J l s'
  lock : ∀ l s r, J l s → J { l with held := insert r l.held } s
  read : ∀ l s t, J l s → J { l with reads := ⟨t, s.commits.length⟩ :: l.reads } s

variable {J J' : Local I → Shared I τ → Prop} {Q : Except I.Err α → Local I → Shared I τ → Prop} {l : Local I}
  {s : Shared I τ}

theorem Steady.and (hJ : Steady R J) (hJ' : Steady R J') : Steady R fun l s => J l s ∧ J' l s where
  rely _ _ _ h hs := ⟨hJ.rely _ _ _ h.1 hs, hJ'.rely _ _ _ h.2 hs⟩
  lock _ _ _ h := ⟨hJ.lock _ _ _ h.1, hJ'.lock _ _ _ h.2⟩
  read _ _ _ h := ⟨hJ.read _ _ _ h.1, hJ'.read _ _ _ h.2⟩

theorem Steady.held {r : I.Lock} : Steady R fun l _ => r ∈ l.held where
  rely _ _ _ h _ := h
  lock _ _ _ h := Set.mem_insert_of_mem _ h
  read _ _ _ h := h

theorem Steady.wp_ret (hJ : Steady R J) (h : J l s) {a : α} (hQ : ∀ s, J l s → Q (.ok a) l s) : wp R G i Q (.ret a) l s :=
  fun s' hs => hQ s' (hJ.rely _ _ _ h hs)

theorem Steady.wp_throw (hJ : Steady R J) (h : J l s) {e : I.Err} (hQ : ∀ s, J l s → Q (.error e) l s) :
    wp R G i Q (.throw e) l s := fun s' hs => hQ s' (hJ.rely _ _ _ h hs)

theorem Steady.wp_lock (hJ : Steady R J) (h : J l s) {r : I.Lock} {k : Prog I α}
    (hk : ∀ l s, J l s → r ∈ l.held → wp R G i Q k l s) : wp R G i Q (.lock r k) l s :=
  fun s' hs => hk _ s' (hJ.lock _ _ _ (hJ.rely _ _ _ h hs)) (Set.mem_insert _ _)

theorem Steady.wp_select (hJ : Steady R J) (h : J l s) {t : I.Tbl} {f : I.Db → β} {k : β → Prog I α}
    (hk : ∀ l s, J l s → wp R G i Q (k (f (l.view s.db))) l s) : wp R G i Q (.select t f k) l s :=
  fun s' hs => hk _ s' (hJ.read _ _ _ (hJ.rely _ _ _ h hs))

theorem Steady.wp_write (hJ : Steady R J) (h : J l s) {f : I.Db → I.Db} {k : Prog I α}
    (hk : ∀ s, J l s → wp R G i Q k { l with view := f ∘ l.view } s) : wp R G i Q (.write f k) l s :=
  fun s' hs => hk s' (hJ.rely _ _ _ h hs)

theorem Steady.wp_commit (hJ : Steady R J) (h : J l s) {k : Prog I α}
    (hk : ∀ s, J l s → G .commit l s { s with db := l.view s.db, commits := s.commits ++ [i] } ∧
      wp R G i Q k .idle { s with db := l.view s.db, commits := s.commits ++ [i] }) : wp R G i Q (.commit k) l s :=
  fun s' hs => hk s' (hJ.rely _ _ _ h hs)

theorem Steady.wp_kv (hJ : Steady R J) (h : J l s) {f : I.Kv → β × I.Kv} {k : β → Prog I α}
    (hk : ∀ s, J l s → G .store l s { s with kv := (f s.kv).2 } ∧
      wp R G i Q (k (f s.kv).1) l { s with kv := (f s.kv).2 }) : wp R G i Q (.kv f k) l s :=
  fun s' hs => hk s' (hJ.rely _ _ _ h hs)

theorem Steady.wp_emit (hJ : Steady R J) (h : J l s) {e : I.Ev} {k : Prog I α}
    (hk : ∀ s, J l s → G .observe l s { s with trace := s.trace ++ [(i, e)] } ∧
      wp R G i Q k l { s with trace := s.trace ++ [(i, e)] }) : wp R G i Q (.emit e k) l s :=
  fun s' hs => hk s' (hJ.rely _ _ _ h hs)

end Rules

/-! ## Soundness -/

variable {P : τ → Local I → Shared I τ → I.Db → Prop}

/-- The rules of programs of which it is enough to know their commits. -/
theorem commits_rules {db : I.Db} {kv : I.Kv} {prog : τ → Prog I α}
    (h : ∀ i S, wp (fun _ => Others) (Commits (P i) i) i (fun _ _ _ => True) (prog i) .idle S) :
    Rules (fun _ _ => True) (Sys.start db kv prog) (fun _ _ => Others) (fun i => Commits (P i) i)
      (fun _ _ _ => True) where
  refl _ _ := Others.refl
  trans _ _ _ _ _ := Others.trans
  outside _ _ _ _ _ := ⟨List.prefix_rfl, fun _ => rfl⟩
  compat _ _ _ _ _ _ hG := hG.others
  stable _ _ _ _ _ _ := trivial
  start i := good_start (h i _)

/-- **What every admitted commit keeps** holds of the tables in every reachable state. -/
theorem Reach.tables [DecidableEq τ] [DecidableEq I.Lock] {J : I.Db → Prop} {A : τ → Local I → Shared I τ → Prop} {db : I.Db} {kv : I.Kv}
    {prog : τ → Prog I α} (hwp : ∀ i S, wp (fun _ => Others) (Commits (P i) i) i (fun _ _ _ => True) (prog i) .idle S)
    (hdb : J db) (hJ : ∀ i l S db', A i l S → P i l S db' → J S.db → J db') {s : Sys I τ α}
    (h : Reach (fun _ _ => True) A (Sys.start db kv prog) s) : J s.shared.db := by
  refine Reach.inv (commits_rules hwp) (J := fun S => J S.db) hdb ?_ ?_ (fun S kv _ hS => hS) h
  · exact fun s i S' hA hS hG => hJ i _ _ _ hA (hG.1 rfl).2 hS
  · intro s i a S' ha hS hG
    rw [(hG.2 ha).2]
    exact hS

end CodeReader.Txn
