import CodeReader.Txn.Commits

/-!
# Threads with keys

Each thread works on the part of the tables with its key, which it may learn from the tables.  As long as no thread of
a key commits, the part with that key is kept.

* `NoneSince` — no thread of a key has committed since there had been so many commits;
* `KeyedSteps` — what the others do: they commit, and a part changes only with a commit of its key;
* `Commits.keyedSteps` — a commit that keeps the other parts is one.
-/

namespace CodeReader.Txn

variable {I : Iface} {τ κ : Type}

/-- No thread of the key `k` has committed since there had been `n` commits. -/
abbrev NoneSince (key : τ → I.Db → Option κ) (k : κ) (n : Nat) (S : Shared I τ) : Prop :=
  ∀ i ∈ S.commits.drop n, key i S.db ≠ some k

/-- The others commit, keys stay, and a part of the tables is kept until a thread of its key commits. -/
structure KeyedSteps (key : τ → I.Db → Option κ) (keep : κ → I.Db → I.Db → Prop) (S S' : Shared I τ) : Prop where
  commits : S.commits <+: S'.commits
  keyed : ∀ i k, key i S.db = some k → key i S'.db = some k
  kept : ∀ k, NoneSince key k S.commits.length S' → keep k S.db S'.db

section Keyed

variable {key : τ → I.Db → Option κ} {keep : κ → I.Db → I.Db → Prop} {S S₁ S₂ S₃ : Shared I τ}

/-- A change of the store and of what is observed. -/
theorem KeyedSteps.aside (hkeep : ∀ k db, keep k db db) (hc : S₂.commits = S₁.commits) (hdb : S₂.db = S₁.db) :
    KeyedSteps key keep S₁ S₂ :=
  ⟨hc ▸ List.prefix_rfl, fun _ _ => hdb ▸ id, fun k _ => hdb ▸ hkeep k _⟩

theorem KeyedSteps.trans (hkeep : ∀ k a b c, keep k a b → keep k b c → keep k a c) (h : KeyedSteps key keep S₁ S₂)
    (h' : KeyedSteps key keep S₂ S₃) : KeyedSteps key keep S₁ S₃ where
  commits := h.commits.trans h'.commits
  keyed i k hk := h'.keyed i k (h.keyed i k hk)
  kept k hk := by
    obtain ⟨cs₁, hcs₁⟩ := h.commits
    obtain ⟨cs₂, hcs₂⟩ := h'.commits
    rw [NoneSince, ← hcs₂, ← hcs₁, List.append_assoc, List.drop_left] at hk
    have h₂ : keep k S₂.db S₃.db := by
      refine h'.kept k fun i hi => hk i (List.mem_append_right _ ?_)
      rwa [← hcs₂, List.drop_left] at hi
    have h₁ : keep k S₁.db S₂.db := by
      refine h.kept k fun i hi hik => ?_
      rw [← hcs₁, List.drop_left] at hi
      exact hk i (List.mem_append_left _ hi) (h'.keyed i k hik)
    exact hkeep k _ _ _ h₁ h₂

/-- A commit that keeps keys and the parts of other keys. -/
theorem Commits.keyedSteps (hkeep : ∀ k db, keep k db db) {P : Local I → Shared I τ → I.Db → Prop} {i : τ} {a : Act}
    {l : Local I} {S S' : Shared I τ} (h : Commits P i a l S S')
    (hP : ∀ db', P l S db' → (∀ j k, key j S.db = some k → key j db' = some k) ∧
      ∀ k, key i db' ≠ some k → keep k S.db db') : KeyedSteps key keep S S' := by
  by_cases ha : a = .commit
  · obtain ⟨hc, hdb⟩ := h.1 ha
    obtain ⟨hkeys, hparts⟩ := hP _ hdb
    refine ⟨by rw [hc]; exact List.prefix_append _ _, hkeys, fun k hk => hparts k (hk i ?_)⟩
    rw [hc, List.drop_left]
    exact List.mem_cons_self
  · obtain ⟨hc, hdb⟩ := h.2 ha
    exact .aside hkeep hc hdb

end Keyed

end CodeReader.Txn
