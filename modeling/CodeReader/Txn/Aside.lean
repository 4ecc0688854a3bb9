import CodeReader.Txn.Commits

/-!
# Programs that leave the tables aside

A throttle or a reservation only talks to the key-value store: it neither reads nor writes tables, and in the middle of
a transaction it leaves the transaction as it is.

* `Prog.Aside` — only commands of the store, and what the program ends in;
* `Aside.exec` — run alone, it ends as the store says, whatever the tables are;
* `Prog.Spares` — only writes and observations of some kind;
* `Steady.wp_aside`, `Steady.wp_spares` — what the others and each of its statements keep holds where it ends.
-/

namespace CodeReader.Txn

variable {I : Iface} {τ α β : Type}

namespace Prog

/-- Only commands of the key-value store, and every end is in `Q`. -/
def Aside (Q : Except I.Err α → Prop) : Prog I α → Prop
  | ret a => Q (.ok a)
  | throw e => Q (.error e)
  | lock _ _ => False
  | select _ _ _ => False
  | write _ _ => False
  | commit _ => False
  | kv f k => ∀ s, (k (f s).1).Aside Q
  | emit _ _ => False

theorem Aside.bind {Q : Except I.Err α → Prop} {Q' : Except I.Err β → Prop} {p : Prog I α} {g : α → Prog I β}
    (hp : p.Aside Q) (hg : ∀ a, Q (.ok a) → (g a).Aside Q') (herr : ∀ e, Q (.error e) → Q' (.error e)) :
    (p >>= g).Aside Q' := by
  induction p with
  | ret a => exact hg a hp
  | throw e => exact herr e hp
  | lock r k => exact hp.elim
  | select t f k => exact hp.elim
  | write f k => exact hp.elim
  | commit k => exact hp.elim
  | kv f k ih => exact fun s => ih _ (hp s)
  | emit e k => exact hp.elim

/-- Its outcome depends on the store only. -/
theorem Aside.exec {Q : Except I.Err α → Prop} {p : Prog I α} (hp : p.Aside Q) (kv : I.Kv) :
    ∃ r kv', ∀ cur db, p.exec cur ⟨db, kv⟩ = ⟨r, cur, ⟨db, kv'⟩⟩ := by
  induction p generalizing kv with
  | ret a => exact ⟨.ok a, kv, fun _ _ => rfl⟩
  | throw e => exact ⟨.error e, kv, fun _ _ => rfl⟩
  | lock r k => exact hp.elim
  | select t f k => exact hp.elim
  | write f k => exact hp.elim
  | commit k => exact hp.elim
  | kv f k ih => exact ih (f kv).1 (hp kv) (f kv).2
  | emit e k => exact hp.elim

/-- Every write meets `W`, and every observation meets `E`. -/
def Spares (W : (I.Db → I.Db) → Prop) (E : I.Ev → Prop) : Prog I α → Prop
  | ret _ => True
  | throw _ => True
  | lock _ k => k.Spares W E
  | select _ _ k => ∀ b, (k b).Spares W E
  | write f k => W f ∧ k.Spares W E
  | commit k => k.Spares W E
  | kv _ k => ∀ b, (k b).Spares W E
  | emit e k => E e ∧ k.Spares W E

variable {W : (I.Db → I.Db) → Prop} {E : I.Ev → Prop}

theorem Spares.bind {p : Prog I α} {g : α → Prog I β} (hp : p.Spares W E) (hg : ∀ a, (g a).Spares W E) :
    (p >>= g).Spares W E := by
  induction p with
  | ret a => exact hg a
  | throw e => trivial
  | lock r k ih => exact ih hp
  | select t f k ih => exact fun b => ih b (hp b)
  | write f k ih => exact ⟨hp.1, ih hp.2⟩
  | commit k ih => exact ih hp
  | kv f k ih => exact fun b => ih b (hp b)
  | emit e k ih => exact ⟨hp.1, ih hp.2⟩

end Prog

variable {R : Local I → Shared I τ → Shared I τ → Prop} {G : Act → Local I → Shared I τ → Shared I τ → Prop} {i : τ}
  {J : Local I → Shared I τ → Prop} {Q : Except I.Err α → Local I → Shared I τ → Prop} {Q' : Except I.Err α → Prop}

/-- What the others and commands of the store keep. -/
theorem Steady.wp_aside (hJ : Steady R J) (hkv : ∀ l S kv, J l S → G .store l S { S with kv := kv } ∧ J l { S with kv := kv })
    {p : Prog I α} (hp : p.Aside Q') {l : Local I} {S : Shared I τ} (h : J l S) (hQ : ∀ r S, Q' r → J l S → Q r l S) :
    wp R G i Q p l S := by
  induction p generalizing S with
  | ret a => exact hJ.wp_ret h fun S hS => hQ _ S hp hS
  | throw e => exact hJ.wp_throw h fun S hS => hQ _ S hp hS
  | lock r k => exact hp.elim
  | select t f k => exact hp.elim
  | write f k => exact hp.elim
  | commit k => exact hp.elim
  | kv f k ih =>
    refine hJ.wp_kv h fun S hS => ?_
    obtain ⟨hG, hS'⟩ := hkv _ S (f S.kv).2 hS
    exact ⟨hG, ih _ (hp _) hS'⟩
  | emit e k => exact hp.elim

/-- What the others and each of its own statements keep, a program keeps. -/
theorem Steady.wp_spares {W : (I.Db → I.Db) → Prop} {E : I.Ev → Prop} (hJ : Steady R J) (hwrite : ∀ l S f, W f → J l S → J { l with view := f ∘ l.view } S)
    (hcommit : ∀ l S, J l S → G .commit l S { S with db := l.view S.db, commits := S.commits ++ [i] } ∧
      J .idle { S with db := l.view S.db, commits := S.commits ++ [i] })
    (hkv : ∀ l S kv, J l S → G .store l S { S with kv := kv } ∧ J l { S with kv := kv })
    (hemit : ∀ l S e, E e → J l S → G .observe l S { S with trace := S.trace ++ [(i, e)] } ∧
      J l { S with trace := S.trace ++ [(i, e)] })
    {p : Prog I α} (hp : p.Spares W E) {l : Local I} {S : Shared I τ} (h : J l S) :
    wp R G i (fun _ l S => J l S) p l S := by
  induction p generalizing l S with
  | ret a => exact hJ.wp_ret h fun S hS => hS
  | throw e => exact hJ.wp_throw h fun S hS => hS
  | lock r k ih => exact hJ.wp_lock h fun l S hS _ => ih hp hS
  | select t f k ih => exact hJ.wp_select h fun l S hS => ih _ (hp _) hS
  | write f k ih => exact hJ.wp_write h fun S hS => ih hp.2 (hwrite _ S f hp.1 hS)
  | commit k ih => exact hJ.wp_commit h fun S hS => ⟨(hcommit _ S hS).1, ih hp (hcommit _ S hS).2⟩
  | kv f k ih => exact hJ.wp_kv h fun S hS => ⟨(hkv _ S _ hS).1, ih _ (hp _) (hkv _ S _ hS).2⟩
  | emit e k ih => exact hJ.wp_emit h fun S hS => ⟨(hemit _ S e hp.1 hS).1, ih hp.2 (hemit _ S e hp.1 hS).2⟩

end CodeReader.Txn
