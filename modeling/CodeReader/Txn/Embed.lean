import CodeReader.Txn.Transaction

/-!
# Programs inside a larger interface

A program over some tables and keys, run where there are more of them, with other locks, observations and exceptions.

* `Embed` — how one interface lies in another;
* `Prog.embed` — a program of the smaller as one of the larger;
* `Within.embed`, `exec_embed` — it does to its part what it did, and nothing else.
-/

namespace CodeReader.Txn

variable {I J : Iface} {α β : Type}

/-- The interface `I` as a part of `J`. -/
structure Embed (I J : Iface) where
  get : J.Db → I.Db
  set : I.Db → J.Db → J.Db
  getKv : J.Kv → I.Kv
  setKv : I.Kv → J.Kv → J.Kv
  lock : I.Lock → J.Lock
  tbl : I.Tbl → J.Tbl
  ev : I.Ev → J.Ev
  err : I.Err → J.Err
  get_set : ∀ a d, get (set a d) = a
  set_set : ∀ a b d, set b (set a d) = set b d
  set_get : ∀ d, set (get d) d = d
  getKv_setKv : ∀ a d, getKv (setKv a d) = a
  setKv_setKv : ∀ a b d, setKv b (setKv a d) = setKv b d
  setKv_getKv : ∀ d, setKv (getKv d) d = d

/-- A write of the part. -/
def Embed.modify (E : Embed I J) (f : I.Db → I.Db) (d : J.Db) : J.Db := E.set (f (E.get d)) d

namespace Prog

def embed (E : Embed I J) : Prog I α → Prog J α
  | ret a => .ret a
  | throw e => .throw (E.err e)
  | lock r k => .lock (E.lock r) (k.embed E)
  | select t f k => .select (E.tbl t) (fun d => f (E.get d)) fun b => (k b).embed E
  | write f k => .write (E.modify f) (k.embed E)
  | commit k => .commit (k.embed E)
  | kv f k => .kv (fun r => ((f (E.getKv r)).1, E.setKv (f (E.getKv r)).2 r)) fun b => (k b).embed E
  | emit e k => .emit (E.ev e) (k.embed E)

variable {E : Embed I J}

theorem embed_bind (p : Prog I α) (g : α → Prog I β) : (p >>= g).embed E = p.embed E >>= fun a => (g a).embed E := by
  induction p with
  | ret a => rfl
  | throw e => rfl
  | lock r k ih => exact congrArg (lock (E.lock r)) ih
  | select t f k ih => exact congrArg (select (E.tbl t) _) (funext ih)
  | write f k ih => exact congrArg (write (E.modify f)) ih
  | commit k ih => exact congrArg commit ih
  | kv f k ih => exact congrArg (kv (I := J) _) (funext ih)
  | emit e k ih => exact congrArg (emit (E.ev e)) ih

/-- An embedded part of a transaction writes only its part of the tables. -/
theorem Within.embed {K : (I.Db → I.Db) → Prop} {K' : (J.Db → J.Db) → Prop} (hK : ∀ f, K f → K' (E.modify f))
    {p : Prog I α} (hp : p.Within K) : (p.embed E).Within K' := by
  induction p with
  | ret a => trivial
  | throw e => trivial
  | lock r k ih => exact ih hp
  | select t f k ih => exact fun b => ih b (hp b)
  | write f k ih => exact ⟨hK f hp.1, ih hp.2⟩
  | commit k => exact hp.elim
  | kv f k => exact hp.elim
  | emit e k => exact hp.elim

/-- **The embedded program run alone** does what the program does on its part, from tables that are committed outside
that part. -/
theorem exec_embed (p : Prog I α) (cur : J.Db) (s : Store J) (hcur : ∀ a, E.set a cur = E.set a s.db) :
    (p.embed E).exec cur s =
      let r := p.exec (E.get cur) ⟨E.get s.db, E.getKv s.kv⟩
      ⟨r.res.mapError E.err, E.set r.cur cur, E.set r.store.db s.db, E.setKv r.store.kv s.kv⟩ := by
  induction p generalizing cur s with
  | ret a => simp [embed, Except.mapError, E.set_get, E.setKv_getKv]
  | throw e => simp [embed, Except.mapError, E.set_get, E.setKv_getKv]
  | lock r k ih => exact ih cur s hcur
  | select t f k ih => exact ih _ cur s hcur
  | write f k ih =>
    have hcur' : ∀ a, E.set a (E.modify f cur) = E.set a s.db := fun a => by rw [Embed.modify, E.set_set, hcur]
    rw [embed, exec_write, ih _ _ hcur']
    simp only [Embed.modify, E.get_set, E.set_set, exec_write]
  | commit k ih =>
    rw [embed, exec_commit, ih cur { s with db := cur } fun a => rfl]
    simp only [hcur, exec_commit]
  | kv f k ih =>
    have hk := ih (f (E.getKv s.kv)).1 cur { s with kv := E.setKv (f (E.getKv s.kv)).2 s.kv } hcur
    simp only [E.getKv_setKv, E.setKv_setKv] at hk
    exact hk
  | emit e k ih => exact ih cur s hcur

end Prog

end CodeReader.Txn
