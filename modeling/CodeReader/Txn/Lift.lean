import CodeReader.Txn.Transaction

/-!
# Programs over a part of the tables

A model of some tables, and of a larger database that these are a part of.

* `Iface.over` — the interface with other tables and locks, the same store;
* `Part` — how the smaller tables lie in the larger ones;
* `Prog.lift` — a program of the smaller interface as one of the larger;
* `exec_lift` — run alone, it does to its part what it did, and nothing else.
-/

namespace CodeReader.Txn

variable {I : Iface} {D L T α β : Type}

/-- The interface with other tables and locks. -/
abbrev Iface.over (I : Iface) (D L T : Type) : Iface := { I with Db := D, Lock := L, Tbl := T }

/-- The tables of `I` as a part of `D`. -/
structure Part (I : Iface) (D L T : Type) where
  get : D → I.Db
  set : I.Db → D → D
  lock : I.Lock → L
  tbl : I.Tbl → T
  get_set : ∀ a d, get (set a d) = a
  set_set : ∀ a b d, set b (set a d) = set b d
  set_get : ∀ d, set (get d) d = d

/-- A write of the part. -/
def Part.modify (P : Part I D L T) (f : I.Db → I.Db) (d : D) : D := P.set (f (P.get d)) d

namespace Prog

def lift (P : Part I D L T) : Prog I α → Prog (I.over D L T) α
  | ret a => .ret a
  | throw e => .throw e
  | lock r k => .lock (P.lock r) (k.lift P)
  | select t f k => .select (P.tbl t) (fun d => f (P.get d)) fun b => (k b).lift P
  | write f k => .write (P.modify f) (k.lift P)
  | commit k => .commit (k.lift P)
  | kv f k => .kv f fun b => (k b).lift P
  | emit e k => .emit e (k.lift P)

variable {P : Part I D L T}

theorem lift_bind (p : Prog I α) (g : α → Prog I β) : (p >>= g).lift P = p.lift P >>= fun a => (g a).lift P := by
  induction p with
  | ret a => rfl
  | throw e => rfl
  | lock r k ih => exact congrArg (lock (P.lock r)) ih
  | select t f k ih => exact congrArg (select (P.tbl t) _) (funext ih)
  | write f k ih => exact congrArg (write (P.modify f)) ih
  | commit k ih => exact congrArg commit ih
  | kv f k ih => exact congrArg (kv (I := I.over D L T) f) (funext ih)
  | emit e k ih => exact congrArg (emit (I := I.over D L T) e) ih

/-- A lifted part of a transaction writes only its part of the tables. -/
theorem Within.lift {K : (I.Db → I.Db) → Prop} {K' : (D → D) → Prop} (hK : ∀ f, K f → K' (P.modify f))
    {p : Prog I α} (hp : p.Within K) : (p.lift P).Within K' := by
  induction p with
  | ret a => trivial
  | throw e => trivial
  | lock r k ih => exact ih hp
  | select t f k ih => exact fun b => ih b (hp b)
  | write f k ih => exact ⟨hK f hp.1, ih hp.2⟩
  | commit k => exact hp.elim
  | kv f k => exact hp.elim
  | emit e k => exact hp.elim

/-- **The lifted program run alone** does what the program does, on its part of the tables. -/
theorem exec_lift {K : (I.Db → I.Db) → Prop} {p : Prog I α} (hp : p.Within K) (cur : D) (s : Store (I.over D L T)) :
    (p.lift P).exec cur s =
      let r := p.exec (P.get cur) ⟨P.get s.db, s.kv⟩
      ⟨r.res, P.set r.cur cur, s⟩ := by
  induction p generalizing cur with
  | ret a => simp only [lift, exec_ret, P.set_get]
  | throw e => simp only [lift, exec_throw, P.set_get]
  | lock r k ih => exact ih hp cur
  | select t f k ih => exact ih _ (hp _) cur
  | write f k ih =>
    rw [lift, exec_write, ih hp.2]
    simp only [Part.modify, P.get_set, P.set_set, exec_write]
  | commit k => exact hp.elim
  | kv f k => exact hp.elim
  | emit e k => exact hp.elim

/-- A lifted command of the store. -/
theorem exec_lift_cmd {f : I.Kv → β × I.Kv} (cur : D) (s : Store (I.over D L T)) :
    ((cmd f : Prog I β).lift P).exec cur s = ⟨.ok (f s.kv).1, cur, { s with kv := (f s.kv).2 }⟩ := rfl

end Prog

end CodeReader.Txn
