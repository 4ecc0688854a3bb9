import Mathlib.Logic.Function.Basic
import Mathlib.Tactic.Common

/-!
# Programs of statements

A request handler as its database and its key-value store see it: a sequence of statements, each of
them atomic, with the computation between two statements done in Lean.

* `Iface` — the types a program talks to: the tables, the key-value store outside transactions, the
  locks that a transaction holds to its end, the names of the tables a read mentions, what is
  observed of a run, and the exceptions;
* `Prog I α` — the programs; `lock`, `select` and `write` belong to the open transaction, `commit` ends it
  and the next statement opens a new one;
* `Prog.exec` — a program run alone, nothing coming between its statements.

A transaction reads the committed tables through its own writes: the state of an open transaction is the
function `view` that applies its writes so far (READ COMMITTED: every statement sees what is committed
when it starts).
-/

namespace CodeReader.Txn

/-- The types a program talks to. -/
structure Iface where
  Db : Type
  Kv : Type
  Lock : Type
  Tbl : Type
  Ev : Type
  Err : Type

/-- Programs of statements with results in `α`. -/
inductive Prog (I : Iface) (α : Type) : Type 1
  | ret (a : α)
  | throw (e : I.Err)
  /-- Take a lock that the transaction keeps to its end. -/
  | lock (r : I.Lock) (k : Prog I α)
  /-- Read the tables, as the open transaction sees them. -/
  | select {β : Type} (t : I.Tbl) (f : I.Db → β) (k : β → Prog I α)
  /-- Write to the tables inside the open transaction. -/
  | write (f : I.Db → I.Db) (k : Prog I α)
  | commit (k : Prog I α)
  /-- One atomic command of the key-value store, which no transaction covers. -/
  | kv {β : Type} (f : I.Kv → β × I.Kv) (k : β → Prog I α)
  /-- Something an observer of the run sees. -/
  | emit (e : I.Ev) (k : Prog I α)

variable {I : Iface} {α β γ : Type}

namespace Prog

def bind : Prog I α → (α → Prog I β) → Prog I β
  | ret a, g => g a
  | throw e, _ => throw e
  | lock r k, g => lock r (k.bind g)
  | select t f k, g => select t f fun b => (k b).bind g
  | write f k, g => write f (k.bind g)
  | commit k, g => commit (k.bind g)
  | kv f k, g => kv f fun b => (k b).bind g
  | emit e k, g => emit e (k.bind g)

instance : Monad (Prog I) where
  pure := ret
  bind := bind

/-- `try p finally fin`: `fin` runs after `p`, whether `p` returns or throws. -/
def andFinally : Prog I α → Prog I Unit → Prog I α
  | ret a, fin => fin.bind fun _ => ret a
  | throw e, fin => fin.bind fun _ => throw e
  | lock r k, fin => lock r (k.andFinally fin)
  | select t f k, fin => select t f fun b => (k b).andFinally fin
  | write f k, fin => write f (k.andFinally fin)
  | commit k, fin => commit (k.andFinally fin)
  | kv f k, fin => kv f fun b => (k b).andFinally fin
  | emit e k, fin => emit e (k.andFinally fin)

/-! ### One statement as a program -/

def raise (e : I.Err) : Prog I α := throw e
def lockOn (r : I.Lock) : Prog I Unit := lock r (ret ())
def query (t : I.Tbl) (f : I.Db → β) : Prog I β := select t f ret
def update (f : I.Db → I.Db) : Prog I Unit := write f (ret ())
def commitTx : Prog I Unit := commit (ret ())
def cmd (f : I.Kv → β × I.Kv) : Prog I β := kv f ret
def note (e : I.Ev) : Prog I Unit := emit e (ret ())

/-! ### Sequencing computes -/

@[simp] theorem pure_eq (a : α) : (pure a : Prog I α) = ret a := rfl
@[simp] theorem ret_bind (a : α) (g : α → Prog I β) : (ret a : Prog I α) >>= g = g a := rfl
@[simp] theorem raise_bind (e : I.Err) (g : α → Prog I β) : (raise e : Prog I α) >>= g = raise e := rfl
@[simp] theorem throw_bind (e : I.Err) (g : α → Prog I β) : (throw e : Prog I α) >>= g = throw e := rfl
@[simp] theorem lockOn_bind (r : I.Lock) (g : Unit → Prog I β) : lockOn r >>= g = lock r (g ()) := rfl
@[simp] theorem query_bind (t : I.Tbl) (f : I.Db → β) (g : β → Prog I γ) : query t f >>= g = select t f g := rfl
@[simp] theorem update_bind (f : I.Db → I.Db) (g : Unit → Prog I β) : update f >>= g = write f (g ()) := rfl
@[simp] theorem commitTx_bind (g : Unit → Prog I β) : (commitTx : Prog I Unit) >>= g = commit (g ()) := rfl
@[simp] theorem cmd_bind (f : I.Kv → β × I.Kv) (g : β → Prog I γ) : cmd f >>= g = kv f g := rfl
@[simp] theorem note_bind (e : I.Ev) (g : Unit → Prog I β) : note e >>= g = emit e (g ()) := rfl

@[simp] theorem lock_bind (r : I.Lock) (k : Prog I α) (g : α → Prog I β) :
    lock r k >>= g = lock r (k >>= g) := rfl
@[simp] theorem select_bind {δ : Type} (t : I.Tbl) (f : I.Db → δ) (k : δ → Prog I α) (g : α → Prog I β) :
    select t f k >>= g = select t f fun b => k b >>= g := rfl
@[simp] theorem write_bind (f : I.Db → I.Db) (k : Prog I α) (g : α → Prog I β) :
    write f k >>= g = write f (k >>= g) := rfl
@[simp] theorem commit_bind (k : Prog I α) (g : α → Prog I β) : commit k >>= g = commit (k >>= g) := rfl
@[simp] theorem kv_bind {δ : Type} (f : I.Kv → δ × I.Kv) (k : δ → Prog I α) (g : α → Prog I β) :
    kv f k >>= g = kv f fun b => k b >>= g := rfl
@[simp] theorem emit_bind (e : I.Ev) (k : Prog I α) (g : α → Prog I β) :
    emit e k >>= g = emit e (k >>= g) := rfl

theorem bind_assoc (p : Prog I α) (g : α → Prog I β) (h : β → Prog I γ) :
    p >>= g >>= h = p >>= fun a => g a >>= h := by
  induction p with
  | ret a => rfl
  | throw e => rfl
  | lock r k ih => simp [ih]
  | select t f k ih => simp [ih]
  | write f k ih => simp [ih]
  | commit k ih => simp [ih]
  | kv f k ih => simp [ih]
  | emit e k ih => simp [ih]

end Prog

/-! ## A program run alone -/

/-- The committed tables and the key-value store. -/
structure Store (I : Iface) where
  db : I.Db
  kv : I.Kv

/-- What a program run alone leaves: its result, the tables as its open transaction sees them, and the store. -/
structure Run (I : Iface) (α : Type) where
  res : Except I.Err α
  cur : I.Db
  store : Store I

namespace Prog

/-- The program run alone, from the tables `cur` of its open transaction. -/
def exec : Prog I α → I.Db → Store I → Run I α
  | ret a, cur, s => ⟨.ok a, cur, s⟩
  | throw e, cur, s => ⟨.error e, cur, s⟩
  | lock _ k, cur, s => k.exec cur s
  | select _ f k, cur, s => (k (f cur)).exec cur s
  | write f k, cur, s => k.exec (f cur) s
  | commit k, cur, s => k.exec cur { s with db := cur }
  | kv f k, cur, s => (k (f s.kv).1).exec cur { s with kv := (f s.kv).2 }
  | emit _ k, cur, s => k.exec cur s

section Exec

variable (cur : I.Db) (s : Store I)

@[simp] theorem exec_ret (a : α) : (ret a : Prog I α).exec cur s = ⟨.ok a, cur, s⟩ := rfl
@[simp] theorem exec_raise (e : I.Err) : (raise e : Prog I α).exec cur s = ⟨.error e, cur, s⟩ := rfl
@[simp] theorem exec_throw (e : I.Err) : (throw e : Prog I α).exec cur s = ⟨.error e, cur, s⟩ := rfl
@[simp] theorem exec_lock (r : I.Lock) (k : Prog I α) : (lock r k).exec cur s = k.exec cur s := rfl
@[simp] theorem exec_select {δ : Type} (t : I.Tbl) (f : I.Db → δ) (k : δ → Prog I α) :
    (select t f k).exec cur s = (k (f cur)).exec cur s := rfl
@[simp] theorem exec_write (f : I.Db → I.Db) (k : Prog I α) : (write f k).exec cur s = k.exec (f cur) s := rfl
@[simp] theorem exec_commit (k : Prog I α) : (commit k).exec cur s = k.exec cur { s with db := cur } := rfl
@[simp] theorem exec_kv {δ : Type} (f : I.Kv → δ × I.Kv) (k : δ → Prog I α) :
    (kv f k).exec cur s = (k (f s.kv).1).exec cur { s with kv := (f s.kv).2 } := rfl
@[simp] theorem exec_emit (e : I.Ev) (k : Prog I α) : (emit e k).exec cur s = k.exec cur s := rfl

end Exec

/-- What follows a result, run alone. -/
def andThen (r : Run I α) (g : α → Prog I β) : Run I β :=
  match r.res with
  | .ok a => (g a).exec r.cur r.store
  | .error e => ⟨.error e, r.cur, r.store⟩

/-- Running `p` and then what its result asks for. -/
theorem exec_bind (p : Prog I α) (g : α → Prog I β) (cur : I.Db) (s : Store I) :
    (p >>= g).exec cur s = andThen (p.exec cur s) g := by
  induction p generalizing cur s with
  | ret a => rfl
  | throw e => rfl
  | lock r k ih => exact ih cur s
  | select t f k ih => exact ih _ cur s
  | write f k ih => exact ih _ s
  | commit k ih => exact ih _ _
  | kv f k ih => exact ih _ cur _
  | emit e k ih => exact ih cur s

/-- The program's finalizer runs after it, and its result stays. -/
theorem exec_andFinally (p : Prog I α) (fin : Prog I Unit) (cur : I.Db) (s : Store I) :
    (p.andFinally fin).exec cur s =
      ((fin >>= fun _ => match (p.exec cur s).res with
        | .ok a => ret a
        | .error e => throw e).exec (p.exec cur s).cur (p.exec cur s).store) := by
  induction p generalizing cur s with
  | ret a => rfl
  | throw e => rfl
  | lock r k ih => exact ih cur s
  | select t f k ih => exact ih _ cur s
  | write f k ih => exact ih _ s
  | commit k ih => exact ih _ _
  | kv f k ih => exact ih _ cur _
  | emit e k ih => exact ih cur s

end Prog

end CodeReader.Txn
