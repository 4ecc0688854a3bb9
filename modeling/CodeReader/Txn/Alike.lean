import CodeReader.Txn.Prog

/-!
# Two programs on two databases

What a program can tell about a part of its tables, as a relation between two runs: `E` relates tables that differ
in that part only.

* `Alike E Q p p'` — the programs take the same statements: what their reads see of related tables decides, up to a
  relation that the rest respects, what they do, and their writes keep tables related;
* `Alike.bind` — sequencing;
* `Alike.exec` — **run alone on related tables, they end alike**: results related by `Q` or the same exception, the
  same key-value store, and related tables.
-/

namespace CodeReader.Txn

variable {I : Iface} {α α' β β' : Type} {E : I.Db → I.Db → Prop} {Q : α → α' → Prop} {R : β → β' → Prop}

/-- The programs cannot tell tables related by `E` apart, and their results are related by `Q`. -/
inductive Alike (E : I.Db → I.Db → Prop) {α α' : Type} (Q : α → α' → Prop) : Prog I α → Prog I α' → Prop
  | ret {a : α} {a' : α'} (h : Q a a') : Alike E Q (.ret a) (.ret a')
  | throw (e : I.Err) : Alike E Q (.throw e) (.throw e)
  | lock (r : I.Lock) {k : Prog I α} {k' : Prog I α'} (hk : Alike E Q k k') : Alike E Q (.lock r k) (.lock r k')
  | select {β β' : Type} (R : β → β' → Prop) (t : I.Tbl) {f : I.Db → β} {f' : I.Db → β'} {k : β → Prog I α}
      {k' : β' → Prog I α'} (hf : ∀ db db', E db db' → R (f db) (f' db'))
      (hk : ∀ b b', R b b' → Alike E Q (k b) (k' b')) : Alike E Q (.select t f k) (.select t f' k')
  | write {f f' : I.Db → I.Db} {k : Prog I α} {k' : Prog I α'} (hf : ∀ db db', E db db' → E (f db) (f' db'))
      (hk : Alike E Q k k') : Alike E Q (.write f k) (.write f' k')
  | commit {k : Prog I α} {k' : Prog I α'} (hk : Alike E Q k k') : Alike E Q (.commit k) (.commit k')
  | kv {β : Type} (f : I.Kv → β × I.Kv) {k : β → Prog I α} {k' : β → Prog I α'}
      (hk : ∀ b, Alike E Q (k b) (k' b)) : Alike E Q (.kv f k) (.kv f k')
  | emit (e : I.Ev) {k : Prog I α} {k' : Prog I α'} (hk : Alike E Q k k') : Alike E Q (.emit e k) (.emit e k')

/-! ### Sequencing -/

theorem Alike.bind {p : Prog I α} {p' : Prog I α'} {g : α → Prog I β} {g' : α' → Prog I β'} (h : Alike E Q p p')
    (hg : ∀ a a', Q a a' → Alike E R (g a) (g' a')) : Alike E R (p >>= g) (p' >>= g') := by
  induction h with
  | ret h => exact hg _ _ h
  | throw e => exact .throw e
  | lock r _ ih => exact .lock r ih
  | select S t hf _ ih => exact .select S t hf ih
  | write hf _ ih => exact .write hf ih
  | commit _ ih => exact .commit ih
  | kv f _ ih => exact .kv f ih
  | emit e _ ih => exact .emit e ih

/-- Sequencing after equal results. -/
theorem Alike.bind_eq {p p' : Prog I α} {g : α → Prog I β} {g' : α → Prog I β'} (h : Alike E Eq p p')
    (hg : ∀ a, Alike E R (g a) (g' a)) : Alike E R (p >>= g) (p' >>= g') := by
  refine h.bind fun a a' ha => ?_
  rw [ha]
  exact hg a'

/-! ### One statement -/

theorem alike_ret (b : β) : Alike E Eq (Prog.ret b) (Prog.ret b) := .ret rfl

theorem alike_raise (e : I.Err) : Alike E R (Prog.raise e) (Prog.raise e) := .throw e

/-- A read that sees the same. -/
theorem alike_query (t : I.Tbl) {f f' : I.Db → β} (h : ∀ db db', E db db' → f db = f' db') :
    Alike E Eq (Prog.query t f) (Prog.query t f') :=
  .select Eq t h fun _ _ hb => .ret hb

theorem alike_update {f f' : I.Db → I.Db} (h : ∀ db db', E db db' → E (f db) (f' db')) :
    Alike E Eq (Prog.update f) (Prog.update f') := .write h (.ret rfl)

theorem alike_lockOn (r : I.Lock) : Alike E Eq (Prog.lockOn r) (Prog.lockOn r) := .lock r (.ret rfl)

theorem alike_commitTx : Alike E Eq (Prog.commitTx : Prog I Unit) Prog.commitTx := .commit (.ret rfl)

theorem alike_cmd (f : I.Kv → β × I.Kv) : Alike E Eq (Prog.cmd f) (Prog.cmd f) := .kv f fun _ => .ret rfl

theorem alike_note (e : I.Ev) : Alike E Eq (Prog.note e) (Prog.note e) := .emit e (.ret rfl)

/-! ### Run alone -/

/-- Results related by `Q`, or one exception. -/
inductive SameOutcome {ε : Type} (Q : α → α' → Prop) : Except ε α → Except ε α' → Prop
  | ok {a : α} {a' : α'} (h : Q a a') : SameOutcome Q (.ok a) (.ok a')
  | error (e : ε) : SameOutcome Q (.error e) (.error e)

theorem SameOutcome.eq {ε : Type} {r r' : Except ε α} (h : SameOutcome Eq r r') : r = r' := by
  cases h with
  | ok h => rw [h]
  | error e => rfl

/-- What the two runs leave. -/
structure SameRun (E : I.Db → I.Db → Prop) (Q : α → α' → Prop) (r : Run I α) (r' : Run I α') : Prop where
  res : SameOutcome Q r.res r'.res
  cur : E r.cur r'.cur
  db : E r.store.db r'.store.db
  kv : r.store.kv = r'.store.kv

/-- **Programs that are alike end alike.** -/
theorem Alike.exec {p : Prog I α} {p' : Prog I α'} (h : Alike E Q p p') {cur cur' : I.Db} {s s' : Store I}
    (hcur : E cur cur') (hdb : E s.db s'.db) (hkv : s.kv = s'.kv) : SameRun E Q (p.exec cur s) (p'.exec cur' s') := by
  induction h generalizing cur cur' s s' with
  | ret h => exact ⟨.ok h, hcur, hdb, hkv⟩
  | throw e => exact ⟨.error e, hcur, hdb, hkv⟩
  | lock r _ ih => exact ih hcur hdb hkv
  | select S t hf _ ih => exact ih _ _ (hf _ _ hcur) hcur hdb hkv
  | write hf _ ih => exact ih (hf _ _ hcur) hdb hkv
  | commit _ ih => exact ih hcur hcur hkv
  | kv f _ ih =>
    rw [Prog.exec_kv, Prog.exec_kv, ← hkv]
    exact ih _ hcur hdb rfl
  | emit e _ ih => exact ih hcur hdb hkv

end CodeReader.Txn
