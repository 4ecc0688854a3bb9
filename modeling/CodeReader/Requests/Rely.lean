import CodeReader.Requests.Frame
import CodeReader.Requests.System

/-!
# What concurrent requests rely on and guarantee

* `Sound` — the invariant: one computed body for each request, of its attempt, and records only of such bodies;
* `Rely`, `Guarantee` — what the others may do while a request is open, and what a statement of it does; a commit
  whose reads are valid leaves what the transaction leaves alone;
* `Guarantee.rely` — what one guarantees is what the others rely on;
* `Silent`, `Pending`, `Storing` — a request before its body, before its commit, inside its transaction.
-/

namespace CodeReader

open Txn Prog

/-- The requests of a run, what they share, and the records that Redis holds of earlier requests. -/
structure Cast (τ : Type) where
  D : Deployment
  actorHash : String
  req : τ → Request
  old : IdempotencyRecord → Prop

variable {τ : Type} {c : Cast τ} {i j : τ}

/-! ## The invariant -/

/-- The response is of the attempt. -/
structure Answers (r : AttemptResponse) (a : Attempt) : Prop where
  id : r.attemptId = a.id
  status : r.status = a.status
  isCorrect : r.isCorrect = a.isCorrect

/-- The record is an earlier one, or of a request whose body was computed. -/
def Backed (c : Cast τ) (record : IdempotencyRecord) (S : Shared App τ) : Prop :=
  c.old record ∨ ∃ payload j d, record.requestHash = c.D.requestHash payload ∧
    (j, Ev.computed payload.exerciseId d record.body) ∈ S.trace

/-- Bodies are computed once for a request, for its attempt, and records only hold such bodies. -/
structure Sound (c : Cast τ) (S : Shared App τ) : Prop where
  computed : ∀ j x d b, (j, Ev.computed x d b) ∈ S.trace → ∃ a ∈ S.db.attempts, ∃ r, a.exerciseId = x ∧
    a.sessionDate = d ∧ a.id = (c.req j).tx.attemptId ∧ b = .attempt r ∧ Answers r a
  once : ∀ j e e', (j, e) ∈ S.trace → (j, e') ∈ S.trace → e = e'
  records : ∀ key record, S.kv.records (idemKey attemptsNamespace key) = some record → Backed c record S

/-! ## Rely and guarantee -/

/-- What the others do while request `i` knows `l` of its transaction. -/
structure Rely (c : Cast τ) (i : τ) (l : Local App) (S S' : Shared App τ) : Prop where
  sound : Sound c S → Sound c S'
  commits : S.commits.length ≤ S'.commits.length
  uncommitted : i ∈ S'.commits → i ∈ S.commits
  same : S'.commits.length = S.commits.length → S'.db = S.db
  grows : ∀ a ∈ S.db.attempts, a ∈ S'.db.attempts
  locked : ∀ d, Lock.advisory (isoformat d) ∈ l.held → ∀ a ∈ S'.db.attempts, a.sessionDate = d → a ∈ S.db.attempts
  trace : ∀ e ∈ S.trace, e ∈ S'.trace
  own : ∀ e ∈ S'.trace, e.1 = i → e ∈ S.trace

/-- The attempts that a commit publishes: those there are, or a first one of its exercise and day, whose lock is
held. -/
def AddsAttempt (l : Local App) (S S' : Shared App τ) : Prop :=
  S'.db.attempts = S.db.attempts ∨ ∃ a, Lock.advisory (isoformat a.sessionDate) ∈ l.held ∧
    attemptedOn S.db.attempts a.exerciseId a.sessionDate = false ∧ S'.db.attempts = S.db.attempts ++ [a]

/-- The attempts that a commit of the request publishes: a submission its own, a repair none. -/
def Request.Publishes (r : Request) (rows rows' : UserRows) : Prop :=
  match r with
  | .submit env tx _ payload => ∃ type grade, checked env payload = some (type, grade) ∧
      rows'.attempts = rows.attempts ++ [env.attempt tx payload grade]
  | .repair .. => rows'.attempts = rows.attempts

/-- What a statement of request `i` does. -/
structure Guarantee (c : Cast τ) (i : τ) (a : Act) (l : Local App) (S S' : Shared App τ) : Prop where
  sound : Sound c S → Sound c S'
  trace : ∀ e ∈ S.trace, e ∈ S'.trace
  others : ∀ e ∈ S'.trace, e.1 ≠ i → e ∈ S.trace
  attempts : AddsAttempt l S S'
  commit : a = .commit → i ∉ S.commits ∧ S'.commits = S.commits ++ [i] ∧ (c.req i).Publishes S.db S'.db ∧
    (l.Valid StreakTable S → S'.db = (c.req i).alone c.D S.db)
  other : a ≠ .commit → S'.commits = S.commits ∧ S'.db = S.db

theorem Rely.refl (i : τ) (l : Local App) (S : Shared App τ) : Rely c i l S S where
  sound := id
  commits := Nat.le_refl _
  uncommitted := id
  same _ := rfl
  grows _ := id
  locked _ _ _ ha _ := ha
  trace _ := id
  own _ he _ := he

theorem Rely.trans {l : Local App} {S₁ S₂ S₃ : Shared App τ} (h : Rely c i l S₁ S₂)
    (h' : Rely c i l S₂ S₃) : Rely c i l S₁ S₃ where
  sound hs := h'.sound (h.sound hs)
  commits := Nat.le_trans h.commits h'.commits
  uncommitted hi := h.uncommitted (h'.uncommitted hi)
  same he := by
    have h₁ := h.commits
    have h₂ := h'.commits
    rw [h'.same (by omega), h.same (by omega)]
  grows a ha := h'.grows a (h.grows a ha)
  locked d hd a ha he := h.locked d hd a (h'.locked d hd a ha he) he
  trace e he := h'.trace e (h.trace e he)
  own e he hi := h.own e (h'.own e he hi) hi

theorem Sound.expire {S : Shared App τ} {kv : Redis} (h : Sound c S) (he : Expiry S.kv kv) :
    Sound c { S with kv := kv } where
  computed := h.computed
  once := h.once
  records key record hr := by
    rcases he (idemKey attemptsNamespace key) with hn | hs
    · rw [hn] at hr
      cases hr
    · exact h.records key record (hs ▸ hr)

theorem Rely.outside (i : τ) (l : Local App) (S : Shared App τ) (kv : Redis) (h : Expiry S.kv kv) :
    Rely c i l S { S with kv := kv } where
  sound hs := hs.expire h
  commits := Nat.le_refl _
  uncommitted := id
  same _ := rfl
  grows _ := id
  locked _ _ _ ha _ := ha
  trace _ := id
  own _ he _ := he

/-- What one request guarantees is what the others rely on: no two hold the lock of one day. -/
theorem Guarantee.rely {l l' : Local App} {S S' : Shared App τ} {a : Act} (h : Guarantee c i a l S S')
    (hij : j ≠ i) (hheld : ∀ r ∈ l.held, r ∉ l'.held) : Rely c j l' S S' where
  sound := h.sound
  commits := by
    by_cases ha : a = .commit
    · rw [(h.commit ha).2.1, List.length_append]
      omega
    · rw [(h.other ha).1]
  uncommitted hj := by
    by_cases ha : a = .commit
    · rw [(h.commit ha).2.1, List.mem_append, List.mem_singleton] at hj
      rcases hj with hj | hj
      · exact hj
      · exact absurd hj hij
    · rw [(h.other ha).1] at hj
      exact hj
  same he := by
    by_cases ha : a = .commit
    · rw [(h.commit ha).2.1, List.length_append, List.length_singleton] at he
      omega
    · exact (h.other ha).2
  grows a' ha' := by
    rcases h.attempts with he | ⟨b, -, -, he⟩
    · rw [he]
      exact ha'
    · rw [he]
      exact List.mem_append_left _ ha'
  locked d hd a' ha' he := by
    rcases h.attempts with hs | ⟨b, hb, -, hs⟩
    · rw [hs] at ha'
      exact ha'
    · rw [hs, List.mem_append, List.mem_singleton] at ha'
      rcases ha' with ha' | rfl
      · exact ha'
      · rw [he] at hb
        exact absurd hd (hheld _ hb)
  trace := h.trace
  own e he hj := h.others e he fun hi => hij (hj.symm.trans hi)

/-! ## Statements outside the tables -/

theorem Backed.mono {record : IdempotencyRecord} {S S' : Shared App τ} (h : Backed c record S)
    (ht : ∀ e ∈ S.trace, e ∈ S'.trace) : Backed c record S' := by
  rcases h with h | ⟨payload, j, d, hh, hm⟩
  · exact .inl h
  · exact .inr ⟨payload, j, d, hh, ht _ hm⟩

/-- A command of Redis keeps to the guarantee when the records it leaves are backed. -/
theorem Guarantee.store {l : Local App} {S : Shared App τ} {kv : Redis} (h : Sound c S)
    (hkv : ∀ key record, kv.records (idemKey attemptsNamespace key) = some record → Backed c record S) :
    Guarantee c i .store l S { S with kv := kv } where
  sound _ := ⟨h.computed, h.once, hkv⟩
  trace _ := id
  others _ he _ := he
  attempts := .inl rfl
  commit ha := by cases ha
  other _ := ⟨rfl, rfl⟩

theorem Sound.setKv {S : Shared App τ} {kv : Redis} (h : Sound c S)
    (hkv : ∀ key record, kv.records (idemKey attemptsNamespace key) = some record → Backed c record S) :
    Sound c { S with kv := kv } := ⟨h.computed, h.once, hkv⟩

/-- The records of the two routes have different keys. -/
theorem idemKey_ne (key key' : String) :
    idemKey attemptsNamespace key ≠ idemKey streakRepairNamespace key' := by
  intro h
  have hl := congrArg String.toList h
  rw [idemKey_toList, idemKey_toList] at hl
  have ha : attemptsNamespace.toList = 'a' :: "ttempts".toList := by decide
  have hs : streakRepairNamespace.toList = 's' :: "treak_repair".toList := by decide
  rw [ha, hs] at hl
  exact absurd (List.cons.inj (List.append_cancel_left hl)).1 (by decide)

/-! ## A request before its commit -/

/-- A request that has shown nothing yet. -/
structure Silent (c : Cast τ) (i : τ) (S : Shared App τ) : Prop where
  sound : Sound c S
  silent : ∀ e ∈ S.trace, e.1 ≠ i

theorem Silent.rely {l : Local App} {S S' : Shared App τ} (h : Silent c i S) (hr : Rely c i l S S') :
    Silent c i S' where
  sound := hr.sound h.sound
  silent e he hi := h.silent e (hr.own e he hi) hi

/-- A request that has not committed yet either. -/
structure Pending (c : Cast τ) (i : τ) (S : Shared App τ) : Prop extends Silent c i S where
  uncommitted : i ∉ S.commits

theorem Pending.rely {l : Local App} {S S' : Shared App τ} (h : Pending c i S) (hr : Rely c i l S S') :
    Pending c i S' where
  toSilent := h.toSilent.rely hr
  uncommitted hi := h.uncommitted (hr.uncommitted hi)

/-- A request inside its transaction, past the check for an earlier attempt: it will publish the attempts `new`. -/
structure Storing (c : Cast τ) (i : τ) (new : List Attempt) (l : Local App) (S : Shared App τ) : Prop where
  pending : Pending c i S
  view : ∀ rows, (l.view rows).attempts = rows.attempts ++ new
  held : ∀ a ∈ new, Lock.advisory (isoformat a.sessionDate) ∈ l.held
  free : ∀ a ∈ new, attemptedOn S.db.attempts a.exerciseId a.sessionDate = false
  bounded : ∀ r ∈ l.reads, r.since ≤ S.commits.length
  reading : ∃ r ∈ l.reads, StreakTable r.tbl

theorem attemptedOn_eq_false {attempts : List Attempt} {x : ExerciseId} {d : Int} :
    attemptedOn attempts x d = false ↔ ∀ a ∈ attempts, ¬ (a.exerciseId = x ∧ a.sessionDate = d) := by
  rw [attemptedOn, List.any_eq_false]
  simp

/-- With the lock of the day, no attempt of the day appears. -/
theorem attemptedOn_rely {l : Local App} {S S' : Shared App τ} (hr : Rely c i l S S') {x : ExerciseId} {d : Int}
    (hd : Lock.advisory (isoformat d) ∈ l.held) (h : attemptedOn S.db.attempts x d = false) :
    attemptedOn S'.db.attempts x d = false := by
  rw [attemptedOn_eq_false] at h ⊢
  intro a ha hxd
  exact h a (hr.locked d hd a ha hxd.2) hxd

namespace Storing

variable {new : List Attempt} {l : Local App} {S S' : Shared App τ}

theorem rely (h : Storing c i new l S) (hr : Rely c i l S S') : Storing c i new l S' where
  pending := h.pending.rely hr
  view := h.view
  held := h.held
  free a ha := attemptedOn_rely hr (h.held a ha) (h.free a ha)
  bounded r hm := Nat.le_trans (h.bounded r hm) hr.commits
  reading := h.reading

/-- While the reads are valid nothing was committed. -/
theorem valid (h : Storing c i new l S) (hr : Rely c i l S S') (hv : l.Valid StreakTable S') :
    l.Valid StreakTable S ∧ S'.db = S.db := by
  obtain ⟨r, hm, ht⟩ := h.reading
  have hsince := hv r hm ht
  have hle := h.bounded r hm
  have hmono := hr.commits
  have hlen : S'.commits.length = S.commits.length := by omega
  refine ⟨fun r' hm' ht' => ?_, hr.same hlen⟩
  rw [hv r' hm' ht', hlen]

theorem lock (h : Storing c i new l S) (r : Lock) :
    Storing c i new { l with held := insert r l.held } S where
  pending := h.pending
  view := h.view
  held a ha := Set.mem_insert_of_mem _ (h.held a ha)
  free := h.free
  bounded := h.bounded
  reading := h.reading

theorem read (h : Storing c i new l S) (t : Tbl) :
    Storing c i new { l with reads := ⟨t, S.commits.length⟩ :: l.reads } S where
  pending := h.pending
  view := h.view
  held := h.held
  free := h.free
  bounded r hm := by
    rcases List.mem_cons.mp hm with rfl | hm
    · exact Nat.le_refl _
    · exact h.bounded r hm
  reading := by
    obtain ⟨r, hm, ht⟩ := h.reading
    exact ⟨r, List.mem_cons_of_mem _ hm, ht⟩

theorem write (h : Storing c i new l S) {f : UserRows → UserRows} (hf : Extends f) :
    Storing c i new { l with view := f ∘ l.view } S where
  pending := h.pending
  view rows := (hf.attempts _).trans (h.view rows)
  held := h.held
  free := h.free
  bounded := h.bounded
  reading := h.reading

/-- The commit of at most one attempt. -/
theorem commit (h : Storing c i new l S) (hone : new = [] ∨ ∃ a, new = [a])
    (hpublishes : ∀ rows rows' : UserRows, rows'.attempts = rows.attempts ++ new → (c.req i).Publishes rows rows')
    (hserial : l.Valid StreakTable S → l.view S.db = (c.req i).alone c.D S.db) :
    Guarantee c i .commit l S { S with db := l.view S.db, commits := S.commits ++ [i] } := by
  have hattempts : AddsAttempt l S { S with db := l.view S.db, commits := S.commits ++ [i] } := by
    rcases hone with rfl | ⟨a, rfl⟩
    · exact .inl ((h.view S.db).trans (List.append_nil _))
    · exact .inr ⟨a, h.held a (by simp), h.free a (by simp), h.view S.db⟩
  refine ⟨fun hs => ⟨?_, hs.once, hs.records⟩, fun _ => id, fun _ he _ => he, hattempts,
    fun _ => ⟨h.pending.uncommitted, rfl, hpublishes _ _ (h.view S.db), hserial⟩, fun hne => absurd rfl hne⟩
  intro j x d b he
  obtain ⟨a, ha, r, hr⟩ := hs.computed j x d b he
  refine ⟨a, ?_, r, hr⟩
  dsimp only
  rw [h.view]
  exact List.mem_append_left _ ha

end Storing

end CodeReader
