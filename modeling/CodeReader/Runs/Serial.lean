import CodeReader.Attempts.Spec

/-!
# Serial runs of one user's operations

* `Op`, `Call` — an operation, and a call of it: its instant, what the database draws for it, and what Redis holds
  when it starts (anything: records and reservations come and go between calls);
* `Call.after`, `Call.result` — the rows a call leaves (its commits; a failed call is rolled back) and its outcome;
* `Run` — the runs: instants do not decrease, ids are drawn in increasing order;
* `after_submit`, `after_changeTimezone`, … — what each operation does, as functions of the rows.
-/

namespace CodeReader

open Txn Prog

/-- What all calls share: the settings, the zone database, the hash of a request's body. -/
structure Deployment where
  cfg : Settings
  tz : TzDb
  requestHash : AttemptRequest → String

/-- An operation on a user. -/
inductive Op
  | submit (env : SubmitEnv) (idempotencyKey : String) (payload : AttemptRequest)
  | changeTimezone (name : String)
  | outageFreeze (localDate : Int)
  | grantInitialFreezes (localDate : Int)
  | accrueFreeze (localDate : Int)
  | repair

structure Call where
  time : Int
  eventId : Nat → Nat
  attemptId : Nat
  redis : Redis
  op : Op

namespace Call

def tx (c : Call) : Tx := ⟨c.time, c.eventId, c.attemptId⟩

/-- The environment of a submission made at the instant of the call by a user of the zone `timezone`. -/
def env (D : Deployment) (c : Call) (timezone : String) (e : SubmitEnv) : SubmitEnv :=
  { e with today := localDateFor D.tz timezone c.time, now := c.time }

/-- `accrue_freeze_if_earned` as a transaction of its own, on the stats of the user. -/
def accrueFreeze (cfg : Settings) (tx : Tx) (localDate : Int) : Handler Unit := do
  match ← getUserStats none with
  | none => ret ()
  | some o => do
    let (stats, earned) := accrueFreezeIfEarned cfg o.current localDate
    let _ ← flushUserStats { o with current := stats }
    insertStreakEvents tx earned
    commitTx

/-- The program of a call; a submission has an answer. -/
def program (D : Deployment) (c : Call) : Handler (Option AttemptOutcome) :=
  match c.op with
  | .submit e key payload => do
    let timezone ← query .users fun rows => rows.timezone
    let outcome ← submitAttempt D.cfg D.requestHash (c.env D timezone e) c.tx key payload
    ret (some outcome)
  | .changeTimezone name => do
    updateMe D.tz c.tx (some name) c.time
    ret none
  | .outageFreeze localDate => do
    CodeReader.outageFreeze c.tx localDate
    ret none
  | .grantInitialFreezes localDate => do
    CodeReader.grantInitialFreezes D.cfg c.tx localDate
    ret none
  | .accrueFreeze localDate => do
    accrueFreeze D.cfg c.tx localDate
    ret none
  | .repair => do
    let timezone ← query .users fun rows => rows.timezone
    let _ ← repairStreak D.cfg D.tz c.tx timezone c.time
    commitTx
    ret none

/-- The rows after a call. -/
def after (D : Deployment) (c : Call) (rows : UserRows) : UserRows :=
  ((c.program D).exec rows ⟨rows, c.redis⟩).store.db

/-- The outcome of a call. -/
def result (D : Deployment) (c : Call) (rows : UserRows) : Except Err (Option AttemptOutcome) :=
  ((c.program D).exec rows ⟨rows, c.redis⟩).res

/-- The ids that the call draws are new, and it draws them in increasing order. -/
structure Fresh (c : Call) (rows : UserRows) : Prop where
  increasing : ∀ j k, j < k → c.eventId j < c.eventId k
  events : ∀ e ∈ rows.events, e.id < c.eventId 0
  attempts : ∀ a ∈ rows.attempts, a.id < c.attemptId

end Call

/-- The runs from `start` of calls that meet `P` on the rows they find. -/
inductive Run (D : Deployment) (P : UserRows → Call → Prop) (start : UserRows) : List Call → UserRows → Prop
  | nil : Run D P start [] start
  | call {calls : List Call} {rows : UserRows} {c : Call} : Run D P start calls rows →
      (∀ b ∈ calls, b.time ≤ c.time) → c.Fresh rows → P rows c → Run D P start (calls ++ [c]) (c.after D rows)

theorem Run.mono {D : Deployment} {P Q : UserRows → Call → Prop} {start rows : UserRows} {calls : List Call}
    (hPQ : ∀ rows c, P rows c → Q rows c) (h : Run D P start calls rows) : Run D Q start calls rows := by
  induction h with
  | nil => exact .nil
  | call _ ht hf hp ih => exact .call ih ht hf (hPQ _ _ hp)

/-! ## What the operations do -/

section After

variable {D : Deployment} {c : Call} {rows : UserRows}

theorem after_submit (rows : UserRows) {e : SubmitEnv} {key : String} {payload : AttemptRequest} (h : c.op = .submit e key payload) :
    ∃ res, Submitted D.cfg (c.env D rows.timezone e) c.tx payload rows res (c.after D rows) ∧
      c.result D rows = res.map some := by
  have hx := exec_submitAttempt D.cfg (c.env D rows.timezone e) c.tx payload D.requestHash key rows c.redis
  simp only [Call.after, Call.result, Call.program, h, query_bind, exec_select]
  rw [exec_bind]
  generalize (submitAttempt _ _ _ _ _ _).exec rows _ = run at hx ⊢
  obtain ⟨res, cur, store⟩ := run
  cases res <;> exact ⟨_, hx, rfl⟩

theorem after_changeTimezone {name : String} (h : c.op = .changeTimezone name) :
    c.after D rows = { reconciled c.tx name (localDateFor D.tz name c.time) rows with timezone := name } ∧
      c.result D rows = .ok none := by
  simp only [Call.after, Call.result, Call.program, h, updateMe, query_bind]
  rw [exec_bind, exec_select, exec_bind, exec_reconcile]
  exact ⟨rfl, rfl⟩

theorem after_outageFreeze {d : Int} (h : c.op = .outageFreeze d) :
    c.after D rows = fillOutage c.tx d rows ∧ c.result D rows = .ok none := by
  simp only [Call.after, Call.result, Call.program, h]
  rw [exec_bind, exec_outageFreeze]
  exact ⟨rfl, rfl⟩

theorem after_grantInitialFreezes {d : Int} (h : c.op = .grantInitialFreezes d) :
    c.after D rows = grantFreezes c.tx (min D.cfg.streakFreezeStart D.cfg.streakFreezeMax) d rows ∧
      c.result D rows = .ok none := by
  simp only [Call.after, Call.result, Call.program, h, grantInitialFreezes]
  exact ⟨rfl, rfl⟩

/-- The rows after an accrual. -/
def accruedRows (cfg : Settings) (tx : Tx) (d : Int) (rows : UserRows) : UserRows :=
  match rows.stats with
  | none => rows
  | some st =>
    { rows with
      stats := some (accrueFreezeIfEarned cfg st d).1
      events := rows.events ++ NewEvent.toRows tx (accrueFreezeIfEarned cfg st d).2 }

theorem clashes_accrueFreezeIfEarned (events : List StreakEvent) (cfg : Settings) (st : UserStats) (d : Int) :
    clashes events (accrueFreezeIfEarned cfg st d).2 = false := by
  rcases accrueFreezeIfEarned_cases cfg st d with h | ⟨-, note, h⟩ <;> rw [h] <;> rfl

theorem after_accrueFreeze {d : Int} (h : c.op = .accrueFreeze d) :
    c.after D rows = accruedRows D.cfg c.tx d rows ∧ c.result D rows = .ok none := by
  simp only [Call.after, Call.result, Call.program, h, Call.accrueFreeze, accruedRows]
  rw [exec_bind, exec_bind, exec_getUserStats_none]
  cases hs : rows.stats with
  | none => exact ⟨rfl, rfl⟩
  | some st =>
    simp only [andThen, Option.map_some]
    rw [exec_bind, exec_flushUserStats (o := ⟨st, (accrueFreezeIfEarned D.cfg st d).1⟩) hs]
    simp only [andThen]
    rw [exec_bind, exec_insertStreakEvents]
    simp only [clashes_accrueFreezeIfEarned]
    exact ⟨rfl, rfl⟩

theorem after_repair (rows : UserRows) (h : c.op = .repair) :
    match repairable D.cfg c.time rows with
    | none => c.after D rows = rows ∧ c.result D rows = .error notRepairable
    | some (r, st) => c.after D rows = repairedRows D.cfg D.tz c.tx c.time rows st r ∧ c.result D rows = .ok none := by
  simp only [Call.after, Call.result, Call.program, h, query_bind, exec_select]
  rw [exec_bind, exec_repairStreak]
  cases repairable D.cfg c.time rows with
  | none => exact ⟨rfl, rfl⟩
  | some p => exact ⟨rfl, rfl⟩

end After

/-! ## A small deployment

The runs that the witnesses and counterexamples of later modules go through. -/

/-- A number in unary, before the rest of a text. -/
def unary (n : Nat) (rest : List Char) : List Char := List.replicate n '1' ++ '0' :: rest

theorem unary_inj {n m : Nat} {l l' : List Char} (h : unary n l = unary m l') : n = m ∧ l = l' := by
  induction n generalizing m with
  | zero =>
    cases m with
    | zero => exact ⟨rfl, (List.cons.inj h).2⟩
    | succ m => exact absurd (List.cons.inj h).1 (by decide)
  | succ n ih =>
    cases m with
    | zero => exact absurd (List.cons.inj h).1 (by decide)
    | succ m =>
      obtain ⟨hn, hl⟩ := ih (List.cons.inj h).2
      exact ⟨congrArg (· + 1) hn, hl⟩

/-- The fields of a body one after another: a hash without collisions. -/
def plainHash (payload : AttemptRequest) : String :=
  String.ofList (unary payload.exerciseId (unary payload.exerciseVersion.toNat (unary (-payload.exerciseVersion).toNat
    (unary (if payload.timeTakenMs.isSome then 1 else 0) (unary (payload.timeTakenMs.getD 0).toNat
      (unary (-(payload.timeTakenMs.getD 0)).toNat payload.answer.toList))))))

theorem plainHash_injective : Function.Injective plainHash := by
  intro p p' h
  obtain ⟨x, v, a, t⟩ := p
  obtain ⟨x', v', a', t'⟩ := p'
  obtain ⟨hx, h₁⟩ := unary_inj (String.ofList_injective h)
  obtain ⟨hv, h₂⟩ := unary_inj h₁
  obtain ⟨hv', h₃⟩ := unary_inj h₂
  obtain ⟨hs, h₄⟩ := unary_inj h₃
  obtain ⟨ht, h₅⟩ := unary_inj h₄
  obtain ⟨ht', ha⟩ := unary_inj h₅
  dsimp only at hx hv hv' hs ht ht' ha
  have htime : t = t' := by
    cases t with
    | none =>
      cases t' with
      | none => rfl
      | some n => simp at hs
    | some n =>
      cases t' with
      | none => simp at hs
      | some n' =>
        simp only [Option.getD_some] at ht ht'
        rw [Option.some.injEq]
        omega
  have hversion : v = v' := by omega
  rw [hx, hversion, htime, String.toList_injective ha]

/-- The default settings, with zones of fixed offsets. -/
def Deployment.small (offset : String → Int) : Deployment := ⟨.default, .fixed offset, plainHash⟩

namespace Call

/-- A call that draws its ids from `100 * n` on and finds an empty Redis. -/
def small (n : Nat) (time : Int) (op : Op) : Call := ⟨time, fun k => 100 * n + k, n, ⟨fun _ => none, fun _ => false⟩, op⟩

/-- The `n`-th exercise submitted, and skipped. -/
def smallSubmit (n : Nat) (time : Int) : Call :=
  small n time (.submit ⟨false, 0, [⟨n, 1⟩], some ⟨"trace", .ok .skip⟩, 0, 0, ""⟩ (toString n) ⟨n, 1, "", none⟩)

theorem small_increasing (n : Nat) (time : Int) (op : Op) (j k : Nat) (h : j < k) :
    (small n time op).eventId j < (small n time op).eventId k := Nat.add_lt_add_left h (100 * n)

end Call

/-- The calls one after another can follow those before them: by their instants, and by the ids they draw. -/
def runnable (D : Deployment) : List Call → UserRows → List Call → Bool
  | _, _, [] => true
  | before, rows, c :: calls =>
    before.all (fun b => decide (b.time ≤ c.time)) && rows.events.all (fun e => decide (e.id < c.eventId 0)) &&
      rows.attempts.all (fun a => decide (a.id < c.attemptId)) && runnable D (before ++ [c]) (c.after D rows) calls

theorem Run.of_runnable {D : Deployment} {P : UserRows → Call → Prop} {start rows : UserRows} {before calls : List Call}
    (h : Run D P start before rows) (hc : ∀ c ∈ calls, (∀ j k, j < k → c.eventId j < c.eventId k) ∧ ∀ rows, P rows c)
    (hr : runnable D before rows calls = true) :
    Run D P start (before ++ calls) (calls.foldl (fun rows c => c.after D rows) rows) := by
  induction calls generalizing before rows with
  | nil =>
    rw [List.append_nil]
    exact h
  | cons c calls ih =>
    simp only [runnable, Bool.and_eq_true, List.all_eq_true, decide_eq_true_eq] at hr
    obtain ⟨⟨⟨ht, he⟩, ha⟩, hrest⟩ := hr
    obtain ⟨hinc, hp⟩ := hc c (by simp)
    have hstep := ih (h.call ht ⟨hinc, he, ha⟩ (hp rows)) (fun c' hc' => hc c' (by simp [hc'])) hrest
    rw [List.append_assoc] at hstep
    exact hstep

end CodeReader
