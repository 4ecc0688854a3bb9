import CodeReader.Core.Rows
import CodeReader.Grading.Spec
import CodeReader.Runs.Serial

/-!
# Serial runs of submissions and deferred grading

* `GradingCall`, `GradingRun` — a call of a submission or of the job, and the runs of them;
* `after_submit`, `after_retry` — what each leaves;
* `GradingRun.counted`, `stats_agree` — **the counters are those of the attempts** in every run.
-/

namespace CodeReader.Grading

open Txn Prog

variable {D : Deployment} {cat : Catalog} {rows rows' : GradingRows}

/-! ## Calls -/

inductive GradingOp
  | submit (e : Submitting) (idempotencyKey : String) (payload : AttemptRequest)
  | retry (env : RetryEnv)

/-- A call: what the database draws for it, and what Redis holds when it starts. -/
structure GradingCall where
  tx : Tx
  redis : Redis
  op : GradingOp

namespace GradingCall

def program (D : Deployment) (cat : Catalog) (c : GradingCall) : GradingHandler Unit :=
  match c.op with
  | .submit e key payload => do
    let _ ← submitAttempt D.cfg D.requestHash cat e c.tx key payload
    ret ()
  | .retry env => do
    let _ ← resolvePendingSummarizeGrades D.cfg cat env
    ret ()

/-- The rows after a call: its commits. -/
def after (D : Deployment) (cat : Catalog) (c : GradingCall) (rows : GradingRows) : GradingRows :=
  ((c.program D cat).exec rows ⟨rows, c.redis⟩).store.db

/-- The identity sequence of `attempts` gives a new id. -/
def Fresh (c : GradingCall) (rows : GradingRows) : Prop := ∀ a ∈ rows.user.attempts, a.id ≠ c.tx.attemptId

end GradingCall

instance (c : GradingCall) (rows : GradingRows) : Decidable (c.Fresh rows) :=
  inferInstanceAs (Decidable (∀ a ∈ rows.user.attempts, _))

/-- The runs from `start`. -/
inductive GradingRun (D : Deployment) (cat : Catalog) (start : GradingRows) : List GradingCall → GradingRows → Prop
  | nil : GradingRun D cat start [] start
  | call {calls : List GradingCall} {rows : GradingRows} {c : GradingCall} : GradingRun D cat start calls rows →
      c.Fresh rows → GradingRun D cat start (calls ++ [c]) (c.after D cat rows)

/-! ## What they leave -/

/-- What a submission may leave: its rows, or the rows as they were. -/
def MaySubmit (cat : Catalog) (e : Submitting) (tx : Tx) (payload : AttemptRequest) (rows rows' : GradingRows) : Prop :=
  rows' = rows ∨ ∃ type grade, checked (e.envOf cat payload) payload = some (type, grade) ∧
    Submits (e.envOf cat payload) tx payload type (cat.concepts payload.exerciseId payload.exerciseVersion) grade rows rows'

theorem exec_attemptTransaction (cfg : Settings) (cat : Catalog) (e : Submitting) (tx : Tx) (payload : AttemptRequest)
    (rows : GradingRows) (kv : Redis) :
    MaySubmit cat e tx payload rows ((attemptTransaction cfg cat e tx payload).exec rows ⟨rows, kv⟩).store.db := by
  unfold attemptTransaction
  rcases checkRequest_cases (e.envOf cat payload) payload with ⟨-, err, he, -⟩ | ⟨p, hc, he⟩
  · rw [he]
    exact .inl rfl
  · obtain ⟨type, grade⟩ := p
    rw [he]
    let concepts := cat.concepts payload.exerciseId payload.exerciseVersion
    change MaySubmit cat e tx payload rows
      ((storeAttempt cfg (e.envOf cat payload) tx payload type concepts grade e.output).exec rows ⟨rows, kv⟩).store.db
    have hcounts : (attemptPart cfg (e.envOf cat payload) tx payload type concepts grade e.output).Ensures CounterTbl
        (fun r _ rows' => ∀ a, r = .ok a → Submits (e.envOf cat payload) tx payload type concepts grade rows rows')
        ∅ rows := attemptPart_counts cfg type concepts grade e.output rows
    obtain ⟨hstore, held, hq⟩ := hcounts.exec ⟨rows, kv⟩
    rw [storeAttempt_eq, exec_bind]
    generalize (attemptPart _ _ _ _ _ _ _ _).exec rows ⟨rows, kv⟩ = run at hstore hq ⊢
    obtain ⟨res, cur, store⟩ := run
    dsimp only at hstore hq
    subst hstore
    cases res with
    | error err => exact .inl rfl
    | ok a => exact .inr ⟨type, grade, hc, hq a rfl⟩

theorem exec_waitForCached_user (ns key : String) (n : Nat) (cur : GradingRows) (s : Store GradingApp) :
    ((waitForCached ns key n).lift userPart).exec cur s = ⟨.ok (s.kv.records (idemKey ns key)), cur, s⟩ := by
  induction n with
  | zero => rfl
  | succ n ih =>
    rw [waitForCached, lift_bind, exec_bind, getCached, exec_lift_cmd]
    simp only [andThen]
    cases hr : s.kv.records (idemKey ns key) with
    | none => exact ih.trans (by rw [hr])
    | some r => rfl

theorem exec_replay_user (hash : String) (record : IdempotencyRecord) (cur : GradingRows) (s : Store GradingApp) :
    (((replay hash record).lift userPart).exec cur s).store.db = s.db := by
  unfold replay
  split <;> rfl

theorem exec_buildAndStoreAttempt (cfg : Settings) (cat : Catalog) (e : Submitting) (tx : Tx) (key hash : String)
    (payload : AttemptRequest) (rows : GradingRows) (kv : Redis) :
    MaySubmit cat e tx payload rows
      ((buildAndStoreAttempt cfg cat e tx key payload hash).exec rows ⟨rows, kv⟩).store.db := by
  have h := exec_attemptTransaction cfg cat e tx payload rows kv
  unfold buildAndStoreAttempt
  rw [exec_bind]
  generalize (attemptTransaction cfg cat e tx payload).exec rows ⟨rows, kv⟩ = run at h ⊢
  obtain ⟨res, cur, store⟩ := run
  cases res <;> exact h

/-- A submission leaves its rows, or the rows as they were. -/
theorem after_submit {c : GradingCall} {e : Submitting} {key : String} {payload : AttemptRequest}
    (h : c.op = .submit e key payload) (rows : GradingRows) :
    MaySubmit cat e c.tx payload rows (c.after D cat rows) := by
  have hsub : MaySubmit cat e c.tx payload rows
      ((submitAttempt D.cfg D.requestHash cat e c.tx key payload).exec rows ⟨rows, c.redis⟩).store.db := by
    unfold submitAttempt
    dsimp only
    split
    · exact .inl rfl
    · rw [exec_bind, getCached, exec_lift_cmd]
      simp only [andThen]
      cases c.redis.records (idemKey attemptsNamespace key) with
      | some record => exact .inl (exec_replay_user _ record rows _)
      | none =>
        dsimp only
        rw [exec_bind, acquireReservation, exec_lift_cmd]
        simp only [andThen]
        split
        · rw [exec_andFinally]
          have hb := exec_buildAndStoreAttempt D.cfg cat e c.tx key (D.requestHash payload) payload rows
            { c.redis with
              reservations := Function.update c.redis.reservations (reservationKey attemptsNamespace key) true }
          generalize (buildAndStoreAttempt _ _ _ _ _ _ _).exec rows _ = run at hb ⊢
          obtain ⟨res, cur, store⟩ := run
          cases res <;> exact hb
        · rw [exec_bind, exec_waitForCached_user]
          simp only [andThen]
          split
          · exact .inl (exec_replay_user _ _ rows _)
          · exact exec_buildAndStoreAttempt _ _ _ _ _ _ _ _ _
  simp only [GradingCall.after, GradingCall.program, h]
  rw [exec_bind]
  generalize (submitAttempt _ _ _ _ _ _ _).exec rows _ = run at hsub ⊢
  obtain ⟨res, cur, store⟩ := run
  cases res <;> exact hsub

/-- A run of the job keeps the counters' agreement. -/
theorem after_retry {c : GradingCall} {env : RetryEnv} (h : c.op = .retry env) (hagrees : AllAgree cat rows)
    (hids : (rows.user.attempts.map Attempt.id).Nodup) :
    AllAgree cat (c.after D cat rows) ∧
      (c.after D cat rows).user.attempts.map Attempt.id = rows.user.attempts.map Attempt.id := by
  have hfound : Found cat ((picked env rows).map Prod.fst) rows := by
    refine ⟨hagrees, hids, fun a ha => ?_⟩
    obtain ⟨p, hp, rfl⟩ := List.mem_map.mp ha
    exact ⟨p.1, (mem_picked hp).1, rfl, rfl, rfl⟩
  have hstart : Resolving cat ((picked env rows).map Prod.fst) rows [] ⟨none, []⟩ ∅ rows := .start _ _ _
  have hloop := resolveAttempts_counts D.cfg env (picked env rows) ⟨0, 0, 0⟩ hstart (fun p hp => List.mem_map_of_mem hp)
    (fun p _ hid => nomatch hid) (picked_distinct env rows)
  obtain ⟨hstore, held, resolved, held', hsub, hr⟩ := hloop.exec ⟨rows, c.redis⟩
  have hpending : ∀ id ∈ resolved, PendingRow rows id := by
    intro id hid
    rcases hsub id hid with hold | ⟨p, hp, rfl⟩
    · exact nomatch hold
    · exact ⟨p.1, (mem_picked hp).1, rfl, (mem_picked hp).2⟩
  simp only [GradingCall.after, GradingCall.program, h]
  rw [exec_bind, resolvePendingSummarizeGrades_eq, exec_select, exec_bind]
  generalize (resolveAttempts _ _ _ _ _ _).exec rows _ = run at hstore hr ⊢
  obtain ⟨res, cur, store⟩ := run
  dsimp only at hstore hr
  subst hstore
  cases res with
  | error err => exact ⟨hagrees, rfl⟩
  | ok summary => exact ⟨hr.agrees hfound hpending, hr.ids⟩

theorem type_of_checked {e : Submitting} {payload : AttemptRequest} {type : String} {grade : Grade}
    (h : checked (e.envOf cat payload) payload = some (type, grade)) :
    (cat payload.exerciseId payload.exerciseVersion).map (·.type) = some type := by
  unfold checked Submitting.envOf at h
  split at h
  · cases hc : cat payload.exerciseId payload.exerciseVersion with
    | none => simp [hc] at h
    | some x =>
      rw [hc] at h
      cases hg : e.grading with
      | error message => simp [hg] at h
      | ok g =>
        simp only [hg, Option.map_some, Option.some.injEq, Prod.mk.injEq] at h
        rw [Option.map_some, h.1]
  · cases h

/-! ## The result -/

/-- Every serial run keeps the counters' agreement, and the ids of the attempts apart. -/
theorem GradingRun.counted {start : GradingRows} {calls : List GradingCall} (h : GradingRun D cat start calls rows)
    (hagrees : AllAgree cat start) (hids : (start.user.attempts.map Attempt.id).Nodup) :
    AllAgree cat rows ∧ (rows.user.attempts.map Attempt.id).Nodup := by
  induction h with
  | nil => exact ⟨hagrees, hids⟩
  | @call calls rows c _ hfresh ih =>
    obtain ⟨hagrees, hids⟩ := ih
    cases hop : c.op with
    | submit e key payload =>
      have hsubmit : MaySubmit cat e c.tx payload rows (c.after D cat rows) := after_submit hop rows
      rcases hsubmit with he | ⟨type, grade, hc, hs⟩
      · rw [he]
        exact ⟨hagrees, hids⟩
      · refine ⟨hs.agrees (type_of_checked hc) hagrees, ?_⟩
        rw [hs.attempts]
        exact Rows.nodup_insert hids hfresh
    | retry env =>
      obtain ⟨hagrees', hids'⟩ := after_retry (D := D) hop hagrees hids
      rw [← hids'] at hids
      exact ⟨hagrees', hids⟩

/-- **The counters are those of the attempts** in every serial run of submissions (of any kind of exercise and outcome)
and runs of the job. -/
theorem stats_agree {timezone : String} {calls : List GradingCall}
    (h : GradingRun D cat (.created timezone) calls rows) : AllAgree cat rows :=
  (h.counted .created List.nodup_nil).1

/-! ### A submission that is graded later -/

/-- The calls one after another draw new ids. -/
def runnable (D : Deployment) (cat : Catalog) : GradingRows → List GradingCall → Bool
  | _, [] => true
  | rows, c :: calls => decide (c.Fresh rows) && runnable D cat (c.after D cat rows) calls

theorem GradingRun.of_runnable {start : GradingRows} {before calls : List GradingCall}
    (h : GradingRun D cat start before rows) (hr : runnable D cat rows calls = true) :
    GradingRun D cat start (before ++ calls) (calls.foldl (fun rows c => c.after D cat rows) rows) := by
  induction calls generalizing before rows with
  | nil =>
    rw [List.append_nil]
    exact h
  | cons c calls ih =>
    simp only [runnable, Bool.and_eq_true, decide_eq_true_eq] at hr
    have hstep := ih (h.call hr.1) hr.2
    rw [List.append_assoc] at hstep
    exact hstep

/-- The first row. -/
def Selection.first : Selection 1 where
  pick := List.take 1
  mem _ _ h := List.mem_of_mem_take h
  distinct rows := by
    cases rows with
    | nil => exact List.nodup_nil
    | cons a rows => exact List.nodup_singleton _
  bounded _ := List.length_take_le _ _

def smallCatalog : Catalog := fun id _ =>
  match id with
  | 1 => some ⟨"trace", ["loops"]⟩
  | 2 => some ⟨"summarize", ["loops", "recursion"]⟩
  | _ => some ⟨"trace", ["scope"]⟩

/-- The `n`-th exercise submitted on day 0, with its grade. -/
def smallSubmit (n : Nat) (grade : Grade) : GradingCall :=
  ⟨⟨n, fun k => 100 * n + k, n⟩, ⟨fun _ => none, fun _ => false⟩,
    .submit ⟨⟨false, 0, [⟨n, 1⟩], none, n, 0, ""⟩, .ok grade, ""⟩ (toString n) ⟨n, 1, "", none⟩⟩

/-- A run of the job that has every answer graded as correct. -/
def smallRetry (n : Nat) : GradingCall :=
  ⟨⟨n, fun k => 100 * n + k, n⟩, ⟨fun _ => none, fun _ => false⟩,
    .retry ⟨1, .first, fun _ => .graded true "", fun _ => n⟩⟩

def gradedLater : List GradingCall :=
  [smallSubmit 1 (.deterministic false), smallSubmit 2 .rubricTimeout, smallSubmit 3 .skip, smallRetry 4, smallRetry 5]

/-- A wrong answer, a pending one, and a skip; the job grades the pending one, and finds nothing the second time. -/
theorem stats_agree_gradedLater :
    let D := Deployment.small fun _ => 0
    let rows := gradedLater.foldl (fun rows c => c.after D smallCatalog rows) (.created "UTC")
    GradingRun D smallCatalog (.created "UTC") gradedLater rows ∧ AllAgree smallCatalog rows ∧
      (countersOf rows.user.stats).totalAttempts = 3 ∧ (countersOf rows.user.stats).totalCorrect = 1 ∧
      (conceptRow rows.conceptStates "loops").attempts = 2 := by
  intro D rows
  have hrun : GradingRun D smallCatalog (.created "UTC") gradedLater rows := by
    have hnil : GradingRun D smallCatalog (.created "UTC") [] (.created "UTC") := .nil
    exact hnil.of_runnable (by decide +kernel)
  exact ⟨hrun, stats_agree hrun, by decide +kernel, by decide +kernel, by decide +kernel⟩

end CodeReader.Grading
