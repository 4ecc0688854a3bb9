import CodeReader.Email.SentOnce
import CodeReader.Txn.Sequel

/-!
# Jobs that are triggered

A trigger from outside runs the jobs that it names one after another, each behind a lock that only saves work; the
scheduler of a process runs each of its jobs again and again.

* `runJobs`, `jobLoop` — a trigger, and a job of the scheduler;
* `wp_jobs` — jobs one after another keep to the protocol of the deliveries;
* `triggers_sent_once` — **a delivery is sent once**, whatever the locks answer.
-/

namespace CodeReader.Email

open Txn Prog

/-! ## Triggers and loops -/

/-- What comes of `SET NX EX` on the lock of a job. -/
inductive LockAnswer
  | claimed
  | alreadyRunning
  | unavailable
  deriving DecidableEq

/-- `TRIGGERABLE`. -/
def triggerable : List (String × Kind) := [("reminders", .reminder), ("weekly_recap", .recap)]

/-- `names or list(TRIGGERABLE)`; none where a name is unknown. -/
def selectedJobs : Option (List String) → Option (List Kind)
  | none | some [] => some (triggerable.map (·.2))
  | some names => names.mapM fun name => triggerable.lookup name

section Scripts

variable (settings : SweepSettings)

/-- The jobs whose locks are not taken, one after another, however the one before has ended. -/
def runSelected : List (Kind × LockAnswer) → Script App Answer
  | [] => .stop
  | (_, .alreadyRunning) :: jobs => runSelected jobs
  | (kind, _) :: jobs => ((Task.tick kind).script settings).andThen (runSelected jobs)

/-- `run_jobs`; `answers n` is what the lock of the `n`-th job answers. -/
def runJobs (names : Option (List String)) (answers : Nat → LockAnswer) : Script App Answer :=
  match selectedJobs names with
  | none => .stop
  | some kinds => runSelected settings (kinds.zipIdx.map fun (kind, n) => (kind, answers n))

/-- `_job_loop`, of so many ticks. -/
def jobLoop (kind : Kind) : Nat → Script App Answer
  | 0 => .stop
  | n + 1 => ((Task.tick kind).script settings).andThen (jobLoop kind n)

/-- A tick or a request, a trigger, or a job of the scheduler. -/
inductive Worker
  | task (t : Task)
  | trigger (names : Option (List String)) (answers : Nat → LockAnswer)
  | scheduled (kind : Kind) (ticks : Nat)

def Worker.script : Worker → Script App Answer
  | task t => t.script settings
  | trigger names answers => runJobs settings names answers
  | scheduled kind ticks => jobLoop settings kind ticks

/-- Any number of workers at their start. -/
def Workers.start {τ : Type} (worker : τ → Worker) (db : EmailDb) (kv : Outside) : Scripts App τ Answer :=
  .start db kv fun i => (worker i).script settings

end Scripts

/-! ## Rely and guarantee -/

section Runs

variable {τ : Type} [DecidableEq τ] {settings : SweepSettings} {i : τ} {S : Shared App τ} {key : DeliveryKey}
  {worker : τ → Worker} {db : EmailDb} {kv : Outside}

/-- A tick, and what follows it. -/
theorem wp_tick_andThen (hmax : 1 ≤ settings.maxAttempts) {kind : Kind} {t : Script App Answer}
    (ht : ∀ S, AllSound settings.toLedgerSettings S →
      wpScript (SweepRely settings.toLedgerSettings i) (SweepStep settings.toLedgerSettings i) i t S)
    (hS : AllSound settings.toLedgerSettings S) :
    wpScript (SweepRely settings.toLedgerSettings i) (SweepStep settings.toLedgerSettings i) i
      (((Task.tick kind).script settings).andThen t) S :=
  wpScript_andThen (J := AllSound settings.toLedgerSettings) (fun _ _ _ hJ hR => hR.sound hJ)
    (fun _ _ _ _ hJ hG => hG.sound hmax hJ) ht (wp_tick hmax hS) hS

theorem wp_runSelected (hmax : 1 ≤ settings.maxAttempts) (jobs : List (Kind × LockAnswer)) :
    ∀ S, AllSound settings.toLedgerSettings S →
      wpScript (SweepRely settings.toLedgerSettings i) (SweepStep settings.toLedgerSettings i) i
        (runSelected settings jobs) S := by
  induction jobs with
  | nil => exact fun _ _ => trivial
  | cons job jobs ih =>
    obtain ⟨kind, answer⟩ := job
    cases answer with
    | alreadyRunning => exact ih
    | claimed => exact fun S hS => wp_tick_andThen hmax ih hS
    | unavailable => exact fun S hS => wp_tick_andThen hmax ih hS

theorem wp_jobLoop (hmax : 1 ≤ settings.maxAttempts) (kind : Kind) (ticks : Nat) :
    ∀ S, AllSound settings.toLedgerSettings S →
      wpScript (SweepRely settings.toLedgerSettings i) (SweepStep settings.toLedgerSettings i) i
        (jobLoop settings kind ticks) S := by
  induction ticks with
  | zero => exact fun _ _ => trivial
  | succ n ih => exact fun S hS => wp_tick_andThen hmax ih hS

/-- **A worker** keeps to the protocol. -/
theorem wp_worker (hmax : 1 ≤ settings.maxAttempts) (w : Worker) (hS : AllSound settings.toLedgerSettings S) :
    wpScript (SweepRely settings.toLedgerSettings i) (SweepStep settings.toLedgerSettings i) i (w.script settings) S := by
  cases w with
  | task t =>
    cases t with
    | tick kind => exact wp_tick hmax hS
    | request op => exact wp_request op hS
  | trigger names answers =>
    show wpScript _ _ i (runJobs settings names answers) S
    unfold runJobs
    split
    · trivial
    · exact wp_runSelected hmax _ S hS
  | scheduled kind ticks => exact wp_jobLoop hmax kind ticks S hS

theorem worker_rules (hmax : 1 ≤ settings.maxAttempts) (hdb : db.deliveries = []) :
    Scripts.Rules (fun _ _ => True) (Workers.start settings worker db kv)
      (fun i => SweepRely settings.toLedgerSettings i) fun i => SweepStep settings.toLedgerSettings i where
  refl _ := SweepRely.refl
  trans _ _ _ _ _ := SweepRely.trans
  outside _ _ _ _ _ := ⟨fun _ => .refl _ _ _, id, rfl⟩
  compat s _ _ _ _ hj hG := hG.rely hmax hj (s.localOf_disjoint hj)
  start i := Scripts.good_start (wp_worker hmax (worker i) (allSound_start hdb))

/-! ## Sent once -/

variable {A : τ → Local App → Shared App τ → Prop} {s₀ s s' : Scripts App τ Answer}

/-- Runs of threads that keep to the protocol. -/
abbrev Protocol (settings : LedgerSettings) (s₀ : Scripts App τ Answer) : Prop :=
  Scripts.Rules (fun _ _ => True) s₀ (fun i => SweepRely settings i) fun i => SweepStep settings i

theorem sentOnce_of_protocol (hmax : 1 ≤ settings.maxAttempts) (hr : Protocol settings.toLedgerSettings s₀)
    (hsound : AllSound settings.toLedgerSettings s₀.sys.shared)
    (hfree : ¬ (standing key s₀.sys.shared).Taken)
    (h : Scripts.Reach (fun _ _ => True) A s₀ s) : SentOnce settings.toLedgerSettings key s.sys.shared := by
  have hinv : AllSound settings.toLedgerSettings s.sys.shared ∧
      ((standing key s.sys.shared).Taken → ∃ c, (standing key s.sys.shared).obs.claim = some c) :=
    Scripts.Reach.inv hr (J := fun S => AllSound settings.toLedgerSettings S ∧
      ((standing key S).Taken → ∃ c, (standing key S).obs.claim = some c)) ⟨hsound, fun htaken => absurd htaken hfree⟩
      (fun _ _ _ _ _ _ _ hJ hG => ⟨hG.sound hmax hJ.1, (hG.deliveries key).owned hJ.2⟩) (fun _ _ _ hJ => hJ) h
  exact (hinv.1 key).sentOnce hinv.2

/-- A delivery that is sent or skipped has no more calls. -/
theorem calls_of_settled {row : EmailDelivery} (hr : Protocol settings.toLedgerSettings s₀)
    (h : Scripts.Reach (fun _ _ => True) A s₀ s) (hrow : s.sys.shared.db.delivery key = some row)
    (hsettled : row.status = .sent ∨ row.status = .skipped) (h' : Scripts.Reach (fun _ _ => True) A s s') :
    (observed key s'.sys.shared.trace).calls = (observed key s.sys.shared.trace).calls := by
  have hinv := Scripts.Reach.inv (hr.restart h) (J := fun S => S.db.delivery key = some row ∧
    (observed key S.trace).calls = (observed key s.sys.shared.trace).calls) ⟨hrow, rfl⟩
    (fun s₁ i a S' _ _ _ hJ hG => by
      obtain ⟨hrow', hcalls⟩ := (hG.deliveries key).settled (v := standing key s₁.sys.shared) hJ.1 hsettled
      exact ⟨hrow', hcalls.trans hJ.2⟩) (fun _ _ _ hJ => hJ) h'
  exact hinv.2

/-- **Sent once, whatever triggers it**: in every run of any number of triggers, schedulers, sweeps and requests, with
crashes between any two statements and whatever the locks of the jobs answer, a delivery is sent at most as often as
allowed, by one sweep at a time, with one message and one key; and once it has been sent or skipped, it is not sent any
more. -/
theorem triggers_sent_once (hmax : 1 ≤ settings.maxAttempts) (hdb : db.deliveries = [])
    (h : Scripts.Reach (fun _ _ => True) anyCommit (Workers.start settings worker db kv) s) (key : DeliveryKey) :
    SentOnce settings.toLedgerSettings key s.sys.shared ∧
    ∀ row, s.sys.shared.db.delivery key = some row → row.status = .sent ∨ row.status = .skipped →
      ∀ s', Scripts.Reach (fun _ _ => True) anyCommit s s' →
        (observed key s'.sys.shared.trace).calls = (observed key s.sys.shared.trace).calls := by
  have hr : Protocol settings.toLedgerSettings (Workers.start settings worker db kv) := worker_rules hmax hdb
  have hrow : db.delivery key = none := by
    rw [EmailDb.delivery, hdb]
    rfl
  exact ⟨sentOnce_of_protocol hmax hr (allSound_start hdb) (not_taken_of_none hrow) h,
    fun _ hrow hsettled _ h' => calls_of_settled hr h hrow hsettled h'⟩

end Runs

/-! ### Two triggers at once -/

/-- A trigger that gets the lock, and one to which Redis does not answer. -/
def twoTriggers (i : Bool) : Worker := .trigger none fun _ => if i then .claimed else .unavailable

/-- The second sweeps while the first one is in the middle of its call; the reminder is sent once. -/
theorem triggers_sent_once_overlapping :
    let s := (Workers.start .default twoTriggers oneReader (onMonday 10 .fine)).after anyCommit
      (List.replicate 30 true ++ List.replicate 20 false ++ List.replicate 10 true)
    (observed mondayReminder s.sys.shared.trace).calls.length = 1 ∧
      SentOnce SweepSettings.default.toLedgerSettings mondayReminder s.sys.shared := by
  intro s
  have hreach : Scripts.Reach (fun _ _ => True) anyCommit
      (Workers.start .default twoTriggers oneReader (onMonday 10 .fine)) s := by
    apply Scripts.Reach.after
    decide +kernel
  have hcalls : (observed mondayReminder s.sys.shared.trace).calls.length = 1 := by decide +kernel
  exact ⟨hcalls, (triggers_sent_once (by decide) rfl hreach mondayReminder).1⟩

end CodeReader.Email
