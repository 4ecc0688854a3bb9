import CodeReader.Grading.Serial

/-!
# Submissions and jobs at once

The job holds no lock that a submission waits for before it reads the counters, and two jobs may read the same
pending attempt.

* `Worker`, `Workers.start` — submissions of one user and runs of the job, any number of them, at any statement;
* `CurrentCounters`, `StillPending` — a commit whose counters are as they were read, and whose updated attempts are
  pending;
* `deferred_grading_agrees` — **the counters are those of the attempts** when every commit is such;
* `deferred_grading_twice`, `deferred_grading_lost` — an attempt counted twice, and a submission's verdict lost.
-/

namespace CodeReader.Grading

open Txn Prog

variable {τ : Type} {D : Deployment} {cat : Catalog}

/-! ## The system -/

/-- The transaction of a submission, or a run of the job. -/
inductive Worker
  | submit (e : Submitting) (tx : Tx) (payload : AttemptRequest)
  | retry (env : RetryEnv)

def Worker.program (D : Deployment) (cat : Catalog) : Worker → GradingHandler Unit
  | .submit e tx payload => do
    let _ ← attemptTransaction D.cfg cat e tx payload
    ret ()
  | .retry env => do
    let _ ← resolvePendingSummarizeGrades D.cfg cat env
    ret ()

/-- The id that a submission's attempt gets. -/
def Worker.attemptId : Worker → Option Nat
  | .submit _ tx _ => some tx.attemptId
  | .retry _ => none

/-- The workers at their start. -/
def Workers.start (D : Deployment) (cat : Catalog) (worker : τ → Worker) (rows : GradingRows) (kv : Redis) :
    Sys GradingApp τ Unit := .start rows kv fun i => (worker i).program D cat

/-- The identity sequence of `attempts` gives every submission an id of its own. -/
structure NewIds (worker : τ → Worker) (rows : GradingRows) : Prop where
  new : ∀ i id, (worker i).attemptId = some id → ∀ a ∈ rows.user.attempts, a.id ≠ id
  distinct : ∀ i j id, (worker i).attemptId = some id → (worker j).attemptId = some id → i = j

/-- Nothing was committed since the transaction read the stats or a concept state. -/
abbrev CurrentCounters (l : Local GradingApp) (S : Shared GradingApp τ) : Prop := l.Valid CounterTbl S

/-- The attempts that the transaction has updated are pending in the committed tables. -/
def StillPending (l : Local GradingApp) (S : Shared GradingApp τ) : Prop :=
  ∀ id, .attemptRow id ∈ l.held → PendingRow S.db id

/-! ## Attempts stay -/

/-- Every attempt is still there. -/
def Grows (rows rows' : GradingRows) : Prop :=
  ∀ a ∈ rows.user.attempts, ∃ a' ∈ rows'.user.attempts, SameAttempt a a'

theorem Grows.of_eq {rows rows' : GradingRows} (h : rows'.user.attempts = rows.user.attempts) : Grows rows rows' := by
  intro a ha
  rw [← h] at ha
  exact ⟨a, ha, rfl, rfl, rfl⟩

theorem Grows.trans {rows₁ rows₂ rows₃ : GradingRows} (h : Grows rows₁ rows₂) (h' : Grows rows₂ rows₃) :
    Grows rows₁ rows₃ := by
  intro a ha
  obtain ⟨a', ha', h₁, h₂, h₃⟩ := h a ha
  obtain ⟨a'', ha'', h₁', h₂', h₃'⟩ := h' a' ha'
  exact ⟨a'', ha'', h₁'.trans h₁, h₂'.trans h₂, h₃'.trans h₃⟩

/-- A write after which every attempt is still there. -/
def Growing (f : GradingRows → GradingRows) : Prop := ∀ rows, Grows rows (f rows)

theorem submitWrites_growing : SubmitWrites Growing where
  stats _ _ := .of_eq rfl
  completed _ _ _ := .of_eq rfl
  events _ _ := .of_eq rfl
  concepts _ _ := .of_eq rfl
  attempt _ _ _ a ha := ⟨a, List.mem_append_left _ ha, rfl, rfl, rfl⟩

theorem within_updateHeldStats {K : (UserRows → UserRows) → Prop} (hK : AsideWrites K) (cfg : Settings)
    (held : Option StatsObject) (type : String) (isCorrect : Bool) :
    (updateHeldStats cfg held type isCorrect).Within K :=
  Within.bind (within_getOrCreateUserStats hK cfg held) fun _ => within_flushUserStats hK _

theorem within_resolveAttempts (cfg : Settings) (env : RetryEnv) (rest : List (Attempt × Option GraderOutput))
    (held : RetrySession) (summary : RetrySummary) : (resolveAttempts cfg cat env held summary rest).Within Growing := by
  have hupdate : ∀ (id : Nat) (values : Attempt → Attempt) (output : Option GraderOutput),
      (∀ a, SameAttempt a (values a)) → (updateAttempt id values output).Within Growing := by
    intro id values output hsame
    refine ⟨fun rows a ha => ⟨if a.id = id then values a else a, List.mem_map.mpr ⟨a, ha, rfl⟩, ?_⟩, trivial⟩
    split
    · exact hsame a
    · exact ⟨rfl, rfl, rfl⟩
  induction rest generalizing held summary with
  | nil => trivial
  | cons p rest ih =>
    refine Within.bind ?_ fun q => ih _ _
    unfold resolveAttempt
    split
    · trivial
    · split
      · exact Within.bind (hupdate _ _ _ fun a => ⟨rfl, rfl, rfl⟩) fun _ => trivial
      · dsimp only
        split
        · exact Within.bind (hupdate _ _ _ fun a => ⟨rfl, rfl, rfl⟩) fun _ => trivial
        · exact Within.bind (hupdate _ _ _ fun a => ⟨rfl, rfl, rfl⟩) fun _ => trivial
      · refine Within.bind (hupdate _ _ _ fun a => ⟨rfl, rfl, rfl⟩) fun _ => ?_
        exact Within.bind (within_updateConceptState submitWrites_growing.concepts ..) fun _ => Within.bind
          (Within.lift (fun _ hf => hf) (within_updateHeldStats submitWrites_growing.toAsideWrites ..)) fun _ => trivial

/-! ## The rules -/

/-- What a commit does, when its counters are current: it counts its attempt, or the attempts that it updated. -/
def Counts (cat : Catalog) (w : Worker) (l : Local GradingApp) (S : Shared GradingApp τ) (rows' : GradingRows) : Prop :=
  CurrentCounters l S → match w with
  | .submit e tx payload => ∃ type grade, checked (e.envOf cat payload) payload = some (type, grade) ∧
      Submits (e.envOf cat payload) tx payload type (cat.concepts payload.exerciseId payload.exerciseVersion) grade S.db
        rows'
  | .retry _ => ∃ picked resolved held, (∀ a ∈ picked, ∃ a' ∈ S.db.user.attempts, SameAttempt a a') ∧
      Resolving cat picked S.db resolved held l.held rows'

section Wp

variable {i : τ} {S : Shared GradingApp τ}

/-- What a transaction has before its commit: no commit, and writes after which every attempt is still there. -/
structure Open (i : τ) (picked : List Attempt) (l : Local GradingApp) (S : Shared GradingApp τ) : Prop where
  first : i ∉ S.commits
  growing : Growing l.view
  picked : ∀ a ∈ picked, ∃ a' ∈ S.db.user.attempts, SameAttempt a a'

theorem Open.others {picked : List Attempt} {l : Local GradingApp} {S S' : Shared GradingApp τ}
    (h : Open i picked l S) (ho : OthersOf Grows i S S') : Open i picked l S' where
  first := ho.once h.first
  growing := h.growing
  picked a ha := by
    obtain ⟨a', ha', h₁, h₂, h₃⟩ := h.picked a ha
    obtain ⟨a'', ha'', h₁', h₂', h₃'⟩ := ho.keeps a' ha'
    exact ⟨a'', ha'', h₁'.trans h₁, h₂'.trans h₂, h₃'.trans h₃⟩

/-- A part of a transaction before its commit. -/
theorem wp_open {α : Type} {P : Local GradingApp → Shared GradingApp τ → GradingRows → Prop} {picked : List Attempt}
    {Q : GradingRows → Except Err α → Set GradingLock → GradingRows → Prop} {p : GradingHandler α} (hp : p.Within Growing)
    {l : Local GradingApp} (hopen : Open i picked l S) (h : Tracked CounterTbl Q p l S) :
    wp (fun _ => OthersOf Grows i) (CommitsOnce Grows P i) i
      (fun r l S => Open i picked l S ∧ Tracked CounterTbl Q (.result r) l S) p l S :=
  wp_tracked (Open i picked) (fun _ _ _ h ho => ⟨h.others ho, ho.toOthers⟩) (fun _ _ _ h => ⟨h.first, h.growing, h.picked⟩)
    (fun _ _ _ h => ⟨h.first, h.growing, h.picked⟩)
    (fun _ _ _ hf h => ⟨h.first, fun rows => (h.growing rows).trans (hf _), h.picked⟩) hp hopen h

/-- The commit that ends a transaction. -/
theorem wp_commit {P : Local GradingApp → Shared GradingApp τ → GradingRows → Prop} {picked : List Attempt}
    {α β : Type} {Q : GradingRows → Except Err α → Set GradingLock → GradingRows → Prop} {l : Local GradingApp} {a : α}
    (hopen : Open i picked l S) (ht : Tracked CounterTbl Q (.ret a) l S)
    (hP : ∀ S, Open i picked l S → (CurrentCounters l S → Q S.db (.ok a) l.held (l.view S.db)) → P l S (l.view S.db))
    {k : GradingHandler β} (hk : ∀ S, wp (fun _ => OthersOf Grows i) (CommitsOnce Grows P i) i (fun _ _ _ => True) k .idle S) :
    wp (fun _ => OthersOf Grows i) (CommitsOnce Grows P i) i (fun _ _ _ => True) (.commit k) l S := by
  intro S' ho
  have hopen' := hopen.others ho
  have hP' := hP S' hopen' (ht.others ho.toOthers).current
  exact ⟨.commit ⟨hopen'.first, hopen'.growing _, hP'⟩, hk _⟩

theorem othersOf_refl (_ : Local GradingApp) (S : Shared GradingApp τ) : OthersOf Grows i S S :=
  ⟨Others.refl S, id, .of_eq rfl⟩

theorem wp_submit (D : Deployment) (e : Submitting) (tx : Tx) (payload : AttemptRequest) (hfirst : i ∉ S.commits) :
    wp (fun _ => OthersOf Grows i) (CommitsOnce Grows (Counts cat (.submit e tx payload)) i) i (fun _ _ _ => True)
      ((Worker.submit e tx payload).program D cat) .idle S := by
  change wp _ _ _ _ (attemptTransaction D.cfg cat e tx payload >>= fun _ => ret ()) _ _
  unfold attemptTransaction
  rcases checkRequest_cases (e.envOf cat payload) payload with ⟨-, err, he, -⟩ | ⟨p, hc, he⟩
  · rw [he]
    exact fun S' _ => trivial
  · obtain ⟨type, grade⟩ := p
    rw [he]
    let concepts := cat.concepts payload.exerciseId payload.exerciseVersion
    change wp _ _ _ _ (storeAttempt D.cfg (e.envOf cat payload) tx payload type concepts grade e.output >>= fun _ => ret ())
      _ _
    rw [storeAttempt_eq, bind_assoc]
    have hopen : Open i [] (.idle : Local GradingApp) S := ⟨hfirst, fun rows => .of_eq rfl, fun a ha => nomatch ha⟩
    have hwithin : (attemptPart D.cfg (e.envOf cat payload) tx payload type concepts grade e.output).Within Growing :=
      within_attemptPart submitWrites_growing D.cfg _ tx payload type concepts grade e.output
    have ht : Tracked CounterTbl (fun rows r _ rows' => ∀ a, r = .ok a →
        Submits (e.envOf cat payload) tx payload type concepts grade rows rows')
        (attemptPart D.cfg (e.envOf cat payload) tx payload type concepts grade e.output) .idle S :=
      .start fun rows => attemptPart_counts D.cfg type concepts grade e.output rows
    refine wp_bind othersOf_refl (wp_mono ?_ (wp_open hwithin hopen ht))
    rintro r l S₁ ⟨hopen₁, ht₁⟩
    cases r with
    | error err => trivial
    | ok a =>
      exact wp_commit hopen₁ ht₁ (fun S₂ _ hq hcurrent => ⟨type, grade, hc, hq hcurrent a rfl⟩)
        fun S₃ S₄ _ => trivial

theorem wp_retry (D : Deployment) (env : RetryEnv) (hfirst : i ∉ S.commits) :
    wp (fun _ => OthersOf Grows i) (CommitsOnce Grows (Counts cat (.retry env)) i) i (fun _ _ _ => True)
      ((Worker.retry env).program D cat) .idle S := by
  change wp _ _ _ _ (resolvePendingSummarizeGrades D.cfg cat env >>= fun _ => ret ()) _ _
  rw [resolvePendingSummarizeGrades_eq]
  intro S₁ ho₁
  -- the attempts picked, and the loop over them
  have hmem : ∀ a ∈ (picked env S₁.db).map Prod.fst, ∃ a' ∈ S₁.db.user.attempts, SameAttempt a a' := by
    intro a ha
    obtain ⟨p, hp, rfl⟩ := List.mem_map.mp ha
    exact ⟨p.1, (mem_picked hp).1, rfl, rfl, rfl⟩
  let l₁ : Local GradingApp := ⟨∅, [⟨.user .attempts, S₁.commits.length⟩], id⟩
  have hopen : Open i ((picked env S₁.db).map Prod.fst) l₁ S₁ := ⟨ho₁.once hfirst, fun rows => .of_eq rfl, hmem⟩
  have hloop : ∀ rows : GradingRows, (resolveAttempts D.cfg cat env ⟨none, []⟩ ⟨0, 0, 0⟩ (picked env S₁.db)).Ensures
      CounterTbl (fun _ locks' cur' => ∃ resolved held,
        Resolving cat ((picked env S₁.db).map Prod.fst) rows resolved held locks' cur') ∅ rows := by
    intro rows
    refine (resolveAttempts_counts D.cfg env (picked env S₁.db) ⟨0, 0, 0⟩ (.start _ rows ∅)
      (fun p hp => List.mem_map_of_mem hp) (fun p _ hid => nomatch hid) (picked_distinct env S₁.db)).mono ?_
    rintro r locks' cur' ⟨resolved, held, -, hr⟩
    exact ⟨resolved, held, hr⟩
  have ht : Tracked CounterTbl (fun rows _ locks' cur' => ∃ resolved held,
      Resolving cat ((picked env S₁.db).map Prod.fst) rows resolved held locks' cur')
      (resolveAttempts D.cfg cat env ⟨none, []⟩ ⟨0, 0, 0⟩ (picked env S₁.db)) l₁ S₁ := by
    refine ⟨fun r hr => ?_, .inr fun rows => hloop rows, fun _ => hloop S₁.db⟩
    rw [List.mem_singleton.mp hr]
  have hwithin : (resolveAttempts D.cfg cat env ⟨none, []⟩ ⟨0, 0, 0⟩ (picked env S₁.db)).Within Growing :=
    within_resolveAttempts ..
  change wp _ _ _ _ ((resolveAttempts D.cfg cat env ⟨none, []⟩ ⟨0, 0, 0⟩ (picked env S₁.db) >>=
    fun summary => .commit (.ret summary)) >>= fun _ => ret ()) l₁ S₁
  rw [bind_assoc]
  refine wp_bind othersOf_refl (wp_mono ?_ (wp_open hwithin hopen ht))
  rintro r l S₂ ⟨hopen₂, ht₂⟩
  cases r with
  | error err => trivial
  | ok summary =>
    have hcommit : ∀ S₃, Open i ((picked env S₁.db).map Prod.fst) l S₃ →
        (CurrentCounters l S₃ → ∃ resolved held,
          Resolving cat ((picked env S₁.db).map Prod.fst) S₃.db resolved held l.held (l.view S₃.db)) →
        Counts cat (.retry env) l S₃ (l.view S₃.db) := by
      intro S₃ hopen₃ hq hcurrent
      obtain ⟨resolved, held, hr⟩ := hq hcurrent
      exact ⟨_, resolved, held, hopen₃.picked, hr⟩
    exact wp_commit (k := ret ()) hopen₂ ht₂ hcommit fun S₄ S₅ _ => trivial

end Wp

/-! ## The result -/

section Run

variable {worker : τ → Worker} {rows : GradingRows}

/-- The attempts are those of the start and those of the workers that committed. -/
def Inventory (worker : τ → Worker) (rows : GradingRows) (commits : List τ) (db : GradingRows) : Prop :=
  db.user.attempts.map Attempt.id =
    rows.user.attempts.map Attempt.id ++ commits.filterMap fun i => (worker i).attemptId

theorem Inventory.nodup {commits : List τ} {db : GradingRows} (h : Inventory worker rows commits db)
    (hids : (rows.user.attempts.map Attempt.id).Nodup) (hnew : NewIds worker rows) (hcommits : commits.Nodup) :
    (db.user.attempts.map Attempt.id).Nodup := by
  rw [h, List.nodup_append]
  refine ⟨hids, ?_, fun id hid id' hid' heq => ?_⟩
  · exact hcommits.filterMap fun i j id hi hj => hnew.distinct i j id hi hj
  · obtain ⟨a, ha, rfl⟩ := List.mem_map.mp hid
    obtain ⟨i, -, hi⟩ := List.mem_filterMap.mp hid'
    exact hnew.new i id' hi a ha heq

/-- An admitted commit keeps the counters' agreement. -/
theorem Counts.agrees {i : τ} {l : Local GradingApp} {S : Shared GradingApp τ} {db' : GradingRows}
    (h : Counts cat (worker i) l S db') (hA : CurrentCounters l S ∧ StillPending l S)
    (hids : (rows.user.attempts.map Attempt.id).Nodup) (hnew : NewIds worker rows) (hcommits : S.commits.Nodup)
    (hinv : Inventory worker rows S.commits S.db) (hagrees : AllAgree cat S.db) :
    AllAgree cat db' ∧ Inventory worker rows (S.commits ++ [i]) db' := by
  have hcounts := h hA.1
  unfold Inventory at hinv ⊢
  rw [List.filterMap_append, ← List.append_assoc, ← hinv]
  cases hw : worker i with
  | submit e tx payload =>
    rw [hw] at hcounts
    obtain ⟨type, grade, hc, hs⟩ := hcounts
    refine ⟨hs.agrees (type_of_checked hc) hagrees, ?_⟩
    rw [hs.attempts, List.map_append, List.filterMap_cons, hw]
    rfl
  | retry env =>
    rw [hw] at hcounts
    obtain ⟨picked, resolved, held, hpicked, hr⟩ := hcounts
    have hfound : Found cat picked S.db := ⟨hagrees, Inventory.nodup hinv hids hnew hcommits, hpicked⟩
    refine ⟨hr.agrees hfound fun id hid => hA.2 id (hr.locked id hid), ?_⟩
    rw [hr.ids, List.filterMap_cons, hw]
    exact (List.append_nil _).symm

/-- **Deferred grading among submissions**: in every state of every run of submissions and jobs of one user, statement
by statement, whose commits have current counters and update pending rows, each verdict has been counted once, and no
attempt is lost. -/
theorem deferred_grading_agrees [DecidableEq τ] {kv : Redis} {s : Sys GradingApp τ Unit} (hagrees : AllAgree cat rows)
    (hids : (rows.user.attempts.map Attempt.id).Nodup) (hnew : NewIds worker rows)
    (h : Reach (fun _ _ => True) (fun _ l S => CurrentCounters l S ∧ StillPending l S)
      (Workers.start D cat worker rows kv) s) :
    AllAgree cat s.shared.db ∧ Inventory worker rows s.shared.commits s.shared.db := by
  have hwp : ∀ i (S : Shared GradingApp τ), i ∉ S.commits → wp (fun _ => OthersOf Grows i)
      (CommitsOnce Grows (Counts cat (worker i)) i) i (fun _ _ _ => True) ((worker i).program D cat) .idle S := by
    intro i S hfirst
    cases worker i with
    | submit e tx payload => exact wp_submit D e tx payload hfirst
    | retry env => exact wp_retry D env hfirst
  have hinv : s.shared.commits.Nodup ∧ AllAgree cat s.shared.db ∧ Inventory worker rows s.shared.commits s.shared.db := by
    refine Reach.tables_of_commits (W := Grows) (P := fun i => Counts cat (worker i))
      (J := fun commits db => commits.Nodup ∧ AllAgree cat db ∧ Inventory worker rows commits db)
      (fun _ => .of_eq rfl) (fun _ _ _ => Grows.trans) hwp ⟨List.nodup_nil, hagrees, (List.append_nil _).symm⟩ ?_ h
    rintro i l S db' hA hi hP ⟨hcommits, hagrees, hinv⟩
    obtain ⟨hagrees', hinv'⟩ := Counts.agrees hP hA hids hnew hcommits hinv hagrees
    refine ⟨List.nodup_append.mpr ⟨hcommits, List.nodup_singleton _, fun j hj k hk heq => ?_⟩, hagrees', hinv'⟩
    rw [List.mem_singleton.mp hk] at heq
    exact hi (heq ▸ hj)
  exact hinv.2

end Run

/-! ### A pending attempt -/

/-- The transaction of a call. -/
def GradingCall.worker (c : GradingCall) : Worker :=
  match c.op with
  | .submit e _ payload => .submit e c.tx payload
  | .retry env => .retry env

/-- A user whose only attempt is pending. -/
def onePending : GradingRows :=
  (smallSubmit 2 .rubricTimeout).after (Deployment.small fun _ => 0) smallCatalog (.created "UTC")

theorem onePending_run : GradingRun (Deployment.small fun _ => 0) smallCatalog (.created "UTC")
    [smallSubmit 2 .rubricTimeout] onePending := by
  have hnil : GradingRun (Deployment.small fun _ => 0) smallCatalog (.created "UTC") [] (.created "UTC") := .nil
  exact hnil.call (by decide +kernel)

/-- Two calls at once, on the pending attempt. -/
def besideSmall (c c' : GradingCall) : Bool → Worker
  | false => c.worker
  | true => c'.worker

abbrev besideStart (c c' : GradingCall) : Sys GradingApp Bool Unit :=
  Workers.start (.small fun _ => 0) smallCatalog (besideSmall c c') onePending ⟨fun _ => none, fun _ => false⟩

instance (l : Local GradingApp) (S : Shared GradingApp τ) : Decidable (CurrentCounters l S) :=
  inferInstanceAs (Decidable (∀ r ∈ l.reads, r.tbl = _ ∨ r.tbl = _ → _))

instance (rows : GradingRows) (id : Nat) : Decidable (PendingRow rows id) :=
  inferInstanceAs (Decidable (∃ a ∈ rows.user.attempts, _))

/-- The submission takes the lock of its day, the job runs up to its commit. -/
def jobBeside : Sys GradingApp Bool Unit :=
  (besideStart (smallSubmit 1 (.deterministic true)) (smallRetry 4)).after (fun _ _ _ => False)
    (List.replicate 2 false ++ List.replicate 18 true)

/-- The job commits, and the submission goes on to its commit. -/
def submitBeside : Sys GradingApp Bool Unit :=
  ((jobBeside.step true).getD jobBeside).after (fun _ _ _ => False) (List.replicate 11 false)

theorem besideSmall_new (grade : Grade) : NewIds (besideSmall (smallSubmit 1 grade) (smallRetry 4)) onePending := by
  have hid : ∀ i id, (besideSmall (smallSubmit 1 grade) (smallRetry 4) i).attemptId = some id → i = false ∧ id = 1 := by
    intro i id h
    cases i with
    | false => exact ⟨rfl, (Option.some.inj h).symm⟩
    | true => cases h
  refine ⟨fun i id h a ha => ?_, fun i j id hi hj => (hid i id hi).1.trans (hid j id hj).1.symm⟩
  have hids : ∀ a ∈ onePending.user.attempts, a.id ≠ 1 := by decide +kernel
  rw [(hid i id h).2]
  exact hids a ha

theorem jobBeside_locks (id : Nat) : jobBeside.locks (.attemptRow id) = if id = 2 then some true else none := by
  have hupdate : jobBeside.locks (.attemptRow id) = Function.update (fun _ => none) (.attemptRow 2) (some true)
    (GradingLock.attemptRow id) := rfl
  rw [hupdate]
  by_cases hid : id = 2
  · rw [hid, Function.update_self, if_pos rfl]
  · rw [Function.update_of_ne (by simp [hid]), if_neg hid]

/-- The submission takes the lock of its day, the job runs, and the submission goes on. -/
theorem deferred_grading_agrees_beside :
    let s := (submitBeside.step false).getD submitBeside
    s.shared.commits = [true, false] ∧ AllAgree smallCatalog s.shared.db ∧
      (countersOf s.shared.db.user.stats).totalAttempts = 2 ∧ (countersOf s.shared.db.user.stats).totalCorrect = 2 ∧
      (conceptRow s.shared.db.conceptStates "loops").attempts = 2 := by
  intro s
  have hjob : CurrentCounters (jobBeside.localOf true) jobBeside.shared ∧
      StillPending (jobBeside.localOf true) jobBeside.shared := by
    refine ⟨by decide +kernel, fun id hid => ?_⟩
    have hid₂ : id = 2 := by
      by_contra hne
      have hlock := jobBeside_locks id
      rw [if_neg hne] at hlock
      exact absurd (hlock.symm.trans hid) (by simp)
    subst hid₂
    decide +kernel
  have hsubmit : CurrentCounters (submitBeside.localOf false) submitBeside.shared ∧
      StillPending (submitBeside.localOf false) submitBeside.shared := by
    refine ⟨by decide +kernel, fun id hid => ?_⟩
    have hlock : submitBeside.locks (.attemptRow id) =
      if jobBeside.locks (.attemptRow id) = some true then none else jobBeside.locks (.attemptRow id) := rfl
    have hnone : submitBeside.locks (.attemptRow id) = none := by
      rw [hlock, jobBeside_locks]
      split <;> simp_all
    exact absurd (hnone.symm.trans hid) (by simp)
  have hstart : Reach (fun _ _ => True) (fun _ l S => CurrentCounters l S ∧ StillPending l S)
      (besideStart (smallSubmit 1 (.deterministic true)) (smallRetry 4)) jobBeside :=
    .uncommitted .start (by decide +kernel)
  have hmiddle : Reach (fun _ _ => True) (fun _ l S => CurrentCounters l S ∧ StillPending l S)
      (besideStart (smallSubmit 1 (.deterministic true)) (smallRetry 4)) submitBeside :=
    (hstart.next hjob (by decide +kernel)).uncommitted (by decide +kernel)
  obtain ⟨hagrees, hids⟩ := onePending_run.counted .created List.nodup_nil
  exact ⟨by decide +kernel, (deferred_grading_agrees hagrees hids (besideSmall_new _)
    (hmiddle.next hsubmit (by decide +kernel))).1, by decide +kernel, by decide +kernel, by decide +kernel⟩

/-- A job reads the pending attempt, another one grades it, and the first goes on. -/
def bothJobs : List Bool := true :: List.replicate 20 false ++ List.replicate 13 true

/-- The job reads the stats, a submission is counted, and the job goes on. -/
def statsRead : List Bool := List.replicate 16 true ++ List.replicate 18 false ++ List.replicate 4 true

/-- **An attempt is counted twice, and a verdict is lost.**  Two jobs that read the same pending attempt both count it;
and a job that read the stats before a submission commits writes them without the submission's verdict. -/
theorem deferred_grading_breaks :
    GradingRun (Deployment.small fun _ => 0) smallCatalog (.created "UTC") [smallSubmit 2 .rubricTimeout] onePending ∧
    (∃ s, Reach (fun _ _ => True) anyCommit (besideStart (smallRetry 4) (smallRetry 5)) s ∧
      (∀ i, s.threads i = .done (.ok ())) ∧ (countersOf s.shared.db.user.stats).totalCorrect = 2 ∧
      s.shared.db.user.attempts.countP (·.isCorrect == some true) = 1 ∧ ¬ AllAgree smallCatalog s.shared.db) ∧
    ∃ s, Reach (fun _ _ => True) anyCommit (besideStart (smallSubmit 3 (.deterministic true)) (smallRetry 4)) s ∧
      (∀ i, s.threads i = .done (.ok ())) ∧ (countersOf s.shared.db.user.stats).totalCorrect = 1 ∧
      s.shared.db.user.attempts.countP (·.isCorrect == some true) = 2 ∧ ¬ AllAgree smallCatalog s.shared.db := by
  let s := (besideStart (smallRetry 4) (smallRetry 5)).after anyCommit bothJobs
  let s' := (besideStart (smallSubmit 3 (.deterministic true)) (smallRetry 4)).after anyCommit statsRead
  have hdone : ∀ i, (s.threads i).answered.isSome = true := by decide +kernel
  have hdone' : ∀ i, (s'.threads i).answered.isSome = true := by decide +kernel
  refine ⟨onePending_run, ⟨s, .after (by decide +kernel), fun i => ?_, by decide +kernel, by decide +kernel, fun h => ?_⟩,
    s', .after (by decide +kernel), fun i => ?_, by decide +kernel, by decide +kernel, fun h => ?_⟩
  · obtain ⟨answer, hanswer⟩ := Option.isSome_iff_exists.mp (hdone i)
    exact Thread.done_of_answered hanswer
  · exact absurd h.totalCorrect (by decide +kernel)
  · obtain ⟨answer, hanswer⟩ := Option.isSome_iff_exists.mp (hdone' i)
    exact Thread.done_of_answered hanswer
  · exact absurd h.totalCorrect (by decide +kernel)

end CodeReader.Grading
