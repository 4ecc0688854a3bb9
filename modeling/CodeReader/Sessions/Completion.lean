import CodeReader.Grading.Spec
import CodeReader.Sessions.Spec
import CodeReader.Txn.History

/-!
# Completion

A session is complete for its reader when each of its slots has an attempt of the day, and for the counts when its row
has `completed_at`.  Runs of reads, submissions and pulls, one after another, where Redis loses sessions at any time:

* `exec_getTodaySession`, `exec_buildAndStoreAttempt` — a request alone;
* `Agreed` — the two notions agree of every session that is stored; a new session must have something to attempt.
-/

namespace CodeReader.Sessions

open Txn Prog Grading Text

namespace SessionTables

/-- The row of the date has `completed_at`. -/
def completedOn (d : Int) (rows : SessionTables) : Bool :=
  rows.sessions.any fun row => row.sessionDate == d && row.completedAt.isSome

/-- How many rows have `completed_at`. -/
def completedCount (rows : SessionTables) : Nat := rows.sessions.countP (·.completedAt.isSome)

end SessionTables

variable {cfg : Settings} {env : SessionEnv} {e : Submitting} {tx : Tx} {payload : AttemptRequest}
  {rows rows' : SessionTables} {redis redis' : SessionRedis} {slots : List SessionSlot} {d : Int}

/-! ## Attempts and slots -/

theorem mem_attemptedIds {id : ExerciseId} : id ∈ rows.attemptedIds d ↔
    ∃ a ∈ rows.grading.user.attempts, a.sessionDate = d ∧ a.exerciseId = id := by
  simp [SessionTables.attemptedIds, and_assoc]

theorem allAttempted_iff {ids : List ExerciseId} : allAttempted ids slots = true ↔ ∀ s ∈ slots, s.exerciseId ∈ ids := by
  simp [allAttempted]

/-- Nothing remains exactly when every slot is attempted. -/
theorem remainingOf_eq_zero : remainingOf d (slots.map (·.toSessionSlot)) rows.grading.user.attempts = 0 ↔
    allAttempted (rows.attemptedIds d) slots = true := by
  let attempted : SessionSlot → Bool := fun s =>
    rows.grading.user.attempts.any fun a => a.sessionDate == d && a.exerciseId == s.exerciseId
  have hslot : ∀ s, attempted s = true ↔ s.exerciseId ∈ rows.attemptedIds d := by
    intro s
    rw [mem_attemptedIds, List.any_eq_true]
    simp only [Bool.and_eq_true, beq_iff_eq]
  have hle := List.countP_le_length (p := attempted) (l := slots)
  have hall := List.countP_eq_length (p := attempted) (l := slots)
  simp only [hslot] at hall
  rw [allAttempted_iff, ← hall]
  unfold remainingOf
  by_cases hnil : slots = []
  · simp [hnil]
  · rw [if_neg (by simpa using hnil), List.countP_map, List.length_map]
    change max 0 ((slots.length : Int) - (slots.countP attempted : Nat)) = 0 ↔ _
    omega

/-! ## Reads -/

theorem exec_tomorrowTeaser (env : SessionEnv) (first : Bool) (cur : SessionTables) (s : Store SessionApp) :
    ∃ tomorrow, (tomorrowTeaser env first).exec cur s = ⟨.ok tomorrow, cur, s⟩ := by
  unfold tomorrowTeaser
  simp only [query_bind, exec_select]
  split
  · exact ⟨_, rfl⟩
  · split
    · exact ⟨_, rfl⟩
    · exact ⟨_, rfl⟩

/-- **A read alone.** -/
theorem exec_getTodaySession (h : Kept rows redis) (env : SessionEnv) :
    ∃ slots rows' redis' response, (getTodaySession env).exec rows ⟨rows, redis⟩ = ⟨.ok response, rows', ⟨rows', redis'⟩⟩ ∧
      Serves env rows redis slots rows' redis' ∧
      response.completed = (slots ≠ [] && allAttempted (rows'.attemptedIds env.today) slots) := by
  obtain ⟨slots, rows', redis', hexec, hserves⟩ := exec_getTodaySlots h env
  refine ⟨slots, rows', redis', ?_⟩
  unfold getTodaySession
  rw [exec_bind, hexec]
  simp only [andThen, note_bind, exec_emit]
  split
  · rename_i hnil
    exact ⟨_, rfl, hserves, by simp [hnil]⟩
  · rename_i hne
    simp only [query_bind, exec_select]
    split
    · rename_i hall
      obtain ⟨tomorrow, ht⟩ := exec_tomorrowTeaser env (rows'.sessions.countP (·.completedAt.isSome) == 1) rows'
        ⟨rows', redis'⟩
      simp only [isFirstCompletedSession, query_bind, exec_select]
      rw [exec_bind, ht]
      exact ⟨_, rfl, hserves, by simp [hne, hall]⟩
    · rename_i hall
      exact ⟨_, rfl, hserves, by simp [hall]⟩

/-! ## Submissions -/

/-- What a submission comes to on the rows of the user: a refusal, or its rows. -/
inductive Outcome (cfg : Settings) (env : SubmitEnv) (tx : Tx) (payload : AttemptRequest) (rows : UserRows) :
    Except Err AttemptResponse → UserRows → Prop
  | refused {err : Err} : Outcome cfg env tx payload rows (.error err) rows
  | recorded {type : String} {grade : Grade} : checked env payload = some (type, grade) →
      attemptedOn rows.attempts payload.exerciseId env.today = false →
      Outcome cfg env tx payload rows (.ok (submittedResponse cfg env tx payload type grade rows))
        (submittedRows cfg env tx payload type grade rows)

theorem exec_attemptTransaction_user (cfg : Settings) (cat : Catalog) (e : Submitting) (tx : Tx)
    (payload : AttemptRequest) (rows : GradingRows) (kv : Redis) :
    let r := (attemptTransaction cfg cat e tx payload).exec rows ⟨rows, kv⟩
    Outcome cfg (e.envOf cat payload) tx payload rows.user r.res r.store.db.user := by
  intro r
  simp only [r, attemptTransaction]
  rcases checkRequest_cases (e.envOf cat payload) payload with ⟨-, err, he, -⟩ | ⟨⟨type, grade⟩, hc, he⟩
  · rw [he]
    exact .refused
  · rw [he]
    obtain ⟨hres, hrows, -⟩ := storeAttempt_user cfg (e.envOf cat payload) tx payload type
      (cat.concepts payload.exerciseId payload.exerciseVersion) grade e.output rows kv
    change Outcome cfg (e.envOf cat payload) tx payload rows.user
      ((Grading.storeAttempt cfg (e.envOf cat payload) tx payload type _ grade e.output).exec rows ⟨rows, kv⟩).res
      ((Grading.storeAttempt cfg (e.envOf cat payload) tx payload type _ grade e.output).exec rows ⟨rows, kv⟩).store.db.user
    rw [hres, hrows, exec_storeAttempt]
    split
    · exact .refused
    · rename_i hattempted
      dsimp only
      split
      · exact .refused
      · exact .recorded hc (by simpa using hattempted)

/-- **A submission alone**: the session that it gets, then its transaction on the rows of the user. -/
theorem exec_buildAndStoreAttempt (h : Kept rows redis) (cfg : Settings) (env : SessionEnv) (e : Submitting) (tx : Tx)
    (payload : AttemptRequest) :
    ∃ slots rows' redis', Serves env rows redis slots rows' redis' ∧
      let r := (buildAndStoreAttempt cfg env e tx payload).exec rows ⟨rows, redis⟩
      ∃ grading, r.store.db = { rows' with grading := grading } ∧ r.store.kv.sessions = redis'.sessions ∧
        ∃ res, r.res = res.mapError .app ∧
          Outcome cfg ((inSession env slots e).envOf (catalogOf rows'.exercises) payload) tx payload rows'.grading.user
            res grading.user := by
  obtain ⟨slots, rows', redis', hexec, hserves⟩ := exec_getTodaySlots h env
  refine ⟨slots, rows', redis', hserves, ?_⟩
  intro r
  simp only [r, buildAndStoreAttempt]
  rw [exec_bind, hexec]
  simp only [andThen, note_bind, exec_emit, query_bind, exec_select]
  rw [exec_embed (E := gradingPart) _ rows' ⟨rows', redis'⟩ fun a => rfl]
  exact ⟨_, rfl, rfl, _, rfl, exec_attemptTransaction_user cfg _ _ tx payload rows'.grading redis'.app⟩

/-! ## Runs -/

inductive SessionOp
  | read (env : SessionEnv)
  | submit (env : SessionEnv) (e : Submitting) (tx : Tx) (payload : AttemptRequest)
  | pull (id : ExerciseId) (version now : Int)
  /-- Redis loses the sessions of these dates. -/
  | evict (lost : Int → Bool)

def SessionRedis.evict (lost : Int → Bool) (redis : SessionRedis) : SessionRedis :=
  { redis with sessions := fun d => if lost d then none else redis.sessions d }

/-- The tables and the cache after the operation. -/
def SessionOp.run (cfg : Settings) (s : Store SessionApp) : SessionOp → Store SessionApp
  | read env => ((getTodaySession env).exec s.db s).store
  | submit env e tx payload => ((buildAndStoreAttempt cfg env e tx payload).exec s.db s).store
  | pull id version now => ((pullExercise id version now).exec s.db s).store
  | evict lost => { s with kv := s.kv.evict lost }

/-! ## The rows that operations keep -/

theorem Kept.congr (h : Kept rows redis) (hids : ∀ e ∈ rows'.exercises.rows, e.id < 2 ^ 128)
    (hdates : rows'.sessions.map (·.sessionDate) = rows.sessions.map (·.sessionDate))
    (hlist : rows'.exerciseList = rows.exerciseList) (hredis : redis'.sessions = redis.sessions) : Kept rows' redis' where
  ids := hids
  dates := by
    rw [hdates]
    exact h.dates
  listed d list hd := h.listed d list (by rw [← stored_congr hdates hlist]; exact hd)
  cached d text hd := by
    rw [hredis] at hd
    rw [stored_congr hdates hlist]
    exact h.cached d text hd

/-- A submission completes the session of its day, or leaves the sessions. -/
theorem completedSessions_cases (today now remaining : Int) (sessions : List DailySession) :
    completedSessions today now remaining sessions = (sessions, false) ∧
        (remaining = 0 → ∀ row, sessions.find? (·.sessionDate == today) = some row → row.completedAt.isSome) ∨
      remaining = 0 ∧ (∃ row ∈ sessions, row.sessionDate = today ∧ row.completedAt = none) ∧
        completedSessions today now remaining sessions =
          (completedRows today now sessions, (completedRows today now sessions).countP (·.completedAt.isSome) == 1) := by
  unfold completedSessions
  split
  · rename_i hzero
    split
    · rename_i date hfind
      refine .inr ⟨hzero, ⟨_, List.mem_of_find?_eq_some hfind, ?_, rfl⟩, rfl⟩
      simpa using List.find?_some hfind
    · rename_i hnot
      refine .inl ⟨rfl, fun _ row hfind => ?_⟩
      obtain ⟨date, completedAt⟩ := row
      cases completedAt with
      | none => exact absurd hfind (hnot date)
      | some t => rfl
  · rename_i hne
    exact .inl ⟨rfl, fun hzero => absurd hzero hne⟩

theorem dates_completedSessions {today now remaining : Int} {sessions : List DailySession} :
    (completedSessions today now remaining sessions).1.map (·.sessionDate) = sessions.map (·.sessionDate) := by
  rcases completedSessions_cases today now remaining sessions with ⟨h, -⟩ | ⟨-, -, h⟩
  · rw [h]
  · rw [h]
    exact dates_completedRows

/-- One more session is complete. -/
theorem countP_completedRows {today : Int} (now : Int) {sessions : List DailySession}
    (h : ∃ row ∈ sessions, row.sessionDate = today ∧ row.completedAt = none) :
    sessions.countP (·.completedAt.isSome) < (completedRows today now sessions).countP (·.completedAt.isSome) := by
  obtain ⟨row, hrow, hdate, hnone⟩ := h
  have hmono : ∀ l : List DailySession,
      l.countP (·.completedAt.isSome) ≤ (completedRows today now l).countP (·.completedAt.isSome) := by
    intro l
    rw [completedRows, List.countP_map]
    refine List.countP_mono_left fun s _ hs => ?_
    dsimp only [Function.comp]
    split
    · rfl
    · exact hs
  obtain ⟨l₁, l₂, rfl⟩ := List.append_of_mem hrow
  have h₁ := hmono l₁
  have h₂ := hmono l₂
  simp only [completedRows, List.map_append, List.map_cons, List.countP_append, List.countP_cons, hdate, hnone, if_true,
    Option.isSome_some, Option.isSome_none, Bool.false_eq_true, if_false] at h₁ h₂ ⊢
  omega

theorem Outcome.dates {env : SubmitEnv} {user user' : UserRows} {res : Except Err AttemptResponse}
    (h : Outcome cfg env tx payload user res user') :
    user'.sessions.map (·.sessionDate) = user.sessions.map (·.sessionDate) := by
  cases h with
  | refused => rfl
  | recorded hc ha => exact dates_completedSessions

/-- **Every operation keeps the sessions that are stored and cached.** -/
theorem Kept.run {s : Store SessionApp} (h : Kept s.db s.kv) (cfg : Settings) (op : SessionOp) :
    Kept (op.run cfg s).db (op.run cfg s).kv := by
  cases op with
  | read env =>
    obtain ⟨slots, rows', redis', response, hexec, hserves, -⟩ := exec_getTodaySession h env
    rw [SessionOp.run, hexec]
    exact hserves.kept h
  | submit env e tx payload =>
    obtain ⟨slots, rows', redis', hserves, grading, hdb, hkv, res, -, houtcome⟩ :=
      exec_buildAndStoreAttempt h cfg env e tx payload
    have hkept := hserves.kept h
    rw [SessionOp.run, hdb]
    exact hkept.congr hkept.ids houtcome.dates rfl hkv
  | pull id version now =>
    rcases exec_pullExercise id version now s with hs | hs <;> rw [SessionOp.run, hs]
    · exact h
    · refine ⟨fun e he => ?_, ?_, fun d list hd => ?_, fun d text hd => ?_⟩
      · obtain ⟨e', he', rfl⟩ := List.mem_map.mp he
        have hid := h.ids e' he'
        split <;> exact hid
      · exact h.dates.sublist (List.Sublist.map _ List.filter_sublist)
      · rw [stored_without] at hd
        split at hd
        · cases hd
        · exact h.listed d list hd
      · rw [sessions_without] at hd
        rw [stored_without]
        split at hd
        · cases hd
        · rename_i hnot
          rw [if_neg hnot]
          exact h.cached d text hd
  | evict lost =>
    refine ⟨h.ids, h.dates, h.listed, fun d text hd => ?_⟩
    simp only [SessionOp.run, SessionRedis.evict] at hd
    split at hd
    · cases hd
    · exact h.cached d text hd

/-! ## The first completed session -/

/-- The operation is a submission whose response says `first_completed_session`. -/
def reportsFirst (cfg : Settings) (s : Store SessionApp) : SessionOp → Bool
  | .submit env e tx payload =>
    match ((buildAndStoreAttempt cfg env e tx payload).exec s.db s).res with
    | .ok response => response.firstCompletedSession
    | .error _ => false
  | _ => false

/-- How many submissions of the run say it. -/
def firstReports (cfg : Settings) : Store SessionApp → List SessionOp → Nat
  | _, [] => 0
  | s, op :: ops => (if reportsFirst cfg s op then 1 else 0) + firstReports cfg (op.run cfg s) ops

theorem Serves.completedCount (h : Serves env rows redis slots rows' redis') :
    rows'.completedCount = rows.completedCount := by
  cases h with
  | there => rfl
  | nothing => rfl
  | built =>
    rw [SessionTables.completedCount, sessions_insertSession, List.countP_append]
    rfl

theorem Outcome.completedCount {env : SubmitEnv} {user user' : UserRows} {res : Except Err AttemptResponse}
    (h : Outcome cfg env tx payload user res user') :
    user.sessions.countP (·.completedAt.isSome) ≤ user'.sessions.countP (·.completedAt.isSome) ∧
      ∀ response, res = .ok response → response.firstCompletedSession = true →
        user.sessions.countP (·.completedAt.isSome) = 0 ∧ 0 < user'.sessions.countP (·.completedAt.isSome) := by
  cases h with
  | refused => exact ⟨Nat.le_refl _, fun response hr => nomatch hr⟩
  | recorded hc ha =>
    simp only [submittedRows, Except.ok.injEq, forall_eq', submittedResponse]
    rcases completedSessions_cases env.today env.now (remainingOf env.today env.slots _) user.sessions with
      ⟨h, -⟩ | ⟨-, hrow, h⟩
    · rw [h]
      exact ⟨Nat.le_refl _, fun hf => nomatch hf⟩
    · rw [h]
      have hlt := countP_completedRows env.now hrow
      refine ⟨hlt.le, fun hf => ?_⟩
      have hone := beq_iff_eq.mp hf
      dsimp only at hone ⊢
      omega

/-- A completed session is not purged. -/
theorem completedCount_without (h : (rows.sessions.map (·.sessionDate)).Nodup) (id : ExerciseId) (cutoff : Int) :
    (rows.without (purgedDates id cutoff rows)).completedCount = rows.completedCount := by
  rw [SessionTables.completedCount, SessionTables.without, sessions_setSessions, List.countP_filter]
  refine List.countP_congr fun row hrow => ?_
  rw [Bool.and_eq_true, and_iff_left_iff_imp]
  intro hcompleted
  rw [Bool.not_eq_true', ← Bool.not_eq_true, List.contains_iff_mem]
  intro hmem
  obtain ⟨row', hrow', he⟩ := List.mem_map.mp hmem
  obtain ⟨hin, hp⟩ := List.mem_filter.mp hrow'
  -- the purged row of the date is not completed, and there is one row of a date
  have hsame : row' = row := List.inj_on_of_nodup_map h hin hrow he
  rw [hsame] at hp
  simp only [Bool.and_eq_true, Option.isNone_iff_eq_none] at hp
  rw [hp.1.2] at hcompleted
  cases hcompleted

/-- Completed sessions are counted once: their number never drops, and a first report raises it from zero. -/
theorem completedCount_run {s : Store SessionApp} (h : Kept s.db s.kv) (cfg : Settings) (op : SessionOp) :
    s.db.completedCount ≤ (op.run cfg s).db.completedCount ∧
      (reportsFirst cfg s op = true → s.db.completedCount = 0 ∧ 0 < (op.run cfg s).db.completedCount) := by
  cases op with
  | read env =>
    obtain ⟨slots, rows', redis', response, hexec, hserves, -⟩ := exec_getTodaySession h env
    rw [SessionOp.run, hexec]
    exact ⟨hserves.completedCount.ge, fun hf => nomatch hf⟩
  | submit env e tx payload =>
    obtain ⟨slots, rows', redis', hserves, grading, hdb, -, res, hres, houtcome⟩ :=
      exec_buildAndStoreAttempt h cfg env e tx payload
    rw [SessionOp.run, hdb, reportsFirst, hres, ← hserves.completedCount]
    obtain ⟨hmono, hfirst⟩ := houtcome.completedCount
    refine ⟨hmono, fun hreports => ?_⟩
    cases res with
    | ok response => exact hfirst response rfl hreports
    | error err => cases hreports
  | pull id version now =>
    refine ⟨?_, fun hf => nomatch hf⟩
    rcases exec_pullExercise id version now s with hs | hs <;> rw [SessionOp.run, hs]
    exact (completedCount_without h.dates id _).ge
  | evict lost => exact ⟨Nat.le_refl _, fun hf => nomatch hf⟩

theorem firstReports_le {s : Store SessionApp} (h : Kept s.db s.kv) (cfg : Settings) (ops : List SessionOp) :
    firstReports cfg s ops ≤ 1 ∧ (0 < s.db.completedCount → firstReports cfg s ops = 0) := by
  induction ops generalizing s with
  | nil => exact ⟨Nat.zero_le _, fun _ => rfl⟩
  | cons op ops ih =>
    obtain ⟨hmono, hfirst⟩ := completedCount_run h cfg op
    obtain ⟨hle, hzero⟩ := ih (h.run cfg op)
    rw [firstReports]
    split
    · rename_i hreports
      obtain ⟨hnone, hsome⟩ := hfirst hreports
      have := hzero hsome
      omega
    · refine ⟨by omega, fun hpos => ?_⟩
      have := hzero (by omega)
      omega

/-! ## The two notions -/

/-- Of every session that is stored: its row is completed exactly when its slots are attempted. -/
structure Agreed (rows : SessionTables) (redis : SessionRedis) : Prop extends Kept rows redis where
  agrees : ∀ d slots, HaveUuids slots → rows.stored d = some (slotDicts slots) →
    (rows.completedOn d = true ↔ allAttempted (rows.attemptedIds d) slots = true)

theorem completedOn_iff : rows.completedOn d = true ↔
    ∃ row ∈ rows.sessions, row.sessionDate = d ∧ row.completedAt.isSome = true := by
  simp [SessionTables.completedOn]

theorem not_completedOn (h : rows.stored d = none) : rows.completedOn d = false := by
  rw [← Bool.not_eq_true, completedOn_iff]
  rintro ⟨row, hrow, hd, -⟩
  have hsome := stored_isSome.mpr ⟨row, hrow, hd⟩
  rw [h] at hsome
  cases hsome

/-- The session of a request is stored. -/
theorem Serves.stored (h : Serves env rows redis slots rows' redis') (hids : ∀ e ∈ rows.exercises.rows, e.id < 2 ^ 128)
    (hne : slots ≠ []) : rows'.stored env.today = some (slotDicts slots) ∧ HaveUuids slots := by
  cases h with
  | there hstored _ huuids _ => exact ⟨hstored, huuids⟩
  | nothing => exact absurd rfl hne
  | built =>
    refine ⟨?_, haveUuids_sampledSlots hids⟩
    rw [stored_insertSession, if_pos rfl]

/-- A request keeps the agreement, when the session that it builds has something to attempt. -/
theorem Serves.agreed (h : Serves env rows redis slots rows' redis') (ha : Agreed rows redis)
    (hnew : rows.stored env.today = none → sampledSlots env rows ≠ [] →
      allAttempted (rows.attemptedIds env.today) (sampledSlots env rows) = false) : Agreed rows' redis' := by
  refine ⟨h.kept ha.toKept, ?_⟩
  cases h with
  | there => exact ha.agrees
  | nothing => exact ha.agrees
  | built hnone hne =>
    intro d slots huuids hd
    have hcompleted : (insertSession env.today (sampledSlots env rows) rows).completedOn d = rows.completedOn d := by
      rw [SessionTables.completedOn, sessions_insertSession, List.any_append]
      simp [SessionTables.completedOn]
    rw [hcompleted]
    rw [stored_insertSession] at hd
    split at hd
    · rename_i he
      have hslots := slotDicts_inj (haveUuids_sampledSlots ha.ids) huuids (Option.some.inj hd)
      rw [he, not_completedOn hnone, ← hslots]
      have hfalse := hnew hnone hne
      constructor
      · exact fun hf => nomatch hf
      · exact fun hall => absurd (hfalse.symm.trans hall) Bool.false_ne_true
    · exact ha.agrees d slots huuids hd

theorem any_completedRows {today now : Int} {sessions : List DailySession} (hne : d ≠ today) :
    ((completedRows today now sessions).any fun row => row.sessionDate == d && row.completedAt.isSome) =
      sessions.any fun row => row.sessionDate == d && row.completedAt.isSome := by
  rw [completedRows, List.any_map]
  congr 1
  funext row
  by_cases hd : row.sessionDate = today
  · have hother : ¬ today = d := fun he => hne he.symm
    simp [hd, hother]
  · simp [hd]

/-- A recorded submission completes the session of its day exactly when every slot is attempted. -/
theorem Agreed.recorded (ha : Agreed rows redis) (hstored : rows.stored env.today = some (slotDicts slots))
    (huuids : HaveUuids slots) {env' : SubmitEnv} (htoday : env'.today = env.today)
    (hslots : env'.slots = slots.map (·.toSessionSlot)) {type : String} {grade : Grade} {grading : GradingRows}
    (huser : grading.user = submittedRows cfg env' tx payload type grade rows.grading.user) (d : Int)
    (slots' : List SessionSlot) (huuids' : HaveUuids slots') (hd : rows.stored d = some (slotDicts slots')) :
    let after : SessionTables := { rows with grading := grading }
    after.completedOn d = true ↔ allAttempted (after.attemptedIds d) slots' = true := by
  intro after
  have hbefore := ha.agrees d slots' huuids' hd
  have hattempts : after.grading.user.attempts =
      rows.grading.user.attempts ++ [env'.attempt tx payload grade] := congrArg UserRows.attempts huser
  have hsessions : after.sessions = (completedSessions env.today env'.now
      (remainingOf env.today (slots.map (·.toSessionSlot)) after.grading.user.attempts) rows.sessions).1 := by
    rw [hattempts, ← hslots, ← htoday]
    exact congrArg UserRows.sessions huser
  by_cases hdate : d = env.today
  · subst hdate
    obtain rfl := slotDicts_inj huuids huuids' (Option.some.inj (hstored.symm.trans hd))
    rw [← remainingOf_eq_zero]
    have hgrows : allAttempted (rows.attemptedIds env.today) slots = true →
        allAttempted (after.attemptedIds env.today) slots = true := by
      rw [allAttempted_iff, allAttempted_iff]
      intro h s hs
      obtain ⟨a, hmem, hrest⟩ := mem_attemptedIds.mp (h s hs)
      exact mem_attemptedIds.mpr ⟨a, by rw [hattempts]; exact List.mem_append_left _ hmem, hrest⟩
    rcases completedSessions_cases env.today env'.now
        (remainingOf env.today (slots.map (·.toSessionSlot)) after.grading.user.attempts) rows.sessions with
      ⟨hsame, hfound⟩ | ⟨hzero, ⟨row, hrow, hdate, -⟩, hset⟩
    · rw [hsame] at hsessions
      have hcompleted : after.completedOn env.today = rows.completedOn env.today := by
        rw [SessionTables.completedOn, hsessions]
        rfl
      rw [hcompleted]
      constructor
      · exact fun h => remainingOf_eq_zero.mpr (hgrows (hbefore.mp h))
      · intro hzero
        -- the row is there, so it is completed already
        obtain ⟨row, hrow, hdate⟩ := stored_isSome.mp (by rw [hstored]; rfl)
        have hsome : (rows.sessions.find? (·.sessionDate == env.today)).isSome :=
          List.find?_isSome.mpr ⟨row, hrow, by simpa using hdate⟩
        obtain ⟨found, hfind⟩ := Option.isSome_iff_exists.mp hsome
        exact completedOn_iff.mpr ⟨found, List.mem_of_find?_eq_some hfind, by simpa using List.find?_some hfind,
          hfound hzero found hfind⟩
    · rw [hset] at hsessions
      refine iff_of_true (completedOn_iff.mpr ?_) hzero
      rw [hsessions]
      exact ⟨{ row with completedAt := some env'.now }, List.mem_map.mpr ⟨row, hrow, by rw [if_pos hdate]⟩, hdate, rfl⟩
  · have hids : after.attemptedIds d = rows.attemptedIds d := by
      have hother : ¬ env'.today = d := fun he => hdate (he.symm.trans htoday)
      rw [SessionTables.attemptedIds, hattempts, List.filter_append]
      simp [SubmitEnv.attempt, hother, SessionTables.attemptedIds]
    have hcompleted : after.completedOn d = rows.completedOn d := by
      rw [SessionTables.completedOn, hsessions]
      rcases completedSessions_cases env.today env'.now
          (remainingOf env.today (slots.map (·.toSessionSlot)) after.grading.user.attempts) rows.sessions with
        ⟨h, -⟩ | ⟨-, -, h⟩
      · rw [h]
        rfl
      · rw [h]
        exact any_completedRows hdate
    rw [hids, hcompleted]
    exact hbefore

/-- A submission keeps the agreement. -/
theorem Agreed.submitted (ha : Agreed rows redis)
    (hslots : slots ≠ [] → rows.stored env.today = some (slotDicts slots) ∧ HaveUuids slots) {cat : Catalog}
    {res : Except Err AttemptResponse} {grading : GradingRows} (hredis : redis'.sessions = redis.sessions)
    (houtcome : Outcome cfg ((inSession env slots e).envOf cat payload) tx payload rows.grading.user res grading.user) :
    Agreed { rows with grading := grading } redis' := by
  let after : SessionTables := { rows with grading := grading }
  have hdates : after.sessions.map (·.sessionDate) = rows.sessions.map (·.sessionDate) := houtcome.dates
  refine ⟨ha.toKept.congr ha.ids hdates rfl hredis, fun d slots' huuids' hd => ?_⟩
  have hsame : after.stored d = rows.stored d := stored_congr hdates rfl
  replace hd := hsame.symm.trans hd
  generalize huser : grading.user = user at houtcome
  cases houtcome with
  | refused =>
    have hagrees := ha.agrees d slots' huuids' hd
    simp only [SessionTables.completedOn, SessionTables.attemptedIds, SessionTables.sessions, huser] at hagrees ⊢
    exact hagrees
  | recorded hc _ =>
    have hne : slots ≠ [] := by
      rintro rfl
      cases hc
    obtain ⟨hstored, huuids⟩ := hslots hne
    exact ha.recorded hstored huuids rfl rfl huser d slots' huuids' hd

/-- A session that is not purged is as complete as it was. -/
theorem completedOn_without {dates : List Int} (h : d ∉ dates) : (rows.without dates).completedOn d = rows.completedOn d := by
  rw [SessionTables.completedOn, SessionTables.without, sessions_setSessions, List.any_filter]
  congr 1
  funext row
  by_cases hd : row.sessionDate = d
  · simp [hd, h]
  · simp [hd]

/-- The session that a request would build has something to attempt. -/
def Renews (s : Store SessionApp) (env : SessionEnv) : Prop :=
  s.db.stored env.today = none → sampledSlots env s.db ≠ [] →
    allAttempted (s.db.attemptedIds env.today) (sampledSlots env s.db) = false

/-- The request of an operation that reads the session. -/
def SessionOp.request : SessionOp → Option SessionEnv
  | read env | submit env _ _ _ => some env
  | pull _ _ _ | evict _ => none

/-- **Every operation keeps the agreement**, when the session that it builds has something to attempt. -/
theorem Agreed.run {s : Store SessionApp} (ha : Agreed s.db s.kv) (cfg : Settings) (op : SessionOp)
    (hnew : ∀ env, op.request = some env → Renews s env) : Agreed (op.run cfg s).db (op.run cfg s).kv := by
  cases op with
  | read env =>
    obtain ⟨slots, rows', redis', response, hexec, hserves, -⟩ := exec_getTodaySession ha.toKept env
    rw [SessionOp.run, hexec]
    exact hserves.agreed ha (hnew env rfl)
  | submit env e tx payload =>
    obtain ⟨slots, rows', redis', hserves, grading, hdb, hkv, res, -, houtcome⟩ :=
      exec_buildAndStoreAttempt ha.toKept cfg env e tx payload
    rw [SessionOp.run, hdb]
    exact (hserves.agreed ha (hnew env rfl)).submitted (hserves.stored ha.ids) hkv houtcome
  | pull id version now =>
    refine ⟨ha.toKept.run cfg (.pull id version now), ?_⟩
    rcases exec_pullExercise id version now s with hs | hs <;> rw [SessionOp.run, hs]
    · exact ha.agrees
    · intro d slots huuids hd
      rw [stored_without] at hd
      split at hd
      · cases hd
      · rename_i hnot
        rw [completedOn_without hnot]
        exact ha.agrees d slots huuids hd
  | evict lost => exact ⟨ha.toKept.run cfg (.evict lost), ha.agrees⟩

/-! ## What reads say -/

/-- A read says that the session is completed exactly when its row, as the read leaves it, has `completed_at`. -/
def CompletionAgrees (s : Store SessionApp) (env : SessionEnv) : Prop :=
  ∃ response, ((getTodaySession env).exec s.db s).res = .ok response ∧
    (response.completed = true ↔ ((getTodaySession env).exec s.db s).store.db.completedOn env.today = true)

theorem Agreed.completionAgrees {s : Store SessionApp} (ha : Agreed s.db s.kv) (hnew : Renews s env) :
    CompletionAgrees s env := by
  obtain ⟨slots, rows', redis', response, hexec, hserves, hcompleted⟩ := exec_getTodaySession ha.toKept env
  refine ⟨response, by rw [hexec], ?_⟩
  have hagreed := hserves.agreed ha hnew
  rw [hexec, hcompleted]
  by_cases hne : slots = []
  · cases hserves with
    | there _ hslots => exact absurd hne hslots
    | nothing hnone => simp [not_completedOn hnone]
    | built _ hslots => exact absurd hne hslots
  · obtain ⟨hstored, huuids⟩ := hserves.stored ha.ids hne
    simp [hne, hagreed.agrees _ _ huuids hstored]

theorem completedOn_insertSession (h : rows.stored d = none) : (insertSession d slots rows).completedOn d = false := by
  have hbefore := not_completedOn h
  rw [SessionTables.completedOn] at hbefore
  rw [SessionTables.completedOn, sessions_insertSession, List.any_append, hbefore]
  simp

/-- A read that builds a session with nothing to attempt says that it is completed. -/
theorem CompletionAgrees.renews {s : Store SessionApp} (h : CompletionAgrees s env) (hk : Kept s.db s.kv) :
    Renews s env := by
  intro hnone hne
  obtain ⟨response, hres, hagrees⟩ := h
  obtain ⟨slots, rows', redis', response', hexec, hserves, hcompleted⟩ := exec_getTodaySession hk env
  rw [hexec] at hres hagrees
  cases hres
  cases hserves with
  | there hstored =>
    rw [hnone] at hstored
    cases hstored
  | nothing _ hnil => exact absurd hnil hne
  | built =>
    rw [completedOn_insertSession hnone, hcompleted, Bool.and_eq_true, decide_eq_true_eq] at hagrees
    rw [← Bool.not_eq_true]
    exact fun hall => Bool.false_ne_true (hagrees.mp ⟨hne, hall⟩)

/-- A read of a session that is stored. -/
theorem CompletionAgrees.agrees {s : Store SessionApp} (h : CompletionAgrees s env) (hk : Kept s.db s.kv)
    (hstored : s.db.stored env.today = some (slotDicts slots)) (huuids : HaveUuids slots) (hne : slots ≠ []) :
    s.db.completedOn env.today = true ↔ allAttempted (s.db.attemptedIds env.today) slots = true := by
  obtain ⟨response, hres, hagrees⟩ := h
  obtain ⟨slots', rows', redis', response', hexec, hserves, hcompleted⟩ := exec_getTodaySession hk env
  rw [hexec] at hres hagrees
  cases hres
  cases hserves with
  | there hstored' _ huuids' =>
    obtain rfl := slotDicts_inj huuids huuids' (Option.some.inj (hstored.symm.trans hstored'))
    rw [← hagrees, hcompleted]
    simp [hne]
  | nothing hnone => cases hstored.symm.trans hnone
  | built hnone => cases hstored.symm.trans hnone

/-- Where every slot is attempted, a submission is refused. -/
theorem Outcome.refused_of_allAttempted {cat : Catalog} {res : Except Err AttemptResponse} {user : UserRows}
    (h : Outcome cfg ((inSession env slots e).envOf cat payload) tx payload rows.grading.user res user)
    (hall : allAttempted (rows.attemptedIds env.today) slots = true) : user = rows.grading.user := by
  cases h with
  | refused => rfl
  | recorded hc hattempted =>
    exfalso
    unfold checked at hc
    split at hc
    · rename_i hslot
      obtain ⟨s, hs, hmatch⟩ := List.any_eq_true.mp hslot
      obtain ⟨s', hs', rfl⟩ := List.mem_map.mp hs
      have hid := beq_iff_eq.mp (Bool.and_eq_true_iff.mp hmatch).1
      obtain ⟨a, ha, hdate, he⟩ := mem_attemptedIds.mp (allAttempted_iff.mp hall s' hs')
      have hnot := List.any_eq_false.mp hattempted a ha
      exact hnot (by rw [he, hid, hdate]; simp [Submitting.envOf, inSession])
    · cases hc

/-- A submission to a session that it builds with nothing to attempt is refused, and the next read says that the
session is completed. -/
theorem CompletionAgrees.renews_submit {s : Store SessionApp} (hk : Kept s.db s.kv)
    (h : ((SessionOp.submit env e tx payload).run cfg s).db.stored env.today ≠ none →
      CompletionAgrees ((SessionOp.submit env e tx payload).run cfg s) env) : Renews s env := by
  intro hnone hne
  have hk' := hk.run cfg (.submit env e tx payload)
  obtain ⟨slots, rows', redis', hserves, grading, hdb, -, res, -, houtcome⟩ :=
    exec_buildAndStoreAttempt hk cfg env e tx payload
  cases hserves with
  | there hstored =>
    rw [hnone] at hstored
    cases hstored
  | nothing _ hnil => exact absurd hnil hne
  | built =>
    rw [← Bool.not_eq_true]
    intro hall
    let built := insertSession env.today (sampledSlots env s.db) s.db
    let after : SessionTables := { built with grading := grading }
    have huser : grading.user = built.grading.user := houtcome.refused_of_allAttempted hall
    have hdates : after.sessions.map (·.sessionDate) = built.sessions.map (·.sessionDate) := by
      rw [SessionTables.sessions, huser]
      rfl
    have hstored : ((SessionOp.submit env e tx payload).run cfg s).db.stored env.today =
        some (slotDicts (sampledSlots env s.db)) := by
      have hsame : after.stored env.today = built.stored env.today := stored_congr hdates rfl
      rw [SessionOp.run, hdb]
      rw [stored_insertSession, if_pos rfl] at hsame
      exact hsame
    have hagrees := (h (by rw [hstored]; simp)).agrees hk' hstored (haveUuids_sampledSlots hk.ids) hne
    have hrow : built.completedOn env.today = false := completedOn_insertSession hnone
    rw [SessionOp.run, hdb] at hagrees
    simp only [SessionTables.completedOn, SessionTables.attemptedIds, SessionTables.sessions, huser] at hagrees hrow hall
    rw [hrow] at hagrees
    exact Bool.false_ne_true (hagrees.mpr hall)

/-- Every operation of the run that may build a session would build one that has something to attempt. -/
def SessionsRenew (cfg : Settings) (s : Store SessionApp) (pre : List SessionOp) (op : SessionOp) : Prop :=
  ∀ env, op.request = some env → Renews (pre.foldl (SessionOp.run cfg) s) env

/-- The reads of the run agree with the rows; and in the state that an operation leaves, every read of a session that
is stored. -/
def CompletionsAgree (cfg : Settings) (s : Store SessionApp) (pre : List SessionOp) (op : SessionOp) : Prop :=
  (∀ env, op = .read env → CompletionAgrees (pre.foldl (SessionOp.run cfg) s) env) ∧
    ∀ env, (op.run cfg (pre.foldl (SessionOp.run cfg) s)).db.stored env.today ≠ none →
      CompletionAgrees (op.run cfg (pre.foldl (SessionOp.run cfg) s)) env

/-- A user without sessions; the exercises have UUIDs. -/
structure NoSessions (s : Store SessionApp) : Prop where
  rows : s.db.sessions = []
  cache : ∀ d, s.kv.sessions d = none
  ids : ∀ e ∈ s.db.exercises.rows, e.id < 2 ^ 128

theorem NoSessions.agreed {s : Store SessionApp} (h : NoSessions s) : Agreed s.db s.kv := by
  have hnone : ∀ d, s.db.stored d = none := by
    intro d
    simp [SessionTables.stored, h.rows]
  refine ⟨⟨h.ids, ?_, fun d list hd => ?_, fun d text hd => ?_⟩, fun d slots _ hd => ?_⟩
  · rw [h.rows]
    exact List.nodup_nil
  · cases (hnone d).symm.trans hd
  · cases (h.cache d).symm.trans hd
  · cases (hnone d).symm.trans hd

theorem Agreed.steps {s : Store SessionApp} (h : Agreed s.db s.kv) {ops : List SessionOp}
    (hops : Steps (SessionsRenew cfg s) ops) :
    Agreed (ops.foldl (SessionOp.run cfg) s).db (ops.foldl (SessionOp.run cfg) s).kv := by
  induction ops using List.reverseRecOn with
  | nil => exact h
  | append_singleton ops op ih =>
    obtain ⟨hbefore, hlast⟩ := steps_append_singleton.mp hops
    rw [List.foldl_append]
    exact (ih hbefore).run cfg op hlast

/-- **Completion**: in every run from a user without sessions, the reads and the rows agree exactly when every session
that is built has something to attempt; and at most one submission reports the first completed session. -/
theorem completion_agrees (cfg : Settings) {s : Store SessionApp} (h : NoSessions s) (ops : List SessionOp) :
    (Steps (CompletionsAgree cfg s) ops ↔ Steps (SessionsRenew cfg s) ops) ∧ firstReports cfg s ops ≤ 1 := by
  refine ⟨steps_iff fun pre op _ hrenew => ?_, (firstReports_le h.agreed.toKept cfg ops).1⟩
  have hagreed := h.agreed.steps hrenew
  constructor
  · rintro ⟨hread, hstate⟩ env hrequest
    cases op with
    | read env' =>
      cases hrequest
      exact (hread env rfl).renews hagreed.toKept
    | submit env' e tx payload =>
      cases hrequest
      exact CompletionAgrees.renews_submit hagreed.toKept (hstate env)
    | pull => cases hrequest
    | evict => cases hrequest
  · intro hnew
    refine ⟨?_, fun env hstored => (hagreed.run cfg op hnew).completionAgrees fun hnone => absurd hnone hstored⟩
    rintro env rfl
    exact hagreed.completionAgrees (hnew env rfl)

/-! ### Runs of a small deployment -/

/-- A right answer on day 0. -/
def answer (id : ExerciseId) : SessionOp :=
  .submit (requestOn 0) ⟨⟨false, 0, [], none, id, 0, ""⟩, .ok (.deterministic true), ""⟩
    ⟨id, fun k => 100 * id + k, id⟩ ⟨id, 1, "", none⟩

/-- The only exercise is answered: the session is completed, for its reader and in its row. -/
theorem completion_agrees_answered :
    Steps (CompletionsAgree .default (newUserWith oneExercise)) ([answer 1] ++ [.read (requestOn 0)]) ∧
      firstReports .default (newUserWith oneExercise) [answer 1, .read (requestOn 0)] = 1 := by
  have hnew : NoSessions (newUserWith oneExercise) := ⟨rfl, fun _ => rfl, by decide +kernel⟩
  refine ⟨(completion_agrees .default hnew _).1.mpr ?_, by decide +kernel⟩
  refine steps_append_singleton.mpr ⟨steps_append_singleton.mpr ⟨steps_nil, ?_⟩, ?_⟩
  · rintro env ⟨⟩ - -
    decide +kernel
  · rintro env ⟨⟩ hnone
    exact absurd hnone (by decide +kernel)

/-- One of two exercises is answered and the other pulled: the new session has nothing but the first, so it is completed
for its reader and in no row. -/
theorem completion_breaks : ¬ Steps (CompletionsAgree .default (newUserWith twoExercises))
    [answer 1, .pull 2 1 0, .read (requestOn 0)] := by
  intro h
  obtain ⟨hread, -⟩ := h [answer 1, .pull 2 1 0] (.read (requestOn 0)) List.prefix_rfl
  obtain ⟨response, hres, hagrees⟩ := hread _ rfl
  have hcompleted : ((((getTodaySession (requestOn 0)).exec
      ([answer 1, .pull 2 1 0].foldl (SessionOp.run .default) (newUserWith twoExercises)).db
      ([answer 1, .pull 2 1 0].foldl (SessionOp.run .default) (newUserWith twoExercises))).res).toOption.map
        (·.completed)) = some true := by
    decide +kernel
  rw [hres] at hcompleted
  have hrow := hagrees.mp (Option.some.inj hcompleted)
  exact absurd hrow (by decide +kernel)

end CodeReader.Sessions
