import CodeReader.Core.Rows
import CodeReader.Exercises.Spec
import CodeReader.Sessions.Service

/-!
# What the statements of sessions do

* `slotsFromDicts_slotDicts`, `loads_slotDicts` — **the codec**: stored or cached, the slots are read back;
* `sampledSlots` — the session that would be sampled;
* `exec_getTodaySlots` — the slots of a request alone: the session that is there, or a new one;
* `Kept` — what is cached is stored, and what is stored are slots;
* `exec_pullExercise` — a pull alone.
-/

namespace CodeReader.Sessions

open Txn Prog Grading Text

/-! ## The codec -/

/-- The exercises of the slots have UUIDs. -/
def HaveUuids (slots : List SessionSlot) : Prop := ∀ s ∈ slots, s.exerciseId < 2 ^ 128

theorem slotFromDict_slotDict {s : SessionSlot} (h : s.exerciseId < 2 ^ 128) : slotFromDict (slotDict s) = some s := by
  have huuid := uuidOfText_uuidText h
  simp [slotFromDict, slotDict, Json.get?, huuid]

/-- **Encoded and decoded.** -/
theorem slotsFromDicts_slotDicts {slots : List SessionSlot} (h : HaveUuids slots) :
    slotsFromDicts (slotDicts slots) = some slots := by
  unfold slotsFromDicts slotDicts
  dsimp only
  induction slots with
  | nil => rfl
  | cons s slots ih =>
    rw [List.map_cons, List.mapM_cons, slotFromDict_slotDict (h s List.mem_cons_self),
      ih fun s' hs' => h s' (List.mem_cons_of_mem _ hs')]
    rfl

theorem slotDicts_inj {slots slots' : List SessionSlot} (h : HaveUuids slots) (h' : HaveUuids slots')
    (he : slotDicts slots = slotDicts slots') : slots = slots' := by
  have hslots := slotsFromDicts_slotDicts h
  rw [he, slotsFromDicts_slotDicts h'] at hslots
  exact (Option.some.inj hslots).symm

/-- **Written to the cache and read back.** -/
theorem loads_slotDicts {slots : List SessionSlot} (h : HaveUuids slots) :
    (Json.loads (Json.dumps (slotDicts slots))).bind slotsFromDicts = some slots := by
  rw [Json.loads_dumps, Option.bind_some, slotsFromDicts_slotDicts h]

theorem nonempty_slotDicts {slots : List SessionSlot} : nonempty (slotDicts slots) = true ↔ slots ≠ [] := by
  cases slots <;> simp [nonempty, slotDicts]

theorem uuidText_inj {m n : Nat} (hm : m < 2 ^ 128) (hn : n < 2 ^ 128) (h : uuidText m = uuidText n) : m = n := by
  have hm' := uuidOfText_uuidText hm
  rw [h, uuidOfText_uuidText hn] at hm'
  exact (Option.some.inj hm').symm

theorem mentions_slotDicts {slots : List SessionSlot} {id : ExerciseId} (h : HaveUuids slots) (hid : id < 2 ^ 128) :
    mentions id (slotDicts slots) = true ↔ ∃ s ∈ slots, s.exerciseId = id := by
  have hdict : ∀ s : SessionSlot, (slotDict s).get? "exercise_id" = some (.str (uuidText s.exerciseId)) := by
    intro s
    simp [slotDict, Json.get?]
  simp only [mentions, slotDicts, List.any_map, List.any_eq_true, Function.comp, hdict, beq_iff_eq]
  constructor
  · rintro ⟨s, hs, he⟩
    exact ⟨s, hs, uuidText_inj (h s hs) hid he⟩
  · rintro ⟨s, hs, rfl⟩
    exact ⟨s, hs, rfl⟩

/-! ## Rows -/

variable {d d' : Int} {rows rows' : SessionTables} {redis : SessionRedis} {slots : List SessionSlot} {env : SessionEnv}

theorem stored_isSome : (rows.stored d).isSome = true ↔ ∃ row ∈ rows.sessions, row.sessionDate = d := by
  unfold SessionTables.stored
  split
  · rename_i h
    simpa using h
  · rename_i h
    simpa using h

theorem stored_congr (hdates : rows'.sessions.map (·.sessionDate) = rows.sessions.map (·.sessionDate))
    (hlist : rows'.exerciseList = rows.exerciseList) : rows'.stored d = rows.stored d := by
  have hany : ∀ l : List DailySession, l.any (·.sessionDate == d) = (l.map (·.sessionDate)).any (· == d) := by
    intro l
    rw [List.any_map]
    rfl
  simp only [SessionTables.stored, hany, hdates, hlist]

/-- The sessions with the one of the date completed. -/
def completedRows (today now : Int) (sessions : List DailySession) : List DailySession :=
  sessions.map fun s => if s.sessionDate = today then { s with completedAt := some now } else s

theorem dates_completedRows {today now : Int} {sessions : List DailySession} :
    (completedRows today now sessions).map (·.sessionDate) = sessions.map (·.sessionDate) := by
  apply Rows.map_update
  exact fun _ => rfl

@[simp] theorem sessions_setSessions (sessions : List DailySession) : (rows.setSessions sessions).sessions = sessions :=
  rfl

theorem sessions_insertSession : (insertSession d slots rows).sessions = rows.sessions ++ [⟨d, none⟩] := rfl

theorem stored_insertSession :
    (insertSession d slots rows).stored d' = if d' = d then some (slotDicts slots) else rows.stored d' := by
  unfold SessionTables.stored
  rw [sessions_insertSession]
  by_cases h : d' = d
  · subst h
    simp [insertSession]
  · have hne : ¬ d = d' := fun he => h he.symm
    simp [insertSession, SessionTables.setSessions, h, hne]

theorem sessions_cache : (redis.cache d slots).sessions d' =
    if d' = d then some (Json.dumps (slotDicts slots)) else redis.sessions d' := by
  simp [SessionRedis.cache, Function.update_apply]

theorem sessions_delete : (redis.delete d).sessions d' =
    if d' = d then none else redis.sessions d' := by
  simp [SessionRedis.delete, Function.update_apply]

/-! ## The sampled session -/

def candidateTypes (env : SessionEnv) : List String :=
  if env.summarizeEnabled && !env.degraded then allCandidateTypes else deterministicTypes

/-- The session that a request would sample from the tables. -/
def sampledSlots (env : SessionEnv) (rows : SessionTables) : List SessionSlot :=
  buildSessionSlots ⟨dueConcepts env rows, conceptMastery rows, recentlySeen env rows, levelDifficulty env.level,
    levelBand env.level, env.setOrder⟩ (fetchedCandidates env (candidateTypes env) rows)

theorem mem_fetchedCandidates {types : List String} {c : Candidate} (h : c ∈ fetchedCandidates env types rows) :
    ∃ e ∈ fetchCandidates rows.exercises "python" types, c.id = e.id ∧ c.version = e.version := by
  obtain ⟨e, he, rfl⟩ := List.mem_map.mp h
  exact ⟨e, (env.exerciseOrder.perm _).mem_iff.mp he, rfl, rfl⟩

/-- Every slot of a session that is built from them is of an exercise. -/
theorem haveUuids_buildSessionSlots (h : ∀ e ∈ rows.exercises.rows, e.id < 2 ^ 128) (S : Sampling) (env : SessionEnv)
    (types : List String) : HaveUuids (buildSessionSlots S (fetchedCandidates env types rows)) := by
  intro s hs
  obtain ⟨c, hc, hid, -⟩ := mem_buildSessionSlots hs
  obtain ⟨e, he, hid', -⟩ := mem_fetchedCandidates hc
  rw [hid, hid']
  exact h e (List.mem_of_mem_filter (List.mem_of_mem_filter he))

theorem haveUuids_sampledSlots (h : ∀ e ∈ rows.exercises.rows, e.id < 2 ^ 128) : HaveUuids (sampledSlots env rows) :=
  haveUuids_buildSessionSlots h _ _ _

/-! ## Alone -/

theorem exec_sampleSession (s : Store SessionApp) (h : rows.stored env.today = none) :
    (sampleSession env).exec rows s =
      if sampledSlots env rows = [] then ⟨.ok [], rows, s⟩
      else ⟨.ok (sampledSlots env rows), insertSession env.today (sampledSlots env rows) rows,
        ⟨insertSession env.today (sampledSlots env rows) rows, s.kv⟩⟩ := by
  unfold sampleSession
  simp only [query_bind, exec_select]
  change (persistSession env (sampledSlots env rows)).exec rows s = _
  unfold persistSession
  simp only [note_bind, exec_emit]
  split
  · rfl
  · simp only [lockOn_bind, exec_lock, query_bind, exec_select, h]
    rfl

theorem exec_buildAndCache (s : Store SessionApp) (h : rows.stored env.today = none) :
    (buildAndCache env).exec rows s =
      if sampledSlots env rows = [] then ⟨.ok [], rows, s⟩
      else ⟨.ok (sampledSlots env rows), insertSession env.today (sampledSlots env rows) rows,
        ⟨insertSession env.today (sampledSlots env rows) rows, s.kv.cache env.today (sampledSlots env rows)⟩⟩ := by
  unfold buildAndCache buildAndPersistSession
  simp only [lockOn_bind, lock_bind, exec_lock, query_bind, select_bind, exec_select, h]
  rw [exec_bind, exec_sampleSession s h]
  split
  · rfl
  · rename_i hslots
    simp only [andThen, if_neg hslots]
    rfl

/-- What is cached is stored, and what is stored are slots. -/
structure Kept (rows : SessionTables) (redis : SessionRedis) : Prop where
  ids : ∀ e ∈ rows.exercises.rows, e.id < 2 ^ 128
  dates : (rows.sessions.map (·.sessionDate)).Nodup
  listed : ∀ d list, rows.stored d = some list → ∃ slots, slots ≠ [] ∧ HaveUuids slots ∧ list = slotDicts slots
  cached : ∀ d text, redis.sessions d = some text → ∃ list, rows.stored d = some list ∧ text = Json.dumps list

/-- The slots that a request gets, and what it leaves: of the session that is there, none, or of a new session. -/
inductive Serves (env : SessionEnv) (rows : SessionTables) (redis : SessionRedis) :
    List SessionSlot → SessionTables → SessionRedis → Prop
  | there {slots : List SessionSlot} {redis' : SessionRedis} : rows.stored env.today = some (slotDicts slots) →
      slots ≠ [] → HaveUuids slots → (redis' = redis ∨ redis' = redis.cache env.today slots) →
      Serves env rows redis slots rows redis'
  | nothing : rows.stored env.today = none → sampledSlots env rows = [] → Serves env rows redis [] rows redis
  | built : rows.stored env.today = none → sampledSlots env rows ≠ [] →
      Serves env rows redis (sampledSlots env rows) (insertSession env.today (sampledSlots env rows) rows)
        (redis.cache env.today (sampledSlots env rows))

/-- **The slots of a request alone.** -/
theorem exec_getTodaySlots (h : Kept rows redis) (env : SessionEnv) :
    ∃ slots rows' redis', (getTodaySlots env).exec rows ⟨rows, redis⟩ = ⟨.ok slots, rows', ⟨rows', redis'⟩⟩ ∧
      Serves env rows redis slots rows' redis' := by
  unfold getTodaySlots cachedSession
  simp only [cmd_bind, exec_kv]
  cases hcached : redis.sessions env.today with
  | some text =>
    obtain ⟨list, hstored, rfl⟩ := h.cached _ _ hcached
    obtain ⟨slots, hne, huuids, rfl⟩ := h.listed _ _ hstored
    refine ⟨slots, rows, redis, ?_, .there hstored hne huuids (.inl rfl)⟩
    simp only [loads_slotDicts huuids, decoded]
    rfl
  | none =>
    simp only [query_bind, exec_select]
    cases hstored : rows.stored env.today with
    | some list =>
      obtain ⟨slots, hne, huuids, rfl⟩ := h.listed _ _ hstored
      refine ⟨slots, rows, _, ?_, .there hstored hne huuids (.inr rfl)⟩
      simp only [nonempty_slotDicts.mpr hne, if_true, slotsFromDicts_slotDicts huuids, decoded]
      rfl
    | none =>
      dsimp only
      rw [exec_buildAndCache _ hstored]
      by_cases hslots : sampledSlots env rows = []
      · rw [if_pos hslots]
        exact ⟨[], rows, redis, rfl, .nothing hstored hslots⟩
      · rw [if_neg hslots]
        exact ⟨_, _, _, rfl, .built hstored hslots⟩

theorem Serves.kept {redis' : SessionRedis} {rows' : SessionTables} (h : Serves env rows redis slots rows' redis')
    (hk : Kept rows redis) : Kept rows' redis' := by
  cases h with
  | there hstored hne huuids hredis =>
    refine ⟨hk.ids, hk.dates, hk.listed, fun d text hd => ?_⟩
    rcases hredis with rfl | rfl
    · exact hk.cached d text hd
    · rw [sessions_cache] at hd
      split at hd
      · rename_i he
        subst he
        exact ⟨_, hstored, (Option.some.inj hd).symm⟩
      · exact hk.cached d text hd
  | nothing hstored hslots => exact hk
  | built hstored hslots =>
    have hnone : ∀ row ∈ rows.sessions, row.sessionDate ≠ env.today := by
      intro row hrow he
      have hsome := stored_isSome.mpr ⟨row, hrow, he⟩
      rw [hstored] at hsome
      cases hsome
    refine ⟨hk.ids, ?_, fun d list hd => ?_, fun d text hd => ?_⟩
    · rw [sessions_insertSession]
      exact Rows.nodup_insert hk.dates hnone
    · rw [stored_insertSession] at hd
      split at hd
      · cases hd
        exact ⟨_, hslots, haveUuids_sampledSlots hk.ids, rfl⟩
      · exact hk.listed d list hd
    · rw [stored_insertSession]
      rw [sessions_cache] at hd
      split at hd
      · rename_i he
        exact ⟨_, if_pos he, (Option.some.inj hd).symm⟩
      · rename_i he
        rw [if_neg he]
        exact hk.cached d text hd

/-! ## Pulls -/

/-- The rows without the sessions of the dates. -/
def SessionTables.without (dates : List Int) (rows : SessionTables) : SessionTables :=
  rows.setSessions (rows.sessions.filter fun row => !dates.contains row.sessionDate)

/-- The cache without the sessions of the dates. -/
def SessionRedis.without (dates : List Int) (redis : SessionRedis) : SessionRedis :=
  dates.foldl (fun redis d => redis.delete d) redis

theorem without_without (dates dates' : List Int) : (rows.without dates).without dates' = rows.without (dates ++ dates') := by
  have hp : (fun row : DailySession => !dates'.contains row.sessionDate && !dates.contains row.sessionDate) =
      fun row => !(dates ++ dates').contains row.sessionDate := by
    funext row
    rw [List.contains_append, Bool.not_or, Bool.and_comm]
  simp only [SessionTables.without, sessions_setSessions, List.filter_filter, hp]
  rfl

theorem without_of_none {dates : List Int} (h : ∀ d ∈ dates, rows.stored d = none) : rows.without dates = rows := by
  have hall : rows.sessions.filter (fun row => !dates.contains row.sessionDate) = rows.sessions := by
    rw [List.filter_eq_self]
    intro row hrow
    rw [Bool.not_eq_true', ← Bool.not_eq_true, List.contains_iff_mem]
    intro hd
    have hsome := stored_isSome.mpr ⟨row, hrow, rfl⟩
    rw [h _ hd] at hsome
    cases hsome
  rw [SessionTables.without, hall]
  rfl

theorem exerciseList_of_stored {list : Json} (h : rows.stored d = some list) : rows.exerciseList d = list := by
  unfold SessionTables.stored at h
  split at h
  · exact Option.some.inj h
  · cases h

theorem deleteSeen_of_stored {seen : Json} (h : rows.stored d = some seen) : deleteSeen d seen rows = rows.without [d] := by
  have hp : (fun row : DailySession => row.sessionDate != d) = fun row => !([d].contains row.sessionDate) := by
    funext row
    rw [List.contains_cons, List.contains_nil, Bool.or_false]
    rfl
  rw [deleteSeen, if_pos (by rw [exerciseList_of_stored h]), SessionTables.without, hp]

theorem exec_deleteSession (d : Int) (cur : SessionTables) (s : Store SessionApp) :
    (deleteSession d).exec cur s = ⟨.ok (), cur.without [d], s⟩ := by
  simp only [deleteSession, query_bind, exec_select]
  cases hstored : cur.stored d with
  | none =>
    have hsame : cur.without [d] = cur := without_of_none fun d' hd => by
      rw [List.mem_singleton.mp hd]
      exact hstored
    rw [hsame]
    rfl
  | some seen =>
    rw [← deleteSeen_of_stored hstored]
    rfl

theorem exec_deleteSessions (dates : List Int) (cur : SessionTables) (s : Store SessionApp) :
    (deleteSessions dates).exec cur s = ⟨.ok (), cur.without dates, s⟩ := by
  induction dates generalizing cur with
  | nil =>
    rw [without_of_none fun d hd => absurd hd List.not_mem_nil]
    rfl
  | cons d dates ih =>
    rw [deleteSessions, exec_bind, exec_deleteSession]
    simp only [andThen]
    rw [ih, without_without]
    rfl

theorem exec_deleteCachedSessions (dates : List Int) (cur : SessionTables) (s : Store SessionApp) :
    (deleteCachedSessions dates).exec cur s = ⟨.ok (), cur, ⟨s.db, s.kv.without dates⟩⟩ := by
  induction dates generalizing s with
  | nil => rfl
  | cons d dates ih =>
    simp only [deleteCachedSessions, note_bind, exec_emit, deleteCached, cmd_bind, exec_kv]
    rw [ih]
    rfl

theorem sessions_without {dates : List Int} : (redis.without dates).sessions d =
    if d ∈ dates then none else redis.sessions d := by
  induction dates generalizing redis with
  | nil => rfl
  | cons d' dates ih =>
    have hcons : redis.without (d' :: dates) = (redis.delete d').without dates := rfl
    rw [hcons, ih, sessions_delete]
    by_cases hd : d ∈ dates
    · rw [if_pos hd, if_pos (List.mem_cons_of_mem _ hd)]
    · by_cases he : d = d' <;> simp [hd, he]

theorem stored_without {dates : List Int} : (rows.without dates).stored d =
    if d ∈ dates then none else rows.stored d := by
  unfold SessionTables.stored SessionTables.without
  rw [sessions_setSessions, List.any_filter]
  by_cases hd : d ∈ dates
  · rw [if_pos hd, if_neg]
    simp only [List.any_eq_true, not_exists, not_and]
    intro row hrow hrow'
    obtain ⟨hnot, he⟩ := Bool.and_eq_true_iff.mp hrow'
    rw [beq_iff_eq.mp he] at hnot
    simp [hd] at hnot
  · have hany : (fun row : DailySession => !dates.contains row.sessionDate && row.sessionDate == d) =
        fun row => row.sessionDate == d := by
      funext row
      by_cases he : row.sessionDate = d
      · simp [he, hd]
      · simp [he]
    rw [if_neg hd, hany]
    rfl

/-- The tables with the exercise pulled. -/
def SessionTables.pulled (id : ExerciseId) (version : Int) (rows : SessionTables) : SessionTables :=
  { rows with exercises := rows.exercises.setRow id version { status := some .pulled } }

/-- **A pull alone**: the row is pulled, and the sessions that it is about are gone; or nothing. -/
theorem exec_pullExercise (id : ExerciseId) (version now : Int) (s : Store SessionApp) :
    let r := (pullExercise id version now).exec s.db s
    let dates := purgedDates id (servableCutoff now) s.db
    r.store = s ∨ r.store = ⟨(s.db.pulled id version).without dates, s.kv.without dates⟩ := by
  intro r dates
  simp only [r, pullExercise, query_bind, exec_select]
  split
  · exact .inl rfl
  · right
    simp only [lockOn_bind, exec_lock, update_bind, exec_write, purgeSessionsReferencing, note_bind, exec_emit, query_bind,
      exec_select]
    rw [exec_bind, exec_deleteSessions]
    simp only [andThen, commitTx_bind, exec_commit]
    rw [exec_bind, exec_deleteCachedSessions]
    rfl

/-! ## A small deployment

What the witnesses and counterexamples of later modules run. -/

def RowOrder.same (α : Type) : RowOrder α := ⟨id, fun _ => .refl _⟩

def dailyExercise (id : ExerciseId) : Exercise where
  id := id
  version := 1
  language := "python"
  type := "trace"
  gradingMode := "deterministic"
  difficultyAuthored := ⟨5, by decide⟩
  concepts := ⟨["scope"], by decide⟩
  tags := []
  estTimeS := 90
  status := .live
  source := ""
  payload := ""
  grading := ""
  explanation := ""
  validationReportUrl := none
  humanReviewed := true
  validatedAt := some 0
  publishedAt := some 0

/-- A user of the middle level, in UTC. -/
def requestOn (today : Int) : SessionEnv :=
  ⟨"mid", today, fun d => (d + 1) * microsPerDay, today * microsPerDay, false, false, .same _, .same _, .same _⟩

/-- A new user, with some exercises. -/
def newUserWith (exercises : Exercises) : Store SessionApp :=
  ⟨⟨.created "UTC", fun _ => .arr [], exercises, fun _ _ => none, fun _ _ => 0⟩,
    ⟨⟨fun _ => none, fun _ => false⟩, fun _ => none⟩⟩

def oneExercise : Exercises := ⟨[dailyExercise 1], by decide⟩
def twoExercises : Exercises := ⟨[dailyExercise 1, dailyExercise 2], by decide⟩

end CodeReader.Sessions
