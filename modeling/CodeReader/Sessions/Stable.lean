import CodeReader.Grading.Concurrent
import CodeReader.Sessions.Spec
import CodeReader.Txn.Commits

/-!
# One session a day

Any number of reads and submissions of one user on one date, interleaved, while Redis loses sessions.

* `SessionRequest`, `Losses` — the requests, and what Redis may lose;
* `OneSession` — **the invariant**: one row of the date, whose slots everyone was served, and whose text is cached;
* `DayRely`, `DayGuarantee` — the row of the date is inserted under its lock, and then stays;
* `wp_getTodaySlots`, `wp_request` — what a request gets is the row.
-/

namespace CodeReader.Sessions

open Txn Prog Grading Text

variable {τ : Type} {d : Int}

/-! ## Requests -/

inductive SessionRequest
  | read (env : SessionEnv)
  | submit (env : SessionEnv) (e : Submitting) (tx : Tx) (payload : AttemptRequest)

namespace SessionRequest

def env : SessionRequest → SessionEnv
  | read env => env
  | submit env _ _ _ => env

def program (cfg : Settings) : SessionRequest → SessionHandler Unit
  | read env => do
    let _ ← getTodaySession env
    ret ()
  | submit env e tx payload => do
    let _ ← buildAndStoreAttempt cfg env e tx payload
    ret ()

end SessionRequest

/-- The requests at their start. -/
def SessionRequests.start (cfg : Settings) (req : τ → SessionRequest) (rows : SessionTables) (redis : SessionRedis) :
    Sys SessionApp τ Unit := .start rows redis fun i => (req i).program cfg

/-- Redis loses any of the sessions. -/
def Losses (redis redis' : SessionRedis) : Prop := ∀ d, redis'.sessions d = none ∨ redis'.sessions d = redis.sessions d

/-! ## The invariant -/

/-- The rows of one date, and its cached session: at most one row, of slots, and what is cached is its text. -/
structure DayKept (d : Int) (rows : SessionTables) (redis : SessionRedis) : Prop where
  ids : ∀ e ∈ rows.exercises.rows, e.id < 2 ^ 128
  one : rows.sessions.countP (·.sessionDate == d) ≤ 1
  listed : ∀ list, rows.stored d = some list → ∃ slots, slots ≠ [] ∧ HaveUuids slots ∧ list = slotDicts slots
  cached : ∀ text, redis.sessions d = some text → ∃ list, rows.stored d = some list ∧ text = Json.dumps list

/-- What everyone was served is the row of the date; it was sampled by a request, or there before. -/
structure OneSession (d : Int) (old : Option Json) (S : Shared SessionApp τ) : Prop extends DayKept d S.db S.kv where
  served : ∀ i slots, (i, .served d slots) ∈ S.trace → slots ≠ [] →
    S.db.stored d = some (slotDicts slots) ∧ HaveUuids slots
  origin : ∀ list, S.db.stored d = some list →
    old = some list ∨ ∃ i slots, (i, .sampled d slots) ∈ S.trace ∧ HaveUuids slots ∧ list = slotDicts slots

/-! ## Rely and guarantee -/

variable {old : Option Json}

/-- What the others do while a request knows `l` of its transaction. -/
structure DayRely (d : Int) (old : Option Json) (l : Local SessionApp) (S S' : Shared SessionApp τ) : Prop where
  sound : OneSession d old S → OneSession d old S'
  stays : ∀ list, S.db.stored d = some list → S'.db.stored d = some list
  locked : .build d ∈ l.held → S.db.stored d = none → S'.db.stored d = none
  trace : ∀ e ∈ S.trace, e ∈ S'.trace

/-- What a statement of a request does: the row of the date appears only under its lock. -/
structure DayGuarantee (d : Int) (old : Option Json) (l : Local SessionApp) (S S' : Shared SessionApp τ) : Prop where
  sound : OneSession d old S → OneSession d old S'
  stays : ∀ list, S.db.stored d = some list → S'.db.stored d = some list
  locked : S'.db.stored d = S.db.stored d ∨ .build d ∈ l.held
  trace : ∀ e ∈ S.trace, e ∈ S'.trace

theorem DayRely.refl (l : Local SessionApp) (S : Shared SessionApp τ) : DayRely d old l S S :=
  ⟨id, fun _ => id, fun _ => id, fun _ => id⟩

theorem DayRely.trans {l : Local SessionApp} {S₁ S₂ S₃ : Shared SessionApp τ} (h : DayRely d old l S₁ S₂)
    (h' : DayRely d old l S₂ S₃) : DayRely d old l S₁ S₃ where
  sound hs := h'.sound (h.sound hs)
  stays list hl := h'.stays list (h.stays list hl)
  locked hheld hnone := h'.locked hheld (h.locked hheld hnone)
  trace e he := h'.trace e (h.trace e he)

/-- The lock of the date has one holder. -/
theorem DayGuarantee.rely {l l' : Local SessionApp} {S S' : Shared SessionApp τ} (h : DayGuarantee d old l S S')
    (hheld : ∀ r ∈ l.held, r ∉ l'.held) : DayRely d old l' S S' where
  sound := h.sound
  stays := h.stays
  locked hl hnone := by
    rcases h.locked with hsame | hl'
    · rw [hsame]
      exact hnone
    · exact absurd hl (hheld _ hl')
  trace := h.trace

theorem DayRely.outside (l : Local SessionApp) (S : Shared SessionApp τ) {redis : SessionRedis} (h : Losses S.kv redis) :
    DayRely d old l S { S with kv := redis } where
  sound hs := by
    refine ⟨⟨hs.ids, hs.one, hs.listed, fun text hd => ?_⟩, hs.served, hs.origin⟩
    rcases h d with hnone | hsame
    · rw [hnone] at hd
      cases hd
    · rw [hsame] at hd
      exact hs.cached text hd
  stays _ := id
  locked _ := id
  trace _ := id

/-! ### The statements of a request -/

section Statements

variable {l : Local SessionApp} {S : Shared SessionApp τ} {slots : List SessionSlot}

/-- A command of Redis that leaves its sessions. -/
theorem DayGuarantee.store {redis : SessionRedis} (h : redis.sessions = S.kv.sessions) :
    DayGuarantee d old l S { S with kv := redis } where
  sound hs := ⟨⟨hs.ids, hs.one, hs.listed, fun text hd => hs.cached text (h ▸ hd)⟩, hs.served, hs.origin⟩
  stays _ := id
  locked := .inl rfl
  trace _ := id

/-- The row is cached. -/
theorem DayGuarantee.cache (h : S.db.stored d = some (slotDicts slots)) :
    DayGuarantee d old l S { S with kv := S.kv.cache d slots } where
  sound hs := by
    refine ⟨⟨hs.ids, hs.one, hs.listed, fun text hd => ?_⟩, hs.served, hs.origin⟩
    dsimp only at hd
    rw [sessions_cache, if_pos rfl] at hd
    exact ⟨_, h, (Option.some.inj hd).symm⟩
  stays _ := id
  locked := .inl rfl
  trace _ := id

theorem DayGuarantee.observe {i : τ} {e : SessionEv}
    (h : ∀ slots, e = .served d slots → slots ≠ [] → S.db.stored d = some (slotDicts slots) ∧ HaveUuids slots) :
    DayGuarantee d old l S { S with trace := S.trace ++ [(i, e)] } where
  sound hs := by
    refine ⟨hs.toDayKept, fun j slots hmem hne => ?_, fun list hd => ?_⟩
    · rcases List.mem_append.mp hmem with hmem | hmem
      · exact hs.served j slots hmem hne
      · rw [List.mem_singleton, Prod.mk.injEq] at hmem
        exact h slots hmem.2.symm hne
    · rcases hs.origin list hd with hold | ⟨j, slots, hmem, he⟩
      · exact .inl hold
      · exact .inr ⟨j, slots, List.mem_append_left _ hmem, he⟩
  stays _ := id
  locked := .inl rfl
  trace e he := List.mem_append_left _ he

/-- The write leaves the dates of the sessions, their lists, and the exercises. -/
def LeavesSessions (f : SessionTables → SessionTables) : Prop := ∀ rows,
  (f rows).sessions.map (·.sessionDate) = rows.sessions.map (·.sessionDate) ∧ (f rows).exerciseList = rows.exerciseList ∧
    (f rows).exercises = rows.exercises

theorem LeavesSessions.stored {f : SessionTables → SessionTables} (h : LeavesSessions f) (rows : SessionTables) :
    (f rows).stored d = rows.stored d := stored_congr (h rows).1 (h rows).2.1

theorem countP_date (sessions : List DailySession) :
    sessions.countP (·.sessionDate == d) = (sessions.map (·.sessionDate)).countP (· == d) := by
  rw [List.countP_map]
  rfl

/-- The commit of a transaction that leaves the sessions. -/
theorem DayGuarantee.commit {i : τ} (h : LeavesSessions l.view) :
    DayGuarantee d old l S { S with db := l.view S.db, commits := S.commits ++ [i] } where
  sound hs := by
    have hstored := h.stored (d := d) S.db
    obtain ⟨hdates, -, hexercises⟩ := h S.db
    refine ⟨⟨?_, ?_, fun list hd => ?_, fun text hd => ?_⟩, fun j slots hmem hne => ?_, fun list hd => ?_⟩
    · dsimp only
      rw [hexercises]
      exact hs.ids
    · dsimp only
      rw [countP_date, hdates, ← countP_date]
      exact hs.one
    · exact hs.listed list (hstored.symm.trans hd)
    · obtain ⟨list, hlist, he⟩ := hs.cached text hd
      exact ⟨list, hstored.trans hlist, he⟩
    · obtain ⟨hrow, huuids⟩ := hs.served j slots hmem hne
      exact ⟨hstored.trans hrow, huuids⟩
    · exact hs.origin list (hstored.symm.trans hd)
  stays list hl := (h.stored S.db).trans hl
  locked := .inl (h.stored S.db)
  trace _ := id

/-- The commit of a new row, under the lock of the date. -/
theorem DayGuarantee.insert {i : τ} (hview : l.view = insertSession d slots) (hheld : .build d ∈ l.held)
    (hnone : S.db.stored d = none) (hne : slots ≠ []) (huuids : HaveUuids slots)
    (hsampled : ∃ j, (j, .sampled d slots) ∈ S.trace) :
    DayGuarantee d old l S { S with db := l.view S.db, commits := S.commits ++ [i] } where
  sound hs := by
    have hstored : (insertSession d slots S.db).stored d = some (slotDicts slots) := by
      rw [stored_insertSession, if_pos rfl]
    rw [hview]
    refine ⟨⟨hs.ids, ?_, fun list hd => ?_, fun text hd => ?_⟩, fun j slots' hmem hne' => ?_, fun list hd => ?_⟩
    · have hzero : S.db.sessions.countP (·.sessionDate == d) = 0 := by
        rw [List.countP_eq_zero]
        intro row hrow hdate
        have hsome := stored_isSome.mpr ⟨row, hrow, beq_iff_eq.mp hdate⟩
        rw [hnone] at hsome
        cases hsome
      dsimp only
      rw [sessions_insertSession, List.countP_append, hzero]
      simp
    · exact ⟨slots, hne, huuids, Option.some.inj (hd.symm.trans hstored)⟩
    · obtain ⟨list, hlist, -⟩ := hs.cached text hd
      cases hlist.symm.trans hnone
    · cases (hs.served j slots' hmem hne').1.symm.trans hnone
    · obtain ⟨j, hmem⟩ := hsampled
      exact .inr ⟨j, slots, hmem, huuids, Option.some.inj (hd.symm.trans hstored)⟩
  stays list hl := by cases hl.symm.trans hnone
  locked := .inr hheld
  trace _ := id

end Statements

/-! ## The slots of a request -/

section Wp

variable {env : SessionEnv} {i : τ} {l : Local SessionApp} {S S' : Shared SessionApp τ}

/-- A transaction with the writes `f`. -/
structure Viewing (d : Int) (old : Option Json) (f : SessionTables → SessionTables) (l : Local SessionApp)
    (S : Shared SessionApp τ) : Prop where
  sound : OneSession d old S
  view : l.view = f

theorem steady_viewing {f : SessionTables → SessionTables} : Steady (DayRely d old) (Viewing (τ := τ) d old f) where
  rely _ _ _ h hs := ⟨hs.sound h.sound, h.view⟩
  lock _ _ _ h := ⟨h.sound, h.view⟩
  read _ _ _ h := ⟨h.sound, h.view⟩

/-- A transaction that found no row under the lock of the date. -/
structure Building (d : Int) (old : Option Json) (f : SessionTables → SessionTables) (l : Local SessionApp)
    (S : Shared SessionApp τ) : Prop extends Viewing d old f l S where
  held : .build d ∈ l.held
  none : S.db.stored d = none

theorem steady_building {f : SessionTables → SessionTables} : Steady (DayRely d old) (Building (τ := τ) d old f) where
  rely _ _ _ h hs := ⟨steady_viewing.rely _ _ _ h.toViewing hs, h.held, hs.locked h.held h.none⟩
  lock _ _ _ h := ⟨steady_viewing.lock _ _ _ h.toViewing, Set.mem_insert_of_mem _ h.held, h.none⟩
  read _ _ _ h := ⟨steady_viewing.read _ _ _ h.toViewing, h.held, h.none⟩

theorem steady_trace {e : τ × SessionEv} : Steady (DayRely (τ := τ) d old) fun _ S => e ∈ S.trace where
  rely _ _ _ h hs := hs.trace e h
  lock _ _ _ h := h
  read _ _ _ h := h

/-- A transaction that builds, and has shown `e`. -/
abbrev Shown (d : Int) (old : Option Json) (e : τ × SessionEv) (f : SessionTables → SessionTables)
    (l : Local SessionApp) (S : Shared SessionApp τ) : Prop := Building d old f l S ∧ e ∈ S.trace

theorem steady_shown {f : SessionTables → SessionTables} {e : τ × SessionEv} :
    Steady (DayRely d old) (Shown (τ := τ) d old e f) := steady_building.and steady_trace

/-- A request that has its slots: those of the row. -/
structure Got (d : Int) (old : Option Json) (slots : List SessionSlot) (l : Local SessionApp) (S : Shared SessionApp τ) :
    Prop extends Viewing d old id l S where
  uuids : HaveUuids slots
  stored : slots ≠ [] → S.db.stored d = some (slotDicts slots)

theorem steady_got {slots : List SessionSlot} : Steady (DayRely d old) (Got (τ := τ) d old slots) where
  rely _ _ _ h hs := ⟨steady_viewing.rely _ _ _ h.toViewing hs, h.uuids, fun hne => hs.stays _ (h.stored hne)⟩
  lock _ _ _ h := ⟨steady_viewing.lock _ _ _ h.toViewing, h.uuids, h.stored⟩
  read _ _ _ h := ⟨steady_viewing.read _ _ _ h.toViewing, h.uuids, h.stored⟩

/-- Where a program that asks for slots ends. -/
def Gets (d : Int) (old : Option Json) (r : Except SessionErr (List SessionSlot)) (l : Local SessionApp)
    (S : Shared SessionApp τ) : Prop :=
  ∀ slots, r = .ok slots → Got d old slots l S

theorem wp_persistSession {slots : List SessionSlot} (huuids : HaveUuids slots) (h : Building env.today old id l S) :
    wp (DayRely env.today old) (fun _ => DayGuarantee env.today old) i (Gets env.today old) (persistSession env slots) l S := by
  refine steady_building.wp_emit h fun S₁ h₁ => ?_
  have hobserve : DayGuarantee env.today old l S₁ { S₁ with trace := S₁.trace ++ [(i, .sampled env.today slots)] } :=
    .observe fun slots' he => nomatch he
  refine ⟨hobserve, ?_⟩
  have h₂ : Building env.today old id l { S₁ with trace := S₁.trace ++ [(i, .sampled env.today slots)] } :=
    ⟨⟨hobserve.sound h₁.sound, h₁.view⟩, h₁.held, h₁.none⟩
  have hsampled : (i, SessionEv.sampled env.today slots) ∈ S₁.trace ++ [(i, .sampled env.today slots)] := by simp
  split
  · refine steady_building.wp_ret h₂ fun S₃ h₃ => ?_
    rintro slots' ⟨⟩
    exact ⟨h₃.toViewing, fun _ hs => absurd hs List.not_mem_nil, fun hne => absurd rfl hne⟩
  · rename_i hne
    refine steady_shown.wp_lock ⟨h₂, hsampled⟩ fun l₃ S₃ h₃ _ => steady_shown.wp_select h₃ fun l₄ S₄ h₄ => ?_
    generalize ((l₄.view S₄.db).stored env.today).isSome = taken
    cases taken with
    | true =>
      refine steady_shown.wp_throw h₄ fun S₅ h₅ => ?_
      rintro slots' ⟨⟩
    | false =>
      refine steady_shown.wp_write h₄ fun S₅ h₅ => ?_
      have h₆ : Shown env.today old (i, .sampled env.today slots) (insertSession env.today slots)
          { l₄ with view := insertSession env.today slots ∘ l₄.view } S₅ :=
        ⟨⟨⟨h₅.1.sound, by rw [h₅.1.view]; rfl⟩, h₅.1.held, h₅.1.none⟩, h₅.2⟩
      refine steady_shown.wp_commit h₆ fun S₇ h₇ => ?_
      have hinsert : DayGuarantee env.today old { l₄ with view := insertSession env.today slots ∘ l₄.view } S₇
          { S₇ with db := (insertSession env.today slots ∘ l₄.view) S₇.db, commits := S₇.commits ++ [i] } :=
        .insert h₇.1.view h₇.1.held h₇.1.none hne huuids ⟨i, h₇.2⟩
      refine ⟨hinsert, ?_⟩
      have hgot : Got env.today old slots .idle { S₇ with
          db := insertSession env.today slots S₇.db, commits := S₇.commits ++ [i] } := by
        refine ⟨⟨?_, rfl⟩, huuids, fun _ => by rw [stored_insertSession, if_pos rfl]⟩
        have hsound := hinsert.sound h₇.1.sound
        have hview : insertSession env.today slots ∘ l₄.view = insertSession env.today slots := h₇.1.view
        rw [hview] at hsound
        exact hsound
      have hview : insertSession env.today slots ∘ l₄.view = insertSession env.today slots := h₇.1.view
      dsimp only
      rw [hview]
      refine steady_got.wp_ret hgot fun S₈ h₈ => ?_
      rintro slots' ⟨⟩
      exact h₈

theorem wp_sampleSession (h : Building env.today old id l S) :
    wp (DayRely env.today old) (fun _ => DayGuarantee env.today old) i (Gets env.today old) (sampleSession env) l S := by
  refine steady_building.wp_select h fun l₁ S₁ h₁ => steady_building.wp_select h₁ fun l₂ S₂ h₂ =>
    steady_building.wp_select h₂ fun l₃ S₃ h₃ => steady_building.wp_select h₃ fun l₄ S₄ h₄ => ?_
  have hids : ∀ e ∈ (l₁.view S₁.db).exercises.rows, e.id < 2 ^ 128 := by
    rw [h₁.view]
    exact h₁.sound.ids
  exact wp_persistSession (haveUuids_buildSessionSlots hids _ _ _) h₄

theorem gets_error {l : Local SessionApp} {S : Shared SessionApp τ} (e : SessionErr) : Gets d old (.error e) l S :=
  fun _ h => nomatch h

/-- The slots of the row. -/
theorem wp_decoded {slots : List SessionSlot} (h : Got d old slots l S) :
    wp (DayRely d old) (fun _ => DayGuarantee d old) i (Gets d old) (decoded (some slots)) l S := by
  refine steady_got.wp_ret h fun S₁ h₁ => ?_
  rintro slots' ⟨⟩
  exact h₁

theorem wp_buildAndPersistSession (h : Viewing env.today old id l S) :
    wp (DayRely env.today old) (fun _ => DayGuarantee env.today old) i (Gets env.today old) (buildAndPersistSession env) l
      S := by
  unfold buildAndPersistSession
  simp only [lockOn_bind, query_bind]
  -- the row is read again under the lock
  refine steady_viewing.wp_lock h fun l₁ S₁ h₁ hheld => (steady_viewing.and .held).wp_select ⟨h₁, hheld⟩ fun l₂ S₂ h₂ => ?_
  rw [h₂.1.view]
  cases hstored : (id S₂.db).stored env.today with
  | none => exact wp_sampleSession ⟨h₂.1, h₂.2, hstored⟩
  | some list =>
    obtain ⟨slots, hne, huuids, rfl⟩ := h₂.1.sound.listed _ hstored
    dsimp only
    rw [nonempty_slotDicts.mpr hne, if_pos rfl, slotsFromDicts_slotDicts huuids]
    exact wp_decoded ⟨h₂.1, huuids, fun _ => hstored⟩

theorem wp_cacheSession {slots : List SessionSlot} (h : Got env.today old slots l S) (hne : slots ≠ []) :
    wp (DayRely env.today old) (fun _ => DayGuarantee env.today old) i (Gets env.today old)
      (cacheSession env.today slots >>= fun _ => ret slots) l S := by
  refine steady_got.wp_kv h fun S₁ h₁ => ?_
  have hcache : DayGuarantee env.today old l S₁ { S₁ with kv := S₁.kv.cache env.today slots } := .cache (h₁.stored hne)
  refine ⟨hcache, ?_⟩
  have h₂ : Got env.today old slots l { S₁ with kv := S₁.kv.cache env.today slots } :=
    ⟨⟨hcache.sound h₁.sound, h₁.view⟩, h₁.uuids, h₁.stored⟩
  exact wp_decoded h₂

theorem wp_buildAndCache (h : Viewing env.today old id l S) :
    wp (DayRely env.today old) (fun _ => DayGuarantee env.today old) i (Gets env.today old) (buildAndCache env) l S := by
  unfold buildAndCache
  refine wp_bind .refl (wp_mono ?_ (wp_buildAndPersistSession h))
  intro r l₁ S₁ hgets
  cases r with
  | error e => exact gets_error e
  | ok slots =>
    have hgot := hgets slots rfl
    dsimp only
    split
    · rename_i hnil
      subst hnil
      exact wp_decoded hgot
    · rename_i hne
      exact wp_cacheSession hgot hne

/-- **The slots of a request** are those of the row. -/
theorem wp_getTodaySlots (h : Viewing env.today old id l S) :
    wp (DayRely env.today old) (fun _ => DayGuarantee env.today old) i (Gets env.today old) (getTodaySlots env) l S := by
  unfold getTodaySlots
  simp only [cachedSession, cmd_bind, query_bind]
  refine steady_viewing.wp_kv h fun S₁ h₁ => ⟨.store rfl, ?_⟩
  cases hcached : S₁.kv.sessions env.today with
  | some text =>
    obtain ⟨list, hstored, rfl⟩ := h₁.sound.cached _ hcached
    obtain ⟨slots, hne, huuids, rfl⟩ := h₁.sound.listed _ hstored
    dsimp only
    rw [loads_slotDicts huuids]
    exact wp_decoded ⟨h₁, huuids, fun _ => hstored⟩
  | none =>
    refine steady_viewing.wp_select h₁ fun l₂ S₂ h₂ => ?_
    rw [h₂.view]
    cases hstored : (id S₂.db).stored env.today with
    | none => exact wp_buildAndCache h₂
    | some list =>
      obtain ⟨slots, hne, huuids, rfl⟩ := h₂.sound.listed _ hstored
      dsimp only
      rw [nonempty_slotDicts.mpr hne, if_pos rfl, slotsFromDicts_slotDicts huuids]
      exact wp_cacheSession ⟨h₂, huuids, fun _ => hstored⟩ hne

/-- The slots are shown. -/
theorem wp_served {α : Type} {slots : List SessionSlot} {k : SessionHandler α}
    {Q : Except SessionErr α → Local SessionApp → Shared SessionApp τ → Prop} (h : Got env.today old slots l S)
    (hk : ∀ S, Got env.today old slots l S →
      wp (DayRely env.today old) (fun _ => DayGuarantee env.today old) i Q k l S) :
    wp (DayRely env.today old) (fun _ => DayGuarantee env.today old) i Q (.emit (.served env.today slots) k) l S := by
  refine steady_got.wp_emit h fun S₁ h₁ => ?_
  have hobserve : DayGuarantee env.today old l S₁ { S₁ with trace := S₁.trace ++ [(i, .served env.today slots)] } := by
    refine .observe fun slots' he hne => ?_
    cases he
    exact ⟨h₁.stored hne, h₁.uuids⟩
  exact ⟨hobserve, hk _ ⟨⟨hobserve.sound h₁.sound, h₁.view⟩, h₁.uuids, h₁.stored⟩⟩

/-! ## A request -/

theorem within_tomorrowTeaser {K : (SessionTables → SessionTables) → Prop} (env : SessionEnv) (first : Bool) :
    (tomorrowTeaser env first).Within K := by
  intro scheduled
  cases scheduled with
  | some concept => trivial
  | none =>
    dsimp only
    split
    · exact fun _ => trivial
    · trivial

theorem wp_getTodaySession (h : Viewing env.today old id l S) :
    wp (DayRely env.today old) (fun _ => DayGuarantee env.today old) i (fun _ _ _ => True) (getTodaySession env) l S := by
  unfold getTodaySession
  refine wp_bind .refl (wp_mono ?_ (wp_getTodaySlots h))
  intro r l₁ S₁ hgets
  cases r with
  | error e => trivial
  | ok slots =>
    refine wp_served (hgets slots rfl) fun S₂ h₂ => wp_mono (fun _ _ _ _ => trivial)
      (wp_part (K := fun _ => False) (Viewing env.today old id) steady_viewing.rely steady_viewing.lock steady_viewing.read
        (fun _ _ _ hf => hf.elim) ?_ h₂.toViewing)
    -- what follows only reads
    dsimp only
    split
    · trivial
    · simp only [query_bind]
      intro exercises attempted
      dsimp only
      split
      · exact Within.bind within_query fun first => Within.bind (within_tomorrowTeaser env first) fun _ => trivial
      · trivial

/-- A transaction that leaves the sessions. -/
structure Leaving (d : Int) (old : Option Json) (l : Local SessionApp) (S : Shared SessionApp τ) : Prop where
  sound : OneSession d old S
  view : LeavesSessions l.view

theorem steady_leaving : Steady (DayRely d old) (Leaving (τ := τ) d old) where
  rely _ _ _ h hs := ⟨hs.sound h.sound, h.view⟩
  lock _ _ _ h := ⟨h.sound, h.view⟩
  read _ _ _ h := ⟨h.sound, h.view⟩

theorem LeavesSessions.comp {f g : SessionTables → SessionTables} (hg : LeavesSessions g) (hf : LeavesSessions f) :
    LeavesSessions (g ∘ f) := by
  intro rows
  obtain ⟨h₁, h₂, h₃⟩ := hf rows
  obtain ⟨h₁', h₂', h₃'⟩ := hg (f rows)
  exact ⟨h₁'.trans h₁, h₂'.trans h₂, h₃'.trans h₃⟩

/-- The writes of a submission leave the sessions. -/
theorem submitWrites_leaving : SubmitWrites fun f => LeavesSessions (gradingPart.modify f) where
  stats _ _ := ⟨rfl, rfl, rfl⟩
  completed _ _ _ := ⟨dates_completedRows, rfl, rfl⟩
  events _ _ := ⟨rfl, rfl, rfl⟩
  concepts _ _ := ⟨rfl, rfl, rfl⟩
  attempt _ _ _ := ⟨rfl, rfl, rfl⟩

theorem wp_attemptTransaction (cfg : Settings) (cat : Catalog) (e : Submitting) (tx : Tx) (payload : AttemptRequest)
    (h : Leaving d old l S) :
    wp (DayRely d old) (fun _ => DayGuarantee d old) i (fun _ _ _ => True)
      ((attemptTransaction cfg cat e tx payload).embed gradingPart) l S := by
  unfold attemptTransaction
  rcases checkRequest_cases (e.envOf cat payload) payload with ⟨-, err, he, -⟩ | ⟨⟨type, grade⟩, -, he⟩
  · rw [he]
    exact fun _ _ => trivial
  · rw [he]
    change wp _ _ _ _ ((Grading.storeAttempt cfg _ tx payload type _ grade e.output).embed gradingPart) l S
    rw [Grading.storeAttempt_eq, embed_bind]
    have hwithin := within_attemptPart submitWrites_leaving cfg (e.envOf cat payload) tx payload type
      (cat.concepts payload.exerciseId payload.exerciseVersion) grade e.output
    refine wp_bind .refl (wp_mono ?_ (wp_part (Leaving d old) steady_leaving.rely steady_leaving.lock steady_leaving.read
      (fun _ _ _ hf hl => ⟨hl.sound, hf.comp hl.view⟩) (hwithin.embed fun _ hf => hf) h))
    intro r l₁ S₁ h₁
    cases r with
    | error err => trivial
    | ok r =>
      refine steady_leaving.wp_commit h₁ fun S₂ h₂ => ⟨.commit h₂.view, fun _ _ => trivial⟩

theorem wp_buildAndStoreAttempt (cfg : Settings) (e : Submitting) (tx : Tx) (payload : AttemptRequest)
    (h : Viewing env.today old id l S) :
    wp (DayRely env.today old) (fun _ => DayGuarantee env.today old) i (fun _ _ _ => True)
      (buildAndStoreAttempt cfg env e tx payload) l S := by
  unfold buildAndStoreAttempt
  refine wp_bind .refl (wp_mono ?_ (wp_getTodaySlots h))
  intro r l₁ S₁ hgets
  cases r with
  | error err => trivial
  | ok slots =>
    refine wp_served (hgets slots rfl) fun S₂ h₂ => steady_viewing.wp_select h₂.toViewing fun l₃ S₃ h₃ => ?_
    refine wp_attemptTransaction cfg _ _ tx payload ⟨h₃.sound, ?_⟩
    rw [h₃.view]
    exact fun _ => ⟨rfl, rfl, rfl⟩

theorem wp_request (cfg : Settings) {req : SessionRequest} (hday : req.env.today = d) (h : Viewing d old id l S) :
    wp (DayRely d old) (fun _ => DayGuarantee d old) i (fun _ _ _ => True) (req.program cfg) l S := by
  subst hday
  cases req with
  | read env =>
    refine wp_bind .refl (wp_mono ?_ (wp_getTodaySession h))
    intro r _ _ _
    cases r with
    | ok response => exact fun _ _ => trivial
    | error err => trivial
  | submit env e tx payload =>
    refine wp_bind .refl (wp_mono ?_ (wp_buildAndStoreAttempt cfg e tx payload h))
    intro r _ _ _
    cases r with
    | ok response => exact fun _ _ => trivial
    | error err => trivial

end Wp

/-! ## The run -/

theorem OneSession.start {rows : SessionTables} {redis : SessionRedis} (h : DayKept d rows redis) :
    OneSession d (rows.stored d) (⟨⟨rows, redis⟩, [], []⟩ : Shared SessionApp τ) where
  toDayKept := h
  served _ _ hmem := nomatch hmem
  origin _ hl := .inl hl

theorem day_rules [DecidableEq τ] {cfg : Settings} {req : τ → SessionRequest} {rows : SessionTables} {redis : SessionRedis}
    (hday : ∀ i, (req i).env.today = d) (h : DayKept d rows redis) :
    Rules Losses (SessionRequests.start cfg req rows redis) (fun _ => DayRely d (rows.stored d))
      (fun _ _ => DayGuarantee d (rows.stored d)) (fun _ _ _ => True) where
  refl _ := .refl
  trans _ _ _ _ _ := .trans
  outside _ l S _ hl := .outside l S hl
  compat s _ _ _ _ hj hG := hG.rely (s.localOf_disjoint hj)
  stable _ _ _ _ _ _ := trivial
  start i := good_start (wp_request cfg (hday i) ⟨.start h, rfl⟩)

variable [DecidableEq τ]

theorem Reach.oneSession {cfg : Settings} {req : τ → SessionRequest} {rows : SessionTables} {redis : SessionRedis}
    (hday : ∀ i, (req i).env.today = d) (h : DayKept d rows redis) {s : Sys SessionApp τ Unit}
    (hreach : Reach Losses anyCommit (SessionRequests.start cfg req rows redis) s) :
    OneSession d (rows.stored d) s.shared :=
  Reach.inv (day_rules hday h) (J := OneSession d (rows.stored d)) (.start h) (fun _ _ _ _ hs hG => hG.sound hs)
    (fun _ _ _ _ _ hs hG => hG.sound hs) (fun S _ hl hs => (DayRely.outside .idle S hl).sound hs) hreach

/-- **One session a day**: everyone who is served a session on the date is served the same slots, there is one row of
the date, and what is stored and cached is decoded to the slots that were sampled. -/
theorem session_stable {cfg : Settings} {req : τ → SessionRequest} {rows : SessionTables} {redis : SessionRedis}
    (hday : ∀ i, (req i).env.today = d) (h : DayKept d rows redis) {s : Sys SessionApp τ Unit}
    (hreach : Reach Losses anyCommit (SessionRequests.start cfg req rows redis) s) :
    (∀ i j slots slots', (i, .served d slots) ∈ s.shared.trace → (j, .served d slots') ∈ s.shared.trace →
      slots ≠ [] → slots' ≠ [] → slots = slots') ∧
    s.shared.db.sessions.countP (·.sessionDate == d) ≤ 1 ∧
    (∀ list, s.shared.db.stored d = some list → ∃ slots, slotsFromDicts list = some slots ∧ list = slotDicts slots ∧
      (rows.stored d = some list ∨ ∃ i, (i, .sampled d slots) ∈ s.shared.trace)) ∧
    (∀ text, s.shared.kv.sessions d = some text → ∃ slots, (Json.loads text).bind slotsFromDicts = some slots ∧
      s.shared.db.stored d = some (slotDicts slots)) := by
  have hs := Reach.oneSession hday h hreach
  refine ⟨fun _ _ slots slots' hi hj hne hne' => ?_, hs.one, fun list hd => ?_, fun text hd => ?_⟩
  · obtain ⟨hstored, huuids⟩ := hs.served _ slots hi hne
    obtain ⟨hstored', huuids'⟩ := hs.served _ slots' hj hne'
    exact slotDicts_inj huuids huuids' (Option.some.inj (hstored.symm.trans hstored'))
  · obtain ⟨slots, hne, huuids, rfl⟩ := hs.listed list hd
    refine ⟨slots, slotsFromDicts_slotDicts huuids, rfl, ?_⟩
    rcases hs.origin _ hd with hold | ⟨i, slots', hmem, huuids', he⟩
    · exact .inl hold
    · obtain rfl := slotDicts_inj huuids huuids' he
      exact .inr ⟨i, hmem⟩
  · obtain ⟨list, hstored, rfl⟩ := hs.cached text hd
    obtain ⟨slots, hne, huuids, rfl⟩ := hs.listed _ hstored
    exact ⟨slots, loads_slotDicts huuids, hstored⟩

/-! ### Two reads at once -/

/-- Both find neither a cached session nor a row; the second waits for the first to build it. -/
def secondWaits : List Bool := [false, true, false, true] ++ List.replicate 13 false ++ List.replicate 4 true

/-- The second is served the session of the first. -/
theorem session_stable_two_reads :
    let s := (SessionRequests.start .default (fun _ : Bool => .read (requestOn 0)) (newUserWith oneExercise).db
      (newUserWith oneExercise).kv).after anyCommit secondWaits
    (false, .served 0 [⟨⟨1, 1⟩, 1, false⟩]) ∈ s.shared.trace ∧
      (∀ slots, (true, .served 0 slots) ∈ s.shared.trace → slots ≠ [] → slots = [⟨⟨1, 1⟩, 1, false⟩]) ∧
      s.shared.db.sessions.countP (·.sessionDate == 0) ≤ 1 := by
  intro s
  have hkept : DayKept 0 (newUserWith oneExercise).db (newUserWith oneExercise).kv :=
    ⟨by decide +kernel, by decide, fun _ hl => (nomatch hl), fun _ hl => (nomatch hl)⟩
  have hreach : Reach Losses anyCommit (SessionRequests.start .default (fun _ : Bool => .read (requestOn 0))
    (newUserWith oneExercise).db (newUserWith oneExercise).kv) s := Reach.after (by decide +kernel)
  have hserved : (false, .served 0 [⟨⟨1, 1⟩, 1, false⟩]) ∈ s.shared.trace := by decide +kernel
  have hday : ∀ i : Bool, ((fun _ : Bool => SessionRequest.read (requestOn 0)) i).env.today = 0 := fun _ => rfl
  obtain ⟨hsame, hone, -⟩ := session_stable hday hkept hreach
  exact ⟨hserved, fun slots hslots hne => hsame _ _ _ _ hslots hserved hne (List.cons_ne_nil _ _), hone⟩

end CodeReader.Sessions
