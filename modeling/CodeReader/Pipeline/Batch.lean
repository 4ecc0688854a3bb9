import CodeReader.Pipeline.Resolution
import CodeReader.Pipeline.Answerable
import CodeReader.Exercises.Spec

/-!
# Batches and the pool of known hashes

A batch loads the hashes of the rows in review or live, and adds those it publishes; candidates of a known hash are
rejected.  Batches run one after another, and rows are killed at any time.

* `runSpec` — one specification of a batch, and its rows;
* `PipelineOp`, `PipelineOp.run` — a batch starts, resolves a specification, ends or fails; a row is killed;
* `PoolKnows` — what a batch knows of the table, an invariant (`poolKnows_run`);
* `pool_duplicateFree` — **no two sampled rows in review or live share a hash**.
-/

namespace CodeReader.Pipeline

open Text Attempts

/-! ## Hashes -/

/-- `normalize_ast` and SHA-256. -/
structure Hashing where
  normalizeAst : String → String
  sha256 : String → Nat

namespace Hashing

def hexdigest (h : Hashing) (text : String) : String := String.ofList (hexDigits 64 (h.sha256 text))

def contentHash (h : Hashing) (code : String) : String := h.hexdigest (h.normalizeAst code)

theorem hexdigest_ne_empty (h : Hashing) (text : String) : h.hexdigest text ≠ "" := by
  intro hempty
  have hlength := congrArg String.length hempty
  rw [hexdigest, String.length_ofList, length_hexDigits] at hlength
  cases hlength

end Hashing

end CodeReader.Pipeline

namespace CodeReader.Exercise

open CodeReader.Text CodeReader.Attempts

/-- `source["content_hash"]`, where it is a text. -/
def contentHash? (e : Exercise) : Option String := ((Json.loads e.source).bind (·.get? "content_hash")).bind readStr

/-- In review or live. -/
def inPool (e : Exercise) : Bool := e.status == .live || e.status == .inReview

/-- Of a type that is sampled for generation. -/
def sampled (e : Exercise) : Bool := e.type == "spot_the_bug" || e.type == "trace"

end CodeReader.Exercise

namespace CodeReader.Pipeline

open Text Attempts

def fetchDedupPoolHashes (c : Exercises) : List String :=
  (c.rows.filter (·.inPool)).filterMap fun e => e.contentHash?.filter (· ≠ "")

/-! ## One specification -/

/-- A batch that is running: what it knows, and the rows that it has inserted and not yet committed. -/
structure Batch (S : Type) where
  policy : LoopPolicy S
  commitAfterEachSpec : Bool
  pool : List String
  pending : List Exercise

/-- A specification, with all that its resolution comes to. -/
structure SpecRun (S : Type) where
  spec : ExerciseSpec
  cb : Callbacks S
  coverage : Nat
  receipts : Receipts
  rng : Shuffle TraceEntry

/-- The table as it is committed, and the batch that is running. -/
structure PipelineState (S : Type) where
  table : Exercises
  batch : Option (Batch S)

/-- The rows there are for the batch: committed, and not yet. -/
def PipelineState.rows {S : Type} (st : PipelineState S) : List Exercise :=
  st.table.rows ++ (st.batch.map (·.pending)).getD []

def insertAll (c : Exercises) (rows : List Exercise) : Option Exercises := rows.foldlM Exercises.insert c

section Run

variable {S : Type}

/-- `insert_candidate`. -/
def survivorRow (h : Hashing) (run : SpecRun S) (survivor : Survivor S) : Exercise :=
  let receipts := { run.receipts with contentHash := survivor.contentHash }
  match survivor.candidate with
  | .stb c => stbRow h.hexdigest run.spec c survivor.verifiedBugLines receipts
  | .trace c => traceRow run.spec c survivor.capturedStdout run.rng receipts

/-- `insert_predict_the_fix`, where one is derived. -/
def derivedRows (h : Hashing) (policy : LoopPolicy S) (run : SpecRun S) (survivor : Survivor S) : List Exercise :=
  match derived run.cb run.spec policy survivor with
  | some (stb, .published artifacts receipts) =>
    [ptfRow h.hexdigest run.spec stb artifacts (survivorRow h run survivor) run.receipts.templateId receipts]
  | _ => []

variable [LinearOrder S]

/-- The survivor that is published, if any, and the rows inserted; nothing where the id of one is taken. -/
def insertion (h : Hashing) (table : Exercises) (b : Batch S) (run : SpecRun S) :
    Option (Option (Survivor S) × List Exercise) :=
  (resolveSpec run.cb h.contentHash b.pool run.spec b.policy run.coverage).bind fun r =>
    match r.winner with
    | none => some (none, [])
    | some survivor =>
      let rows := survivorRow h run survivor :: derivedRows h b.policy run survivor
      if (insertAll table (b.pending ++ rows)).isSome then some (some survivor, rows) else none

def commit (table : Exercises) (b : Batch S) : PipelineState S :=
  match insertAll table b.pending with
  | some table => ⟨table, some { b with pending := [] }⟩
  | none => ⟨table, none⟩

/-- A specification of the batch; when it fails, what is not committed is rolled back. -/
def runSpec (h : Hashing) (table : Exercises) (b : Batch S) (run : SpecRun S) : PipelineState S :=
  match insertion h table b run with
  | none => ⟨table, none⟩
  | some (survivor, rows) =>
    let b := { b with pool := b.pool ++ (survivor.map (·.contentHash)).toList, pending := b.pending ++ rows }
    if b.commitAfterEachSpec then commit table b else ⟨table, some b⟩

/-! ## Runs -/

inductive PipelineOp (S : Type)
  | start (policy : LoopPolicy S) (commitAfterEachSpec : Bool)
  | spec (run : SpecRun S)
  | finish
  | crash
  | kill (id : ExerciseId) (version : Int)

/-- Batches run one after another: while one is running none starts. -/
def PipelineOp.run (h : Hashing) (st : PipelineState S) : PipelineOp S → PipelineState S
  | .start policy commitAfterEachSpec =>
    match st.batch with
    | none => ⟨st.table, some ⟨policy, commitAfterEachSpec, fetchDedupPoolHashes st.table, []⟩⟩
    | some _ => st
  | .spec run =>
    match st.batch with
    | none => st
    | some b => runSpec h st.table b run
  | .finish =>
    match st.batch with
    | none => st
    | some b => ⟨(commit st.table b).table, none⟩
  | .crash => ⟨st.table, none⟩
  | .kill id version => ⟨ExerciseOp.run st.table (.kill id version), st.batch⟩

/-- The state after the operations, from a table without a batch. -/
def afterOps (h : Hashing) (start : Exercises) (ops : List (PipelineOp S)) : PipelineState S :=
  ops.foldl (PipelineOp.run h) ⟨start, none⟩

/-- The survivor that a specification publishes. -/
def publishes (h : Hashing) (st : PipelineState S) (run : SpecRun S) : Option (Survivor S) :=
  st.batch.bind fun b => (insertion h st.table b run).bind (·.1)

end Run

/-! ## The hashes of the rows -/

/-- The hashes of the sampled rows in review or live. -/
def sampledHashes (rows : List Exercise) : List String :=
  (rows.filter fun e => e.sampled && e.inPool).filterMap Exercise.contentHash?

/-- No two of them are the same. -/
def DuplicateFree (rows : List Exercise) : Prop := (sampledHashes rows).Nodup

section Hashes

variable {rows rows' : List Exercise}

theorem sampledHashes_append (rows rows' : List Exercise) : sampledHashes (rows ++ rows') = sampledHashes rows ++ sampledHashes rows' := by
  rw [sampledHashes, List.filter_append, List.filterMap_append]
  rfl

theorem sampledHashes_sublist (h : rows.Sublist rows') : (sampledHashes rows).Sublist (sampledHashes rows') :=
  (h.filter _).filterMap _

/-- A row that is retired, and no other is changed. -/
theorem sampledHashes_retire {f : Exercise → Exercise} (hf : ∀ e, f e = e ∨ (f e).inPool = false) :
    (sampledHashes (rows.map f)).Sublist (sampledHashes rows) := by
  induction rows with
  | nil => exact List.Sublist.refl _
  | cons e rows ih =>
    have hcons : ∀ (e : Exercise) (rows : List Exercise), sampledHashes (e :: rows) = sampledHashes [e] ++ sampledHashes rows :=
      fun e => sampledHashes_append [e]
    rw [List.map_cons, hcons, hcons e]
    rcases hf e with hsame | hout
    · rw [hsame]
      exact ih.append_left _
    · have hnone : sampledHashes [f e] = [] := by
        rw [sampledHashes, List.filter_cons_of_neg (by rw [hout, Bool.and_false]; exact Bool.false_ne_true)]
        rfl
      rw [hnone]
      exact ih.trans (List.sublist_append_right _ _)

/-- What a batch loads: the hashes of all the rows, with those of the sampled among them. -/
theorem mem_fetchDedupPoolHashes {c : Exercises} {hash : String} (h : hash ∈ sampledHashes c.rows) (hne : hash ≠ "") :
    hash ∈ fetchDedupPoolHashes c := by
  obtain ⟨e, he, hhash⟩ := List.mem_filterMap.mp h
  obtain ⟨hrow, hin⟩ := List.mem_filter.mp he
  refine List.mem_filterMap.mpr ⟨e, List.mem_filter.mpr ⟨hrow, (Bool.and_eq_true_iff.mp hin).2⟩, ?_⟩
  rw [hhash, Option.filter_some, if_pos (decide_eq_true hne)]

theorem insertAll_rows {c c' : Exercises} (h : insertAll c rows = some c') : c'.rows = c.rows ++ rows := by
  induction rows generalizing c with
  | nil =>
    cases h
    exact (List.append_nil _).symm
  | cons e rows ih =>
    rw [insertAll, List.foldlM_cons] at h
    obtain ⟨c₁, hinsert, hrest⟩ := Option.bind_eq_some_iff.mp h
    rw [ih hrest]
    unfold Exercises.insert at hinsert
    split at hinsert
    · cases hinsert
    · cases hinsert
      exact List.append_assoc _ _ _

end Hashes

section Rows

variable {S : Type} {h : Hashing} {run : SpecRun S} {survivor : Survivor S}

theorem contentHash?_exerciseRow (spec : ExerciseSpec) (type : String) (concepts : Concepts) (r : Receipts)
    (templates more : List (String × Json)) (payload grading : Json) (explanation : List (String × Json))
    (hmore : ∀ f ∈ more, f.1 ≠ "content_hash") :
    (exerciseRow spec type concepts r (r.source templates more) payload grading explanation).contentHash? =
      some r.contentHash := by
  have hnone : more.reverse.find? (·.1 == "content_hash") = none := List.find?_eq_none.mpr fun f hf => by
    rw [beq_iff_eq]
    exact hmore f (List.mem_reverse.mp hf)
  have hget : (r.source templates more).get? "content_hash" = some (.str r.contentHash) := by
    rw [Receipts.source, Json.get?, List.reverse_append, List.find?_append, hnone, List.reverse_append]
    rfl
  rw [Exercise.contentHash?, exerciseRow, Json.loads_dumps, Option.bind_some, hget]
  rfl

theorem survivorRow_hashes : sampledHashes [survivorRow h run survivor] = [survivor.contentHash] := by
  have hhash : (survivorRow h run survivor).contentHash? = some survivor.contentHash := by
    rw [survivorRow]
    split
    · refine contentHash?_exerciseRow _ _ _ _ _ _ _ _ _ fun f hf => ?_
      unfold bugMechanism at hf
      split at hf
      · split at hf
        · rw [List.mem_singleton.mp hf]
          exact (by decide : "bug_mechanism" ≠ "content_hash")
        · exact absurd hf List.not_mem_nil
      · exact absurd hf List.not_mem_nil
    · exact contentHash?_exerciseRow _ _ _ _ _ _ _ _ _ fun f hf => absurd hf List.not_mem_nil
  have hsampled : ((survivorRow h run survivor).sampled && (survivorRow h run survivor).inPool) = true := by
    rw [survivorRow]
    split <;> rfl
  have hfilter : ([survivorRow h run survivor].filter fun e => e.sampled && e.inPool) = [survivorRow h run survivor] :=
    List.filter_eq_self.mpr fun e he => List.mem_singleton.mp he ▸ hsampled
  rw [sampledHashes, hfilter, List.filterMap_cons_some hhash]
  rfl

/-- A `predict_the_fix` is not sampled. -/
theorem derivedRows_hashes (policy : LoopPolicy S) : sampledHashes (derivedRows h policy run survivor) = [] := by
  unfold derivedRows
  split <;> rfl

end Rows

/-! ## One specification -/

section Spec

variable {S : Type} {cb : Callbacks S} {contentHash : String → String} {pool : List String} {spec : ExerciseSpec}
  {policy : LoopPolicy S}

theorem runLineage_admitted {roundsLeft : Nat} {st : LineageState} {s : Survivor S}
    (hs : (runLineage cb contentHash pool spec policy roundsLeft st).survivor = some s) : Admitted contentHash pool s := by
  induction roundsLeft generalizing st with
  | zero =>
    have hstep := lineageStep cb contentHash pool spec policy 0 st
    generalize runLineage cb contentHash pool spec policy 0 st = l at hstep hs
    cases hstep with
    | passed _ _ passed hadmitted =>
      cases hs
      exact hadmitted
    | stopped _ _ passed r hwhy => cases hs
  | succ roundsLeft ih =>
    have hstep := lineageStep cb contentHash pool spec policy (roundsLeft + 1) st
    generalize runLineage cb contentHash pool spec policy (roundsLeft + 1) st = l at hstep hs
    cases hstep with
    | passed _ _ passed hadmitted =>
      cases hs
      exact hadmitted
    | stopped _ _ passed r hwhy => cases hs
    | discarded _ _ passed outcome reason hr hused => cases hs
    | continued _ _ passed outcome hr hused hlast hused' => exact ih hs

variable [LinearOrder S] {coverage : Nat}

theorem generateSurvivors_admitted {fuel used evaluations : Nat} {before : List (Survivor S)}
    {r : List (Survivor S) × List (Event S)} (hbefore : ∀ s ∈ before, Admitted contentHash pool s)
    (hr : generateSurvivors cb contentHash pool spec policy coverage fuel used evaluations before = some r) :
    ∀ s ∈ r.1, Admitted contentHash pool s := by
  induction fuel generalizing used evaluations before r with
  | zero =>
    rw [generateSurvivors] at hr
    split at hr
    · cases hr
    · cases hr
      exact hbefore
  | succ fuel ih =>
    rw [generateSurvivors] at hr
    split at hr
    · dsimp only at hr
      split at hr
      · obtain ⟨rest, hrest, rfl⟩ := Option.map_eq_some_iff.mp hr
        have hall := ih hbefore hrest
        exact hall
      · rename_i candidate hcandidate
        generalize hl : runLineage cb contentHash pool spec policy policy.maxRepairRounds
          { current := candidate, templateId := (cb.generate used).templateId, usedRepair := false, checksTriggered := []
            lastRepairCheck := none, used := used + 1, evaluations } = lineage at hr
        have hafter : ∀ s ∈ before ++ lineage.survivor.toList, Admitted contentHash pool s := fun s hs => by
          rcases List.mem_append.mp hs with hs | hs
          · exact hbefore s hs
          · exact runLineage_admitted (by rw [hl]; exact Option.mem_toList.mp hs)
        split at hr
        · cases hr
          exact hafter
        · obtain ⟨rest, hrest, rfl⟩ := Option.map_eq_some_iff.mp hr
          have hall := ih hafter hrest
          exact hall
    · cases hr
      exact hbefore

/-- The winner's hash is not a known one. -/
theorem resolveSpec_admitted {r : Resolution S} {s : Survivor S}
    (hr : resolveSpec cb contentHash pool spec policy coverage = some r) (hs : r.winner = some s) :
    Admitted contentHash pool s := by
  obtain ⟨⟨survivors, log⟩, hsurvivors, rfl⟩ := Option.map_eq_some_iff.mp hr
  have hall := generateSurvivors_admitted (fun s hs => absurd hs List.not_mem_nil) hsurvivors
  cases survivors with
  | nil => cases hs
  | cons first rest =>
    cases hs
    obtain ⟨earlier, later, hsplit, -⟩ := bestOf_firstMaximum first rest
    refine hall _ ?_
    dsimp only
    rw [hsplit]
    exact List.mem_append_right _ List.mem_cons_self

/-- What a specification inserts: nothing, or one sampled row, of a hash that was not known. -/
theorem insertion_spec {h : Hashing} {table : Exercises} {b : Batch S} {run : SpecRun S} {winner : Option (Survivor S)}
    {rows : List Exercise} (hins : insertion h table b run = some (winner, rows)) :
    sampledHashes rows = (winner.map (·.contentHash)).toList ∧ ∀ s, winner = some s → Admitted h.contentHash b.pool s := by
  obtain ⟨r, hr, hrows⟩ := Option.bind_eq_some_iff.mp hins
  split at hrows
  · cases hrows
    exact ⟨rfl, nofun⟩
  · rename_i survivor hwinner
    dsimp only at hrows
    split at hrows
    · cases hrows
      refine ⟨?_, fun s hs => ?_⟩
      · rw [← List.singleton_append, sampledHashes_append, survivorRow_hashes, derivedRows_hashes]
        rfl
      · cases hs
        exact resolveSpec_admitted hr hwinner
    · cases hrows

end Spec

/-! ## Runs -/

section Invariant

variable {S : Type} {st st' : PipelineState S}

/-- No two sampled rows in review or live share a hash, and the batch that is running knows them all. -/
structure PoolKnows (st : PipelineState S) : Prop where
  nodup : DuplicateFree st.rows
  known : ∀ b, st.batch = some b → ∀ hash ∈ sampledHashes st.rows, hash ≠ "" → hash ∈ b.pool

/-- Fewer hashes, known to the same batch or to none. -/
theorem PoolKnows.of_sublist (h : PoolKnows st) (hrows : (sampledHashes st'.rows).Sublist (sampledHashes st.rows))
    (hbatch : ∀ b', st'.batch = some b' → ∃ b, st.batch = some b ∧ b'.pool = b.pool) : PoolKnows st' where
  nodup := h.nodup.sublist hrows
  known := fun b' hb' hash hhash hne => by
    obtain ⟨b, hb, hpool⟩ := hbatch b' hb'
    rw [hpool]
    exact h.known b hb hash (hrows.subset hhash) hne

/-- Without a batch nothing is pending. -/
theorem PoolKnows.rollback (h : PoolKnows st) : PoolKnows (S := S) ⟨st.table, none⟩ :=
  h.of_sublist (sampledHashes_sublist (by
    rw [PipelineState.rows, PipelineState.rows]
    exact List.Sublist.append_left (List.nil_sublist _) _)) nofun

theorem poolKnows_commit [LinearOrder S] {table : Exercises} {b : Batch S} (h : PoolKnows ⟨table, some b⟩) :
    PoolKnows (commit table b) := by
  unfold commit
  cases hins : insertAll table b.pending with
  | none => exact h.rollback
  | some table' =>
    refine h.of_sublist ?_ ?_
    · have hrows : PipelineState.rows (S := S) ⟨table', some { b with pending := [] }⟩ = PipelineState.rows ⟨table, some b⟩ := by
        rw [PipelineState.rows, insertAll_rows hins]
        exact List.append_nil _
      rw [hrows]
    · rintro b' ⟨⟩
      exact ⟨b, rfl, rfl⟩

theorem commit_pool {table : Exercises} {b b' : Batch S} (hb' : (commit table b).batch = some b') : b'.pool = b.pool := by
  unfold commit at hb'
  split at hb'
  · cases hb'
    rfl
  · cases hb'

end Invariant

section Runs

variable {S : Type} [LinearOrder S] {h : Hashing} {st : PipelineState S}

theorem poolKnows_runSpec {table : Exercises} {b : Batch S} (hknows : PoolKnows ⟨table, some b⟩) (run : SpecRun S) :
    PoolKnows (runSpec h table b run) := by
  unfold runSpec
  cases hins : insertion h table b run with
  | none => exact hknows.rollback
  | some inserted =>
    obtain ⟨winner, rows⟩ := inserted
    obtain ⟨hhashes, hadmitted⟩ := insertion_spec hins
    dsimp only
    have hrows : sampledHashes (table.rows ++ (b.pending ++ rows)) =
        sampledHashes (table.rows ++ b.pending) ++ (winner.map (·.contentHash)).toList := by
      rw [← List.append_assoc, sampledHashes_append, hhashes]
    have hnext : PoolKnows (S := S) ⟨table, some { b with
        pool := b.pool ++ (winner.map (·.contentHash)).toList, pending := b.pending ++ rows }⟩ := by
      constructor
      case nodup =>
        change (sampledHashes (table.rows ++ (b.pending ++ rows))).Nodup
        rw [hrows]
        cases winner with
        | none => exact (List.append_nil _).symm ▸ hknows.nodup
        | some survivor =>
          -- the hash is not known, and all those of the rows are
          obtain ⟨hcode, hnew⟩ := hadmitted survivor rfl
          refine List.nodup_append.mpr ⟨hknows.nodup, List.nodup_singleton _, ?_⟩
          rintro hash hhash hash' hhash' rfl
          obtain rfl := List.mem_singleton.mp hhash'
          exact hnew (hknows.known b rfl _ hhash (hcode ▸ h.hexdigest_ne_empty _))
      case known =>
        rintro b' ⟨⟩ hash hhash hne
        change hash ∈ sampledHashes (table.rows ++ (b.pending ++ rows)) at hhash
        rw [hrows] at hhash
        rcases List.mem_append.mp hhash with hhash | hhash
        · exact List.mem_append_left _ (hknows.known b rfl hash hhash hne)
        · exact List.mem_append_right _ hhash
    split
    · exact poolKnows_commit hnext
    · exact hnext

/-- A specification that does not fail: the batch knows what it knew, and the hash that was published. -/
theorem runSpec_batch {table : Exercises} {b b' : Batch S} {run : SpecRun S} (hb' : (runSpec h table b run).batch = some b') :
    ∃ winner rows, insertion h table b run = some (winner, rows) ∧
      b'.pool = b.pool ++ (winner.map (·.contentHash)).toList := by
  unfold runSpec at hb'
  cases hins : insertion h table b run with
  | none =>
    rw [hins] at hb'
    cases hb'
  | some inserted =>
    rw [hins] at hb'
    refine ⟨inserted.1, inserted.2, rfl, ?_⟩
    dsimp only at hb'
    split at hb'
    · exact commit_pool hb'
    · cases hb'
      rfl

/-- A row that is retired leaves the pool. -/
theorem sampledHashes_kill (c : Exercises) (id : ExerciseId) (version : Int) (pending : List Exercise) :
    (sampledHashes ((ExerciseOp.run c (.kill id version)).rows ++ pending)).Sublist (sampledHashes (c.rows ++ pending)) := by
  rw [sampledHashes_append, sampledHashes_append]
  refine List.Sublist.append_right ?_ _
  unfold ExerciseOp.run
  cases hkill : (ExerciseOp.kill id version).attempt c with
  | error _ => exact List.Sublist.refl _
  | ok c' =>
    obtain ⟨e, -, rfl, -⟩ := updateExerciseFields_eq_ok.mp hkill
    refine sampledHashes_retire fun e => ?_
    split
    · exact Or.inr rfl
    · exact Or.inl rfl

/-- **What a batch knows of the table**: each operation keeps it. -/
theorem poolKnows_step (hknows : PoolKnows st) (op : PipelineOp S) : PoolKnows (op.run h st) := by
  obtain ⟨table, batch⟩ := st
  cases op with
  | start policy commitAfterEachSpec =>
    cases batch with
    | none =>
      refine ⟨hknows.nodup, ?_⟩
      rintro b ⟨⟩ hash hhash hne
      change hash ∈ sampledHashes (table.rows ++ []) at hhash
      rw [List.append_nil] at hhash
      exact mem_fetchDedupPoolHashes hhash hne
    | some b => exact hknows
  | spec run =>
    cases batch with
    | none => exact hknows
    | some b => exact poolKnows_runSpec hknows run
  | finish =>
    cases batch with
    | none => exact hknows
    | some b => exact (poolKnows_commit hknows).rollback
  | crash => exact hknows.rollback
  | kill id version =>
    refine hknows.of_sublist (sampledHashes_kill table id version _) fun b hb => ⟨b, hb, rfl⟩

theorem afterOps_append_singleton {start : Exercises} {ops : List (PipelineOp S)} {op : PipelineOp S} :
    afterOps h start (ops ++ [op]) = op.run h (afterOps h start ops) := by
  rw [afterOps, List.foldl_append]
  rfl

theorem poolKnows_run {start : Exercises} (hstart : DuplicateFree start.rows) (ops : List (PipelineOp S)) :
    PoolKnows (afterOps h start ops) := by
  induction ops using List.reverseRecOn with
  | nil =>
    refine ⟨?_, nofun⟩
    change DuplicateFree (start.rows ++ [])
    rwa [List.append_nil]
  | append_singleton ops op ih =>
    rw [afterOps_append_singleton]
    exact poolKnows_step ih op

/-! ## Within a batch -/

/-- The operation neither starts nor ends a batch. -/
def PipelineOp.within : PipelineOp S → Bool
  | .spec _ => true
  | .kill _ _ => true
  | _ => false

/-- A batch goes on: what it knows, it knows later. -/
theorem pool_of_within {mid : List (PipelineOp S)} (hmid : mid.all (·.within)) {b' : Batch S}
    (hb' : (mid.foldl (PipelineOp.run h) st).batch = some b') : ∃ b, st.batch = some b ∧ b.pool ⊆ b'.pool := by
  induction mid generalizing st with
  | nil => exact ⟨b', hb', List.Subset.refl _⟩
  | cons op mid ih =>
    rw [List.all_cons, Bool.and_eq_true] at hmid
    obtain ⟨b₁, hb₁, hpool⟩ := ih hmid.2 hb'
    obtain ⟨table, batch⟩ := st
    cases op with
    | spec run =>
      cases batch with
      | none => cases hb₁
      | some b =>
        obtain ⟨winner, rows, -, hmore⟩ := runSpec_batch hb₁
        refine ⟨b, rfl, List.Subset.trans ?_ hpool⟩
        rw [hmore]
        exact List.subset_append_left _ _
    | kill id version => exact ⟨b₁, hb₁, hpool⟩
    | start policy commitAfterEachSpec => cases hmid.1
    | finish => cases hmid.1
    | crash => cases hmid.1

theorem publishes_eq_some {run : SpecRun S} {s : Survivor S} (hs : publishes h st run = some s) :
    ∃ b, st.batch = some b ∧ Admitted h.contentHash b.pool s ∧
      ∀ b', (PipelineOp.run h st (.spec run)).batch = some b' → s.contentHash ∈ b'.pool := by
  obtain ⟨table, batch⟩ := st
  obtain ⟨b, hb, hins⟩ := Option.bind_eq_some_iff.mp hs
  obtain rfl : batch = some b := hb
  obtain ⟨⟨winner, rows⟩, hins, hwinner⟩ := Option.bind_eq_some_iff.mp hins
  obtain rfl : winner = some s := hwinner
  refine ⟨b, rfl, (insertion_spec hins).2 s rfl, fun b' hb' => ?_⟩
  obtain ⟨winner', rows', hins', hpool⟩ := runSpec_batch hb'
  rw [hins] at hins'
  cases hins'
  rw [hpool]
  exact List.mem_append_right _ (List.mem_singleton_self _)

end Runs

/-! ## What is published is new -/

section New

variable (S : Type) [LinearOrder S] (h : Hashing) (start : Exercises)

/-- No candidate is published whose hash a sampled row in review or live has, a row in review or live had when the batch
started, or one published earlier in the batch has. -/
structure PublishesNew : Prop where
  standing : ∀ (pre : List (PipelineOp S)) run s, publishes h (afterOps h start pre) run = some s →
    h.contentHash s.candidate.code ∉ sampledHashes (afterOps h start pre).rows
  loaded : ∀ (pre : List (PipelineOp S)) policy commitAfterEachSpec mid run s, (afterOps h start pre).batch = none →
    mid.all (·.within) → publishes h (afterOps h start (pre ++ .start policy commitAfterEachSpec :: mid)) run = some s →
      h.contentHash s.candidate.code ∉ fetchDedupPoolHashes (afterOps h start pre).table
  inBatch : ∀ (pre : List (PipelineOp S)) run mid run' s s', publishes h (afterOps h start pre) run = some s →
    mid.all (·.within) → publishes h (afterOps h start (pre ++ .spec run :: mid)) run' = some s' →
      h.normalizeAst s.candidate.code ≠ h.normalizeAst s'.candidate.code

/-- No candidate is published of the same form as one published earlier. -/
def NeverRepublishes : Prop :=
  ∀ (pre : List (PipelineOp S)) run mid run' s s', publishes h (afterOps h start pre) run = some s →
    publishes h (afterOps h start (pre ++ .spec run :: mid)) run' = some s' →
      h.normalizeAst s.candidate.code ≠ h.normalizeAst s'.candidate.code

end New

/-- **No two sampled rows in review or live share a hash**, and what is published is new, over any run. -/
theorem pool_duplicateFree (S : Type) [LinearOrder S] (h : Hashing) (start : Exercises) (hstart : DuplicateFree start.rows) :
    (∀ ops : List (PipelineOp S), DuplicateFree (afterOps h start ops).rows) ∧ PublishesNew S h start := by
  have hfold : ∀ pre mid : List (PipelineOp S), afterOps h start (pre ++ mid) = mid.foldl (PipelineOp.run h) (afterOps h start pre) :=
    fun pre mid => List.foldl_append
  refine ⟨fun ops => (poolKnows_run hstart ops).nodup, ?_, ?_, ?_⟩
  · intro pre run s hs hmem
    obtain ⟨b, hb, ⟨hcode, hnew⟩, -⟩ := publishes_eq_some hs
    rw [← hcode] at hmem
    exact hnew ((poolKnows_run hstart pre).known b hb _ hmem (hcode ▸ h.hexdigest_ne_empty _))
  · intro pre policy commitAfterEachSpec mid run s hnone hmid hs hmem
    obtain ⟨b', hb', ⟨hcode, hnew⟩, -⟩ := publishes_eq_some hs
    rw [hfold, List.foldl_cons, PipelineOp.run, hnone] at hb'
    obtain ⟨b, hb, hpool⟩ := pool_of_within hmid hb'
    cases hb
    rw [← hcode] at hmem
    exact hnew (hpool hmem)
  · intro pre run mid run' s s' hs hmid hs' hsame
    obtain ⟨b', hb', ⟨hcode', hnew⟩, -⟩ := publishes_eq_some hs'
    rw [hfold, List.foldl_cons] at hb'
    obtain ⟨b, hb, hpool⟩ := pool_of_within hmid hb'
    obtain ⟨_, _, ⟨hcode, -⟩, hlater⟩ := publishes_eq_some hs
    refine hnew (hpool ?_)
    have hhash : s'.contentHash = s.contentHash := by
      rw [hcode, hcode', Hashing.contentHash, Hashing.contentHash, hsame]
    rw [hhash]
    exact hlater b hb

/-! A candidate that passes everything, is killed, and passes again in the next batch. -/

def sumHashing : Hashing where
  normalizeAst := id
  sha256 := String.length

def sumCallbacks : Callbacks Nat where
  generate := fun _ => ⟨some (.trace sumTrace), "trace_py_v1", ""⟩
  repair := fun _ _ _ => ⟨none, "", "invalid"⟩
  gates := fun _ _ => ⟨true, { accepted := true, checks := [] }, { survived := true }, 1, false⟩
  derivePtf := fun _ => .discarded "disabled"

def firstSurvivor : LoopPolicy Nat where
  repairEnabled := false
  bestOfNEnabled := false
  maxAttemptsPerSpec := 1
  maxRepairRounds := 0
  bestOfNMaxSurvivors := 1
  bestOfNScoreThreshold := 0
  bestOfNCoverageThreshold := 0
  derivePredictTheFix := false

def sumRun (id : ExerciseId) : SpecRun Nat where
  spec := { sumSpec none with type := "trace" }
  cb := sumCallbacks
  coverage := 0
  receipts := { sumReceipts with exerciseId := id }
  rng := ⟨fun l => l, fun _ => .refl _⟩

theorem pool_duplicateFree_sum :
    DuplicateFree (afterOps sumHashing Exercises.empty [.start firstSurvivor false, .spec (sumRun 1), .finish]).rows ∧
      PublishesNew Nat sumHashing Exercises.empty :=
  have hall := pool_duplicateFree Nat sumHashing Exercises.empty List.nodup_nil
  ⟨hall.1 _, hall.2⟩

/-- The second batch does not know of the row that was killed. -/
theorem killed_republished : ¬ NeverRepublishes Nat sumHashing Exercises.empty := by
  intro hnever
  have hcode : ∀ st : PipelineState Nat, ∀ id, (publishes sumHashing st (sumRun id)).map (·.candidate.code) = some sumTrace.code →
      ∃ s, publishes sumHashing st (sumRun id) = some s ∧ s.candidate.code = sumTrace.code :=
    fun _ _ h => Option.map_eq_some_iff.mp h
  obtain ⟨s, hs, hsame⟩ := hcode (afterOps sumHashing Exercises.empty [.start firstSurvivor false]) 1 (by decide +kernel)
  obtain ⟨s', hs', hsame'⟩ := hcode (afterOps sumHashing Exercises.empty [.start firstSurvivor false, .spec (sumRun 1), .finish,
    .kill 1 1, .start firstSurvivor false]) 2 (by decide +kernel)
  refine hnever [.start firstSurvivor false] (sumRun 1) [.finish, .kill 1 1, .start firstSurvivor false] (sumRun 2) s s' hs hs' ?_
  rw [hsame, hsame']

end CodeReader.Pipeline
