import CodeReader.Pipeline.Batch

/-!
# What the next specification is told to avoid

A batch loads the bug mechanisms of the stored exercises, adds those that it publishes, and hands some of them to the
generator with each specification it samples.

* `seedRecentBugMechanisms` — what is loaded: newest first, three for each concept;
* `remember` — what is published, put in front;
* `sampleSpec` — the last three of what is remembered;
* `Round.run` — a specification sampled and resolved;
* `avoidPatterns_recent_iff` — **when these are the three published last**.
-/

namespace CodeReader.Exercise

open CodeReader.Text CodeReader.Attempts

/-- `source["bug_mechanism"]`, where it is a text that is not empty. -/
def bugMechanism? (e : Exercise) : Option String :=
  (((Json.loads e.source).bind (·.get? "bug_mechanism")).bind readStr).filter (· ≠ "")

/-- A `spot_the_bug` in review or live. -/
def scanned (e : Exercise) : Bool := e.type == "spot_the_bug" && e.inPool

end CodeReader.Exercise

namespace CodeReader.Pipeline

open Text Attempts

/-! ## What is loaded -/

/-- `recent_bug_mechanisms`; a concept without an entry has none. -/
abbrev Mechanisms := String → List String

def limitPerConcept : Nat := 3

def scanLimit : Nat := 500

/-- The scanned rows of a table in the order of the query: `ORDER BY created_at DESC`. -/
structure StoredHistory (createdAt : ExerciseId × Int → Int) (c : Exercises) where
  rows : List Exercise
  all : rows.Perm (c.rows.filter (·.scanned))
  newestFirst : rows.Pairwise fun e e' => createdAt e'.key ≤ createdAt e.key

def scanConcept (mechanism : String) (history : Mechanisms) (concept : String) : Mechanisms :=
  if (history concept).length < limitPerConcept then
    Function.update history concept (history concept ++ [mechanism])
  else history

def scanRow (history : Mechanisms) (e : Exercise) : Mechanisms :=
  match e.bugMechanism? with
  | some mechanism => e.concepts.val.foldl (scanConcept mechanism) history
  | none => history

def seedRecentBugMechanisms (rows : List Exercise) : Mechanisms :=
  (rows.take scanLimit).foldl scanRow fun _ => []

/-! ## What is sampled -/

/-- What the random numbers come to. -/
structure SpecDraw where
  concept : String
  difficulty : Difficulty
  domain : String
  hasBug : Bool

def avoidPatternsHistoryDepth : Nat := 3

/-- `entries[-n:]`. -/
def lastEntries {α : Type} (n : Nat) (entries : List α) : List α := entries.drop (entries.length - n)

/-- None for an unknown type, which is an error. -/
def sampleSpec (draw : SpecDraw) (exerciseType : String) (recentBugMechanisms : Mechanisms) : Option ExerciseSpec :=
  if exerciseType = "spot_the_bug" ∨ exerciseType = "trace" then
    some
      { type := exerciseType
        concept := draw.concept
        difficulty := draw.difficulty
        domain := draw.domain
        lineBudgetMin := (lineBudgetForDifficulty draw.difficulty).1
        lineBudgetMax := (lineBudgetForDifficulty draw.difficulty).2
        hasBug := if exerciseType = "spot_the_bug" then some draw.hasBug else none
        avoidPatterns := lastEntries avoidPatternsHistoryDepth (recentBugMechanisms draw.concept) }
  else none

/-! ## What is published -/

/-- The text of the keyed reason, of a code with a bug. -/
def recordedMechanism (spec : ExerciseSpec) : Candidate → Option String
  | .stb c =>
    if spec.hasBug = some true then (c.reasonOptions.find? (·.id == c.correctReasonId)).map (·.text) else none
  | .trace _ => none

/-- `setdefault(spec.concept, []).insert(0, text)`. -/
def remember (spec : ExerciseSpec) (candidate : Candidate) (recentBugMechanisms : Mechanisms) : Mechanisms :=
  match recordedMechanism spec candidate with
  | some text => Function.update recentBugMechanisms spec.concept (text :: recentBugMechanisms spec.concept)
  | none => recentBugMechanisms

/-- A turn of the loop of `run_batch`: what is drawn, and what the resolution of the specification comes to. -/
structure Round (S : Type) where
  exerciseType : String
  draw : SpecDraw
  resolve : ExerciseSpec → SpecRun S
  resolves : ∀ spec, (resolve spec).spec = spec

/-- A batch that samples its specifications, with what it has published so far. -/
structure SampledBatch (S : Type) where
  state : PipelineState S
  mechanisms : Mechanisms
  publications : List (ExerciseSpec × Candidate)

section Run

variable {S : Type} [LinearOrder S]

def Round.run (h : Hashing) (b : SampledBatch S) (round : Round S) : SampledBatch S :=
  match sampleSpec round.draw round.exerciseType b.mechanisms with
  | none => { b with state := ⟨b.state.table, none⟩ }
  | some spec =>
    let run := round.resolve spec
    let state := PipelineOp.run h b.state (.spec run)
    match publishes h b.state run with
    | none => { b with state }
    | some survivor =>
      { state
        mechanisms := remember spec survivor.candidate b.mechanisms
        publications := b.publications ++ [(spec, survivor.candidate)] }

/-- A batch that starts with the history of the table. -/
def startSampled (h : Hashing) (table : Exercises) (policy : LoopPolicy S) (commitAfterEachSpec : Bool)
    (rows : List Exercise) : SampledBatch S where
  state := PipelineOp.run h ⟨table, none⟩ (.start policy commitAfterEachSpec)
  mechanisms := seedRecentBugMechanisms rows
  publications := []

end Run

/-! ## The history -/

/-- The mechanisms that a run has published for a concept, in order. -/
def publishedMechanisms (concept : String) (publications : List (ExerciseSpec × Candidate)) : List String :=
  publications.filterMap fun p => if p.1.concept = concept then recordedMechanism p.1 p.2 else none

/-- The stored exercises of a concept that have a mechanism. -/
def storedOf (concept : String) (rows : List Exercise) : List Exercise :=
  rows.filter fun e => e.bugMechanism?.isSome && decide (concept ∈ e.concepts.val)

/-- All the mechanisms published for a concept, the newest first. -/
def allMechanisms (concept : String) (rows : List Exercise) (publications : List (ExerciseSpec × Candidate)) : List String :=
  (publishedMechanisms concept publications).reverse ++ (storedOf concept rows).filterMap (·.bugMechanism?)

/-- The last three. -/
def mostRecentMechanisms (concept : String) (rows : List Exercise) (publications : List (ExerciseSpec × Candidate)) :
    List String :=
  (allMechanisms concept rows publications).take avoidPatternsHistoryDepth

/-- A stored exercise as often as it lists the concept. -/
def listings (concept : String) (rows : List Exercise) : List Exercise :=
  rows.flatMap fun e => if e.bugMechanism?.isSome then List.replicate (e.concepts.val.count concept) e else []

/-- None of the exercises that are loaded for the concept lists it twice. -/
def LoadedOnce (concept : String) (rows : List Exercise) : Prop := ((listings concept rows).take limitPerConcept).Nodup

/-- How many mechanisms are remembered for the concept: those that are loaded, and those published since. -/
def rememberedCount (concept : String) (rows : List Exercise) (publications : List (ExerciseSpec × Candidate)) : Nat :=
  (publishedMechanisms concept publications).length + min limitPerConcept (listings concept rows).length

/-! ## Loading -/

theorem take_append_take {α : Type} (n : Nat) (l r : List α) : (l.take n ++ r).take n = (l ++ r).take n := by
  rw [List.take_append, List.take_append, List.take_take, Nat.min_self, List.length_take]
  congr 2
  omega

section Loading

variable {history : Mechanisms} {concept : String}

theorem scanConcept_apply (h : (history concept).length ≤ limitPerConcept) (mechanism c : String) :
    scanConcept mechanism history c concept =
      (history concept ++ if c = concept then [mechanism] else []).take limitPerConcept := by
  unfold scanConcept
  by_cases hc : c = concept
  · subst hc
    rw [if_pos rfl]
    by_cases hroom : (history c).length < limitPerConcept
    · rw [if_pos hroom, Function.update_self, List.take_of_length_le]
      rw [List.length_append]
      exact hroom
    · rw [if_neg hroom, List.take_left' (by omega)]
  · rw [if_neg hc, List.append_nil, List.take_of_length_le h]
    split
    · exact Function.update_of_ne (Ne.symm hc) _ _
    · rfl

/-- An exercise is added once for each time it lists the concept, as long as there is room. -/
theorem foldl_scanConcept (h : (history concept).length ≤ limitPerConcept) (mechanism : String) (concepts : List String) :
    concepts.foldl (scanConcept mechanism) history concept =
      (history concept ++ List.replicate (concepts.count concept) mechanism).take limitPerConcept := by
  induction concepts generalizing history with
  | nil => rw [List.foldl_nil, List.count_nil, List.replicate_zero, List.append_nil, List.take_of_length_le h]
  | cons c concepts ih =>
    have hstep := scanConcept_apply h mechanism c
    have hlength : (scanConcept mechanism history c concept).length ≤ limitPerConcept := by
      rw [hstep]
      exact List.length_take_le _ _
    rw [List.foldl_cons, ih hlength, hstep, take_append_take, List.append_assoc]
    by_cases hc : c = concept
    · subst hc
      rw [if_pos rfl, List.count_cons_self, List.replicate_succ, List.singleton_append]
    · rw [if_neg hc, List.nil_append, List.count_cons_of_ne hc]

theorem listings_cons (e : Exercise) (rows : List Exercise) : listings concept (e :: rows) =
    (if e.bugMechanism?.isSome then List.replicate (e.concepts.val.count concept) e else []) ++ listings concept rows :=
  List.flatMap_cons

theorem foldl_scanRow (h : (history concept).length ≤ limitPerConcept) (rows : List Exercise) :
    rows.foldl scanRow history concept =
      (history concept ++ (listings concept rows).filterMap (·.bugMechanism?)).take limitPerConcept := by
  induction rows generalizing history with
  | nil =>
    rw [List.foldl_nil, listings, List.flatMap_nil, List.filterMap_nil, List.append_nil, List.take_of_length_le h]
  | cons e rows ih =>
    rw [List.foldl_cons, listings_cons, List.filterMap_append]
    cases hm : e.bugMechanism? with
    | none =>
      have hskip : scanRow history e = history := by rw [scanRow, hm]
      rw [hskip, ih h]
      rfl
    | some mechanism =>
      have hstep : scanRow history e concept =
          (history concept ++ List.replicate (e.concepts.val.count concept) mechanism).take limitPerConcept := by
        rw [scanRow, hm]
        exact foldl_scanConcept h mechanism _
      have hlength : (scanRow history e concept).length ≤ limitPerConcept := by
        rw [hstep]
        exact List.length_take_le _ _
      rw [ih hlength, hstep, take_append_take, List.append_assoc, if_pos Option.isSome_some,
        List.filterMap_replicate_of_some hm]

/-- What is loaded for a concept, of a history within the limit of the scan. -/
theorem seedRecentBugMechanisms_apply {rows : List Exercise} (h : rows.length ≤ scanLimit) (concept : String) :
    seedRecentBugMechanisms rows concept =
      ((listings concept rows).filterMap (·.bugMechanism?)).take limitPerConcept := by
  rw [seedRecentBugMechanisms, List.take_of_length_le h, foldl_scanRow (Nat.zero_le _)]
  rfl

end Loading

/-! ## Remembering -/

section Remembering

variable {S : Type} [LinearOrder S] {h : Hashing} {b : SampledBatch S}

theorem remember_apply (spec : ExerciseSpec) (candidate : Candidate) (history : Mechanisms) (concept : String) :
    remember spec candidate history concept =
      (publishedMechanisms concept [(spec, candidate)]).reverse ++ history concept := by
  unfold remember publishedMechanisms
  by_cases hc : spec.concept = concept
  · subst hc
    cases hm : recordedMechanism spec candidate with
    | none => simp [hm]
    | some text => simp [hm]
  · cases hm : recordedMechanism spec candidate with
    | none => simp [hc]
    | some text => simp [hc, Function.update_of_ne (Ne.symm hc)]

theorem publishedMechanisms_append (concept : String) (earlier later : List (ExerciseSpec × Candidate)) :
    publishedMechanisms concept (earlier ++ later) =
      publishedMechanisms concept earlier ++ publishedMechanisms concept later :=
  List.filterMap_append

/-- What a batch remembers of a concept: what it has published, the newest first, and what it started with. -/
def Remembers (seed : Mechanisms) (b : SampledBatch S) : Prop :=
  ∀ concept, b.mechanisms concept = (publishedMechanisms concept b.publications).reverse ++ seed concept

theorem Remembers.step {seed : Mechanisms} (hb : Remembers seed b) (round : Round S) : Remembers seed (round.run h b) := by
  intro concept
  unfold Round.run
  split
  · exact hb concept
  · dsimp only
    split
    · exact hb concept
    · dsimp only
      rw [remember_apply, hb concept, publishedMechanisms_append, List.reverse_append, List.append_assoc]

theorem remembers_run {seed : Mechanisms} (hb : Remembers seed b) (rounds : List (Round S)) :
    Remembers seed (rounds.foldl (Round.run h) b) := by
  induction rounds generalizing b with
  | nil => exact hb
  | cons round rounds ih => exact ih (hb.step round)

end Remembering

/-! ## From one batch to the next -/

theorem bugMechanism?_exerciseRow (spec : ExerciseSpec) (type : String) (concepts : Concepts) (r : Receipts)
    (source payload grading : Json) (explanation : List (String × Json)) :
    (exerciseRow spec type concepts r source payload grading explanation).bugMechanism? =
      ((source.get? "bug_mechanism").bind readStr).filter (· ≠ "") := by
  unfold Exercise.bugMechanism? exerciseRow
  rw [Json.loads_dumps]
  rfl

/-- What a batch remembers of a publication is what a later one loads from its row. -/
theorem bugMechanism?_survivorRow {S : Type} (h : Hashing) (run : SpecRun S) (survivor : Survivor S)
    (hne : recordedMechanism run.spec survivor.candidate ≠ some "") :
    (survivorRow h run survivor).bugMechanism? = recordedMechanism run.spec survivor.candidate := by
  unfold survivorRow
  cases hcandidate : survivor.candidate with
  | trace c => exact bugMechanism?_exerciseRow _ _ _ _ _ _ _ _
  | stb c =>
    rw [hcandidate] at hne
    dsimp only [recordedMechanism] at hne ⊢
    rw [stbRow, bugMechanism?_exerciseRow, bugMechanism]
    by_cases hbug : run.spec.hasBug = some true
    · rw [if_pos hbug] at hne ⊢
      rw [if_pos hbug]
      cases hfind : c.reasonOptions.find? (·.id == c.correctReasonId) with
      | none => rfl
      | some option =>
        rw [hfind] at hne
        exact Option.filter_some_pos (decide_eq_true fun hempty => hne (congrArg some hempty))
    · rw [if_neg hbug, if_neg hbug]
      rfl

/-! ## The last three -/

/-- Every specification that is sampled next for the concept is given the mechanisms published last for it. -/
def AvoidsMostRecent {S : Type} (b : SampledBatch S) (rows : List Exercise) (concept : String) : Prop :=
  ∀ draw exerciseType spec, sampleSpec draw exerciseType b.mechanisms = some spec → spec.concept = concept →
    spec.avoidPatterns = mostRecentMechanisms concept rows b.publications

theorem avoidsMostRecent_iff {S : Type} {b : SampledBatch S} {rows : List Exercise} {concept : String} :
    AvoidsMostRecent b rows concept ↔ lastEntries avoidPatternsHistoryDepth (b.mechanisms concept) =
      mostRecentMechanisms concept rows b.publications := by
  constructor
  · intro h
    exact h ⟨concept, ⟨1, by decide⟩, "", true⟩ "trace" _ (if_pos (Or.inr rfl)) rfl
  · intro h draw exerciseType spec hspec hconcept
    unfold sampleSpec at hspec
    split at hspec
    · cases hspec
      dsimp only at hconcept ⊢
      rw [hconcept, h]
    · cases hspec

section Last

variable {α : Type} {n : Nat} {l r : List α}

theorem lastEntries_of_length_le (h : l.length ≤ n) : lastEntries n l = l := by
  rw [lastEntries, Nat.sub_eq_zero_of_le h, List.drop_zero]

theorem take_append_take_right (n : Nat) (l r : List α) : (l ++ r.take n).take n = (l ++ r).take n := by
  rw [List.take_append, List.take_append, List.take_take, Nat.min_eq_left (Nat.sub_le _ _)]

/-- The last of a longer list do not have its first entry among them, if it occurs only once. -/
theorem head_notMem_lastEntries {x : α} (hx : x ∉ l) (h : n < (x :: l).length) : x ∉ lastEntries n (x :: l) := by
  obtain ⟨k, hk⟩ := Nat.exists_eq_add_of_lt h
  have hdrop : (x :: l).length - n = k + 1 := by omega
  rw [lastEntries, hdrop, List.drop_succ_cons]
  exact fun hmem => hx (List.mem_of_mem_drop hmem)

end Last

section Listings

variable {concept : String} {rows : List Exercise}

theorem storedOf_cons_of_pos {e : Exercise} (h : e.bugMechanism?.isSome = true ∧ concept ∈ e.concepts.val) :
    storedOf concept (e :: rows) = e :: storedOf concept rows :=
  List.filter_cons_of_pos (by rw [h.1, decide_eq_true h.2]; rfl)

/-- An exercise of the concept is there once, and then again as often as it repeats it. -/
theorem listings_cons_of_pos {e : Exercise} (h : e.bugMechanism?.isSome = true ∧ concept ∈ e.concepts.val) :
    listings concept (e :: rows) =
      e :: (List.replicate (e.concepts.val.count concept - 1) e ++ listings concept rows) := by
  have hcount : e.concepts.val.count concept - 1 + 1 = e.concepts.val.count concept :=
    Nat.sub_add_cancel (List.count_pos_iff.mpr h.2)
  rw [listings_cons, if_pos h.1, ← List.cons_append, ← List.replicate_succ, hcount]

theorem listings_cons_of_neg {e : Exercise} (h : ¬ (e.bugMechanism?.isSome = true ∧ concept ∈ e.concepts.val)) :
    listings concept (e :: rows) = listings concept rows ∧ storedOf concept (e :: rows) = storedOf concept rows := by
  constructor
  · rw [listings_cons]
    split
    · rename_i hsome
      rw [List.count_eq_zero.mpr fun hmem => h ⟨hsome, hmem⟩]
      rfl
    · rfl
  · refine List.filter_cons_of_neg fun hboth => h ?_
    obtain ⟨hsome, hmem⟩ := Bool.and_eq_true_iff.mp hboth
    exact ⟨hsome, of_decide_eq_true hmem⟩

theorem mem_listings {e : Exercise} : e ∈ listings concept rows ↔ e ∈ storedOf concept rows := by
  induction rows with
  | nil => exact Iff.rfl
  | cons e' rows ih =>
    by_cases h : e'.bugMechanism?.isSome = true ∧ concept ∈ e'.concepts.val
    · rw [listings_cons_of_pos h, storedOf_cons_of_pos h, List.mem_cons, List.mem_cons, List.mem_append, ih]
      constructor
      · rintro (rfl | hrep | hmem)
        · exact Or.inl rfl
        · exact Or.inl (List.eq_of_mem_replicate hrep)
        · exact Or.inr hmem
      · rintro (rfl | hmem)
        · exact Or.inl rfl
        · exact Or.inr (Or.inr hmem)
    · rw [(listings_cons_of_neg h).1, (listings_cons_of_neg h).2, ih]

/-- Where none is there twice, the first listings are the first exercises. -/
theorem take_listings {n : Nat} (h : ((listings concept rows).take n).Nodup) :
    (listings concept rows).take n = (storedOf concept rows).take n := by
  induction rows generalizing n with
  | nil => rfl
  | cons e rows ih =>
    by_cases he : e.bugMechanism?.isSome = true ∧ concept ∈ e.concepts.val
    · rw [listings_cons_of_pos he] at h ⊢
      rw [storedOf_cons_of_pos he]
      cases n with
      | zero => rfl
      | succ n =>
        rw [List.take_succ_cons] at h ⊢
        rw [List.take_succ_cons]
        cases hagain : e.concepts.val.count concept - 1 with
        | zero =>
          rw [hagain, List.replicate_zero, List.nil_append] at h
          rw [List.replicate_zero, List.nil_append, ih (List.nodup_cons.mp h).2]
        | succ k =>
          rw [hagain, List.replicate_succ, List.cons_append] at h
          cases n with
          | zero => rfl
          | succ n =>
            rw [List.take_succ_cons] at h
            exact absurd List.mem_cons_self (List.nodup_cons.mp h).1
    · rw [(listings_cons_of_neg he).1] at h ⊢
      rw [(listings_cons_of_neg he).2]
      exact ih h

theorem filterMap_bugMechanism? {l : List Exercise} (h : ∀ e ∈ l, e ∈ storedOf concept rows) :
    l.filterMap (·.bugMechanism?) = l.map fun e => e.bugMechanism?.getD "" := by
  rw [← List.filterMap_eq_map]
  refine List.filterMap_congr fun e he => ?_
  obtain ⟨hsome, -⟩ := Bool.and_eq_true_iff.mp (List.mem_filter.mp (h e he)).2
  obtain ⟨mechanism, hm⟩ := Option.isSome_iff_exists.mp hsome
  rw [hm]
  exact congrArg some (congrArg (Option.getD · "") hm).symm

end Listings

/-! ## The law -/

section Law

variable {concept : String} {rows : List Exercise} {published : List String}

/-- The three last of what is remembered are the three newest, if there are no more of them. -/
theorem lastEntries_eq_of_count (hcount : published.length + min limitPerConcept (listings concept rows).length ≤ 3)
    (honce : LoadedOnce concept rows) :
    lastEntries 3 (published ++ ((listings concept rows).filterMap (·.bugMechanism?)).take limitPerConcept) =
      (published ++ (storedOf concept rows).filterMap (·.bugMechanism?)).take 3 := by
  have hloaded : ((listings concept rows).filterMap (·.bugMechanism?)).take limitPerConcept =
      ((storedOf concept rows).filterMap (·.bugMechanism?)).take 3 := by
    rw [filterMap_bugMechanism? fun e => mem_listings.mp, filterMap_bugMechanism? fun e he => he, ← List.map_take,
      take_listings honce, List.map_take]
    rfl
  have hlength : (published ++ ((listings concept rows).filterMap (·.bugMechanism?)).take limitPerConcept).length ≤ 3 := by
    rw [filterMap_bugMechanism? fun e => mem_listings.mp, List.length_append, List.length_take, List.length_map]
    exact hcount
  rw [lastEntries_of_length_le hlength, ← List.take_of_length_le hlength, hloaded, take_append_take_right]

/-- Where no mechanism is published twice, that is needed. -/
theorem count_of_lastEntries_eq (hnodup : (published ++ (storedOf concept rows).filterMap (·.bugMechanism?)).Nodup)
    (h : lastEntries 3 (published ++ ((listings concept rows).filterMap (·.bugMechanism?)).take limitPerConcept) =
      (published ++ (storedOf concept rows).filterMap (·.bugMechanism?)).take 3) :
    published.length + min limitPerConcept (listings concept rows).length ≤ 3 ∧ LoadedOnce concept rows := by
  rw [filterMap_bugMechanism? fun e => mem_listings.mp] at h
  by_cases hcount : published.length + min limitPerConcept (listings concept rows).length ≤ 3
  · refine ⟨hcount, ?_⟩
    rw [lastEntries_of_length_le (by rw [List.length_append, List.length_take, List.length_map]; exact hcount)] at h
    have htaken := h ▸ hnodup.sublist (List.take_sublist _ _)
    have hloaded := (List.nodup_append.mp htaken).2.1
    rw [← List.map_take] at hloaded
    exact hloaded.of_map
  · exfalso
    cases published with
    | nil => exact hcount (by rw [List.length_nil, Nat.zero_add]; exact Nat.min_le_left _ _)
    | cons newest published =>
      have hnewest : newest ∈ lastEntries 3 (newest :: (published ++
          ((listings concept rows).map fun e => e.bugMechanism?.getD "").take limitPerConcept)) := by
        rw [← List.cons_append, h]
        exact List.mem_cons_self
      rw [List.cons_append, List.nodup_cons] at hnodup
      refine head_notMem_lastEntries (fun hmem => hnodup.1 ?_) ?_ hnewest
      · rcases List.mem_append.mp hmem with hmem | hmem
        · exact List.mem_append_left _ hmem
        · refine List.mem_append_right _ ?_
          obtain ⟨e, he, rfl⟩ := List.mem_map.mp (List.mem_of_mem_take hmem)
          rw [filterMap_bugMechanism? fun e he => he]
          exact List.mem_map_of_mem (mem_listings.mp he)
      · rw [← List.cons_append, List.length_append, List.length_take, List.length_map]
        omega

end Law

/-- **When the mechanisms to avoid are those published last.**  At every point of a batch they are, if no more than three
are remembered for the concept and no loaded exercise lists it twice; and if no two mechanisms are the same, only then. -/
theorem avoidPatterns_recent_iff {S : Type} [LinearOrder S] (h : Hashing) {createdAt : ExerciseId × Int → Int}
    {table : Exercises} (stored : StoredHistory createdAt table) (hscan : stored.rows.length ≤ scanLimit)
    (policy : LoopPolicy S) (commitAfterEachSpec : Bool) (rounds : List (Round S)) (concept : String) (b : SampledBatch S)
    (hb : b = rounds.foldl (Round.run h) (startSampled h table policy commitAfterEachSpec stored.rows)) :
    (rememberedCount concept stored.rows b.publications ≤ 3 ∧ LoadedOnce concept stored.rows →
      AvoidsMostRecent b stored.rows concept) ∧
    ((allMechanisms concept stored.rows b.publications).Nodup →
      (AvoidsMostRecent b stored.rows concept ↔
        rememberedCount concept stored.rows b.publications ≤ 3 ∧ LoadedOnce concept stored.rows)) := by
  have hremembers : Remembers (seedRecentBugMechanisms stored.rows) b := hb ▸ remembers_run (fun _ => rfl) rounds
  have hlast : AvoidsMostRecent b stored.rows concept ↔ lastEntries avoidPatternsHistoryDepth (b.mechanisms concept) =
      mostRecentMechanisms concept stored.rows b.publications := avoidsMostRecent_iff
  rw [hremembers concept, seedRecentBugMechanisms_apply hscan] at hlast
  have hlength : (publishedMechanisms concept b.publications).reverse.length =
      (publishedMechanisms concept b.publications).length := List.length_reverse
  rw [rememberedCount, ← hlength, hlast]
  exact ⟨fun hcond => lastEntries_eq_of_count hcond.1 hcond.2, fun hnodup =>
    ⟨count_of_lastEntries_eq hnodup, fun hcond => lastEntries_eq_of_count hcond.1 hcond.2⟩⟩

/-! Four sums are published with four mechanisms: the fifth is told to avoid the first three. -/

/-- The `k`-th sum, with a mechanism of its own. -/
def nthSum (k : Nat) : STBCandidate :=
  { sumCandidate "total = 1 + 1 + 1\n" with
    buggyCode := String.ofList (List.replicate k 'x')
    reasonOptions := [⟨"a", ""⟩, ⟨"b", ""⟩, ⟨"c", ""⟩, ⟨"d", String.ofList (List.replicate k 'm')⟩]
    four_reasons := rfl }

def nthRound (k : Nat) : Round Nat where
  exerciseType := "spot_the_bug"
  draw := ⟨"off-by-one", (sumSpec none).difficulty, "billing", true⟩
  resolve := fun spec =>
    { sumRun k with
      spec := spec
      cb := { sumCallbacks with generate := fun _ => ⟨some (.stb (nthSum k)), "stb_py_v5", ""⟩ } }
  resolves := fun _ => rfl

def emptyHistory : StoredHistory (fun _ => 0) Exercises.empty where
  rows := []
  all := .nil
  newestFirst := .nil

/-- The batch after so many of them. -/
def nthBatch (n : Nat) : SampledBatch Nat :=
  ((List.range' 1 n).map nthRound).foldl (Round.run sumHashing)
    (startSampled sumHashing Exercises.empty firstSurvivor false emptyHistory.rows)

theorem avoidPatterns_oldest :
    (sampleSpec (nthRound 5).draw "spot_the_bug" (nthBatch 4).mechanisms).map (·.avoidPatterns) =
        some ["mmm", "mm", "m"] ∧
      mostRecentMechanisms "off-by-one" emptyHistory.rows (nthBatch 4).publications = ["mmmm", "mmm", "mm"] := by
  decide +kernel

theorem avoidPatterns_recent_three : AvoidsMostRecent (nthBatch 3) emptyHistory.rows "off-by-one" :=
  (avoidPatterns_recent_iff sumHashing emptyHistory (Nat.zero_le _) firstSurvivor false _ "off-by-one" (nthBatch 3) rfl).1
    ⟨by decide +kernel, List.nodup_nil⟩

end CodeReader.Pipeline
