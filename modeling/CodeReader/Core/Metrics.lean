import CodeReader.Txn.Commits
import Mathlib.Algebra.Order.Ring.Rat
import Mathlib.Data.List.Sort
import Mathlib.Data.List.Perm.Subperm

/-!
# Golden signals

Latencies are pushed to a list of Redis that each recording cuts to its length again; outcomes are counted with two
counters.  Nothing is atomic but the single commands.

* `Metric` — the keys of a metric, with what was recorded;
* `recordLatency`, `p95LatencyMs`, `recordOutcome`, `errorRate`;
* `nearestRank_p95` — the percentile of a sample;
* `Metric.Ok` — **the invariant**: the list is the latest part of what was pushed, and errors are counted after totals;
* `metrics_sound`, `metrics_settle` — **the results**, for recordings and readings interleaved in any way.
-/

namespace CodeReader.Metrics

open Txn Prog

/-! ## Ranks -/

section Ranks

variable {values : List Rat} {v : Rat}

/-- The place of an element in a sorted list, by counts. -/
theorem countP_sorted {ordered : List Rat} (h : ordered.Pairwise (· ≤ ·)) {n : Nat} (hn : ordered[n]? = some v) :
    n + 1 ≤ ordered.countP (· ≤ v) ∧ ordered.countP (· < v) ≤ n := by
  obtain ⟨hlt, rfl⟩ := List.getElem?_eq_some_iff.mp hn
  have hsplit : ordered = ordered.take n ++ ordered[n] :: ordered.drop (n + 1) := by
    rw [List.getElem_cons_drop, List.take_append_drop]
  have hlength : (ordered.take n).length = n := by
    rw [List.length_take]
    omega
  generalize ordered[n] = v at hsplit
  rw [hsplit, List.pairwise_append] at h
  obtain ⟨-, hrest, hbefore⟩ := h
  obtain ⟨hafter, -⟩ := List.pairwise_cons.mp hrest
  rw [hsplit]
  simp only [List.countP_append, List.countP_cons]
  have hle : (ordered.take n).countP (· ≤ v) = n := by
    rw [List.countP_eq_length.mpr, hlength]
    intro a ha
    simpa using hbefore a ha v (List.mem_cons_self ..)
  have hlt' : (ordered.drop (n + 1)).countP (· < v) = 0 := by
    rw [List.countP_eq_zero]
    intro a ha
    simpa using hafter a ha
  have hbound : (ordered.take n).countP (· < v) ≤ (ordered.take n).length := List.countP_le_length
  constructor
  · simp [hle]
  · simp [hlt']
    omega

/-- `ordered[min(len(ordered) - 1, math.ceil(0.95 * len(ordered)) - 1)]`; for the lengths that occur the ceiling is that
of the exact product. -/
def p95Of (values : List Rat) : Option Rat :=
  (values.mergeSort fun a b => decide (a ≤ b))[min (values.length - 1) ((19 * values.length + 19) / 20 - 1)]?

theorem p95Of_eq_none : p95Of values = none ↔ values = [] := by
  unfold p95Of
  rw [List.getElem?_eq_none_iff, List.length_mergeSort]
  refine ⟨fun h => ?_, fun h => by simp [h]⟩
  by_contra hne
  have hpos := List.length_pos_iff.mpr hne
  omega

/-- The nearest rank: at least 95 of 100 values are at most the percentile, and fewer are less. -/
def NearestRank (values : List Rat) : Option Rat → Prop
  | none => values = []
  | some v => v ∈ values ∧ 19 * values.length ≤ 20 * values.countP (· ≤ v) ∧
      20 * values.countP (· < v) < 19 * values.length

theorem nearestRank_p95 (values : List Rat) : NearestRank values (p95Of values) := by
  cases h : p95Of values with
  | none => exact p95Of_eq_none.mp h
  | some v =>
    have hperm := List.mergeSort_perm values fun a b => decide (a ≤ b)
    have hsorted : (values.mergeSort fun a b => decide (a ≤ b)).Pairwise (· ≤ ·) := by
      have hpairs : (values.mergeSort fun a b => decide (a ≤ b)).Pairwise fun a b => decide (a ≤ b) = true :=
        List.pairwise_mergeSort (fun a b c => by simpa using le_trans) (fun a b => by simpa using le_total a b) values
      exact hpairs.imp fun hab => by simpa using hab
    have hpos : 0 < values.length := by
      rw [List.length_pos_iff]
      intro hnil
      rw [p95Of_eq_none.mpr hnil] at h
      cases h
    obtain ⟨hle, hlt⟩ := countP_sorted hsorted h
    rw [hperm.countP_eq] at hle hlt
    refine ⟨hperm.mem_iff.mp (List.mem_of_getElem? h), ?_, ?_⟩
    · omega
    · omega

end Ranks

/-! ## The keys -/

/-- The keys of a metric; the latencies that were pushed, the latest first, the recordings that have pushed and not cut
since, and those that have counted an outcome or an error. -/
structure Metric (τ : Type) where
  latency : List Rat
  total : Int
  errors : Int
  pushed : List Rat
  owing : List τ
  counted : List τ
  failed : List τ

abbrev MetricKeys (τ : Type) := String → Metric τ

abbrev MetricApp (τ : Type) : Iface where
  Db := Unit
  Kv := MetricKeys τ
  Lock := Empty
  Tbl := Empty
  Ev := Empty
  Err := Empty

/-- `_LATENCY_SAMPLE_MAX`. -/
def latencySampleMax : Nat := 500

namespace Metric

variable {τ : Type}

def empty : Metric τ := ⟨[], 0, 0, [], [], [], []⟩

/-- `LPUSH`. -/
def push (me : τ) (d : Rat) (m : Metric τ) : Metric τ :=
  { m with latency := d :: m.latency, pushed := d :: m.pushed, owing := me :: m.owing }

/-- `LTRIM 0 499`. -/
def trim (m : Metric τ) : Metric τ := { m with latency := m.latency.take latencySampleMax, owing := [] }

/-- `INCR` of the total. -/
def countTotal (me : τ) (m : Metric τ) : Metric τ := { m with total := m.total + 1, counted := me :: m.counted }

/-- `INCR` of the errors. -/
def countError (me : τ) (m : Metric τ) : Metric τ := { m with errors := m.errors + 1, failed := me :: m.failed }

end Metric

inductive Answer
  | recorded
  | p95 (value : Option Rat)
  | rate (total errors : Int) (errorRate : Rat)

section Programs

variable {τ : Type}

/-- A command on one metric. -/
def onMetric (metric : String) (f : Metric τ → Metric τ) : Prog (MetricApp τ) Unit :=
  cmd fun keys => ((), Function.update keys metric (f (keys metric)))

/-- `record_latency`. -/
def recordLatency (me : τ) (metric : String) (durationMs : Rat) : Prog (MetricApp τ) Answer := do
  onMetric metric (.push me durationMs)
  onMetric metric .trim
  ret .recorded

/-- `p95_latency_ms`. -/
def p95LatencyMs (metric : String) : Prog (MetricApp τ) Answer := do
  let values ← cmd fun keys => ((keys metric).latency, keys)
  ret (.p95 (p95Of values))

/-- `record_outcome`. -/
def recordOutcome (me : τ) (metric : String) (isError : Bool) : Prog (MetricApp τ) Answer := do
  onMetric metric (.countTotal me)
  if isError then
    onMetric metric (.countError me)
    ret .recorded
  else ret .recorded

/-- `error_rate`. -/
def errorRate (metric : String) : Prog (MetricApp τ) Answer := do
  let (total, errors) ← cmd fun keys => (((keys metric).total, (keys metric).errors), keys)
  ret (.rate total errors (if total = 0 then 0 else errors / total))

inductive MetricOp
  | recordLatency (metric : String) (durationMs : Rat)
  | p95LatencyMs (metric : String)
  | recordOutcome (metric : String) (isError : Bool)
  | errorRate (metric : String)
  deriving DecidableEq

def MetricOp.program (me : τ) : MetricOp → Prog (MetricApp τ) Answer
  | .recordLatency metric durationMs => Metrics.recordLatency me metric durationMs
  | .p95LatencyMs metric => Metrics.p95LatencyMs metric
  | .recordOutcome metric isError => Metrics.recordOutcome me metric isError
  | .errorRate metric => Metrics.errorRate metric

end Programs

/-- How far a recording has come with its metric. -/
inductive Stage
  | untouched
  | pushed
  | counted
  | failed
  deriving DecidableEq

namespace MetricOp

def metric : MetricOp → String
  | .recordLatency metric _ | .p95LatencyMs metric | .recordOutcome metric _ | .errorRate metric => metric

/-- Where the operation ends. -/
def stage : MetricOp → Stage
  | .recordOutcome _ true => .failed
  | .recordOutcome _ false => .counted
  | _ => .untouched

end MetricOp

def start {τ : Type} (ops : τ → MetricOp) : Sys (MetricApp τ) τ Answer := .start () (fun _ => .empty) fun i => (ops i).program i

/-! ## The invariant -/

section Invariant

variable {τ : Type} {m : Metric τ} {i : τ}

/-- The list is the latest part of what was pushed, and cut but for the recordings under way; errors are counted by
recordings that have counted their outcome before, each once. -/
structure Metric.Ok (m : Metric τ) : Prop where
  recent : m.latency <+: m.pushed
  enough : min latencySampleMax m.pushed.length ≤ m.latency.length
  bounded : m.latency.length ≤ latencySampleMax + m.owing.length
  total : m.total = m.counted.length
  errors : m.errors = m.failed.length
  countedOnce : m.counted.Nodup
  failedOnce : m.failed.Nodup
  failed : ∀ j ∈ m.failed, j ∈ m.counted

theorem Metric.Ok.push (h : m.Ok) (i : τ) (d : Rat) : (m.push i d).Ok where
  recent := List.prefix_cons_inj d |>.mpr h.recent
  enough := by
    have henough := h.enough
    show min latencySampleMax (m.pushed.length + 1) ≤ m.latency.length + 1
    omega
  bounded := Nat.succ_le_succ h.bounded
  total := h.total
  errors := h.errors
  countedOnce := h.countedOnce
  failedOnce := h.failedOnce
  failed := h.failed

theorem Metric.Ok.trim (h : m.Ok) : m.trim.Ok where
  recent := (List.take_prefix _ _).trans h.recent
  enough := by
    have henough := h.enough
    show min latencySampleMax m.pushed.length ≤ (m.latency.take latencySampleMax).length
    rw [List.length_take]
    omega
  bounded := by
    show (m.latency.take latencySampleMax).length ≤ latencySampleMax + 0
    rw [List.length_take]
    omega
  total := h.total
  errors := h.errors
  countedOnce := h.countedOnce
  failedOnce := h.failedOnce
  failed := h.failed

theorem Metric.Ok.countTotal (h : m.Ok) (hi : i ∉ m.counted) : (m.countTotal i).Ok :=
  { h with
    total := by
      show m.total + 1 = ((m.counted.length + 1 : Nat) : Int)
      rw [h.total, Nat.cast_succ]
    countedOnce := List.nodup_cons.mpr ⟨hi, h.countedOnce⟩
    failed := fun j hj => List.mem_cons_of_mem _ (h.failed j hj) }

theorem Metric.Ok.countError (h : m.Ok) (hi : i ∈ m.counted) (hnew : i ∉ m.failed) : (m.countError i).Ok :=
  { h with
    errors := by
      show m.errors + 1 = ((m.failed.length + 1 : Nat) : Int)
      rw [h.errors, Nat.cast_succ]
    failedOnce := List.nodup_cons.mpr ⟨hnew, h.failedOnce⟩
    failed := fun j hj => (List.mem_cons.mp hj).elim (fun he => he ▸ hi) (h.failed j) }

theorem Metric.Ok.empty : (Metric.empty : Metric τ).Ok where
  recent := List.prefix_rfl
  enough := Nat.min_le_right _ _
  bounded := Nat.zero_le _
  total := rfl
  errors := rfl
  countedOnce := List.nodup_nil
  failedOnce := List.nodup_nil
  failed _ hj := absurd hj List.not_mem_nil

/-- Errors are at most the total. -/
theorem Metric.Ok.errors_le (h : m.Ok) : m.errors ≤ m.total := by
  have hle : m.failed.length ≤ m.counted.length := (List.subperm_of_subset h.failedOnce h.failed).length_le
  rw [h.errors, h.total]
  omega

/-- What others do to a metric, as thread `i` sees it. -/
structure Metric.Apart (i : τ) (m m' : Metric τ) : Prop where
  ok : m.Ok → m'.Ok
  pushed : m.pushed <:+ m'.pushed
  owing : i ∈ m'.owing → i ∈ m.owing
  counted : i ∈ m'.counted ↔ i ∈ m.counted
  failed : i ∈ m'.failed ↔ i ∈ m.failed

theorem Metric.Apart.refl (i : τ) (m : Metric τ) : m.Apart i m := ⟨id, List.suffix_rfl, id, Iff.rfl, Iff.rfl⟩

theorem Metric.Apart.trans {m₁ m₂ m₃ : Metric τ} (h : m₁.Apart i m₂) (h' : m₂.Apart i m₃) : m₁.Apart i m₃ :=
  ⟨fun hok => h'.ok (h.ok hok), h.pushed.trans h'.pushed, fun hi => h.owing (h'.owing hi), h'.counted.trans h.counted,
    h'.failed.trans h.failed⟩

end Invariant

/-! ## Programs -/

section Runs

variable {τ : Type} {i : τ} {S S' S'' : Shared (MetricApp τ) τ} {metric : String} {op : MetricOp}

/-- What others do, as thread `i` sees it. -/
def MetricRely (i : τ) (S S' : Shared (MetricApp τ) τ) : Prop := ∀ metric, (S.kv metric).Apart i (S'.kv metric)

/-- What a statement of thread `i` does. -/
structure MetricStep (i : τ) (S S' : Shared (MetricApp τ) τ) : Prop where
  ok : ∀ metric, (S.kv metric).Ok → (S'.kv metric).Ok
  others : ∀ j, j ≠ i → MetricRely j S S'

theorem MetricRely.refl (i : τ) (S : Shared (MetricApp τ) τ) : MetricRely i S S := fun metric => .refl i (S.kv metric)

theorem MetricRely.trans (h : MetricRely i S S') (h' : MetricRely i S' S'') : MetricRely i S S'' :=
  fun metric => (h metric).trans (h' metric)

/-- A command that changes one metric. -/
theorem step_onMetric {f : Metric τ → Metric τ} (hok : (f (S.kv metric)).Ok)
    (hothers : ∀ j, j ≠ i → (S.kv metric).Apart j (f (S.kv metric))) :
    MetricStep i S { S with kv := Function.update S.kv metric (f (S.kv metric)) } where
  ok other h := by
    by_cases he : other = metric
    · subst he
      dsimp only
      rw [Function.update_self]
      exact hok
    · dsimp only
      rw [Function.update_of_ne he]
      exact h
  others j hj other := by
    by_cases he : other = metric
    · subst he
      dsimp only
      rw [Function.update_self]
      exact hothers j hj
    · dsimp only
      rw [Function.update_of_ne he]
      exact .refl j _

/-- What is true of a metric while thread `i` is at a stage of it. -/
structure Metric.At (i : τ) (stage : Stage) (m : Metric τ) : Prop where
  ok : m.Ok
  owing : i ∈ m.owing → stage = .pushed
  counted : i ∈ m.counted ↔ stage = .counted ∨ stage = .failed
  failed : i ∈ m.failed ↔ stage = .failed

theorem Metric.At.apart {stage : Stage} {m m' : Metric τ} (h : m.At i stage) (hs : m.Apart i m') : m'.At i stage :=
  ⟨hs.ok h.ok, fun hi => h.owing (hs.owing hi), hs.counted.trans h.counted, hs.failed.trans h.failed⟩

/-- Thread `i` is at a stage of its metric, and has not touched the others. -/
structure Own (i : τ) (metric : String) (stage : Stage) (S : Shared (MetricApp τ) τ) : Prop where
  mine : (S.kv metric).At i stage
  others : ∀ other, other ≠ metric → (S.kv other).At i .untouched

theorem steady_own (metric : String) (stage : Stage) : Steady (fun _ => MetricRely i) fun _ S => Own i metric stage S where
  rely _ _ _ h hs := ⟨h.mine.apart (hs metric), fun other he => (h.others other he).apart (hs other)⟩
  lock _ _ _ h := h
  read _ _ _ h := h

namespace Metric.At

variable {m : Metric τ}

theorem push (h : m.At i .untouched) (d : Rat) : (m.push i d).At i .pushed where
  ok := h.ok.push i d
  owing _ := rfl
  counted := h.counted.trans (by simp)
  failed := h.failed.trans (by simp)

theorem trim (h : m.At i .pushed) : m.trim.At i .untouched where
  ok := h.ok.trim
  owing hi := absurd hi List.not_mem_nil
  counted := h.counted.trans (by simp)
  failed := h.failed.trans (by simp)

theorem countTotal (h : m.At i .untouched) : (m.countTotal i).At i .counted where
  ok := h.ok.countTotal fun hi => by simpa using h.counted.mp hi
  owing hi := by simpa using h.owing hi
  counted := by simp [Metric.countTotal]
  failed := h.failed.trans (by simp)

theorem countError (h : m.At i .counted) : (m.countError i).At i .failed where
  ok := h.ok.countError (h.counted.mpr (.inl rfl)) fun hi => by simpa using h.failed.mp hi
  owing hi := by simpa using h.owing hi
  counted := h.counted.trans (by simp)
  failed := by simp [Metric.countError]

end Metric.At

section Others

variable {m : Metric τ} {j : τ}

theorem apart_push (hj : j ≠ i) (hok : ∀ d, (m.push i d).Ok) (d : Rat) : m.Apart j (m.push i d) where
  ok _ := hok d
  pushed := List.suffix_cons ..
  owing hi := (List.mem_cons.mp hi).resolve_left hj
  counted := Iff.rfl
  failed := Iff.rfl

theorem apart_trim (hok : m.trim.Ok) : m.Apart j m.trim where
  ok _ := hok
  pushed := List.suffix_rfl
  owing hi := absurd hi List.not_mem_nil
  counted := Iff.rfl
  failed := Iff.rfl

theorem apart_countTotal (hj : j ≠ i) (hok : (m.countTotal i).Ok) : m.Apart j (m.countTotal i) where
  ok _ := hok
  pushed := List.suffix_rfl
  owing := id
  counted := by simp [Metric.countTotal, hj]
  failed := Iff.rfl

theorem apart_countError (hj : j ≠ i) (hok : (m.countError i).Ok) : m.Apart j (m.countError i) where
  ok _ := hok
  pushed := List.suffix_rfl
  owing := id
  counted := Iff.rfl
  failed := by simp [Metric.countError, hj]

end Others

/-- A command takes thread `i` to another stage. -/
theorem Own.update {stage stage' : Stage} {f : Metric τ → Metric τ} (h : Own i metric stage S)
    (hf : (f (S.kv metric)).At i stage') :
    Own i metric stage' { S with kv := Function.update S.kv metric (f (S.kv metric)) } where
  mine := by
    dsimp only
    rw [Function.update_self]
    exact hf
  others other he := by
    dsimp only
    rw [Function.update_of_ne he]
    exact h.others other he

theorem Own.all {stage : Stage} (h : Own i metric stage S) (other : String) :
    (S.kv other).At i (if other = metric then stage else .untouched) := by
  by_cases he : other = metric
  · rw [if_pos he, he]
    exact h.mine
  · rw [if_neg he]
    exact h.others other he

namespace MetricOp

/-- What the operation answers: the percentile is that of a latest part of what had been pushed when it was read. -/
def Answered (keys : MetricKeys τ) : MetricOp → Answer → Prop
  | .recordLatency _ _, a | .recordOutcome _ _, a => a = .recorded
  | .p95LatencyMs metric, a => ∃ pushed values, pushed <:+ (keys metric).pushed ∧ values <+: pushed ∧
      min latencySampleMax pushed.length ≤ values.length ∧ ∃ v, a = .p95 v ∧ NearestRank values v
  | .errorRate _, a => ∃ total errors rate, a = .rate total errors rate ∧ 0 ≤ errors ∧ errors ≤ total ∧ 0 ≤ rate ∧ rate ≤ 1

end MetricOp

/-- Where an operation ends, and what it answers. -/
structure Ended (i : τ) (op : MetricOp) (r : Except Empty Answer) (S : Shared (MetricApp τ) τ) : Prop where
  own : Own i op.metric op.stage S
  answered : ∃ a, r = .ok a ∧ op.Answered S.kv a

theorem Ended.rely {r : Except Empty Answer} (h : Ended i op r S) (hs : MetricRely i S S') : Ended i op r S' where
  own := (steady_own op.metric op.stage).rely .idle S S' h.own hs
  answered := by
    obtain ⟨a, ha, hanswer⟩ := h.answered
    refine ⟨a, ha, ?_⟩
    cases op with
    | recordLatency | recordOutcome | errorRate => exact hanswer
    | p95LatencyMs metric =>
      obtain ⟨pushed, values, hpushed, hrest⟩ := hanswer
      exact ⟨pushed, values, hpushed.trans (hs metric).pushed, hrest⟩

/-- The rate of errors that are at most the total. -/
theorem rate_bounds {total errors : Int} (hpos : 0 ≤ errors) (hle : errors ≤ total) :
    0 ≤ (if total = 0 then 0 else (errors : Rat) / total) ∧ (if total = 0 then 0 else (errors : Rat) / total) ≤ 1 := by
  have hnonneg : (0 : Rat) ≤ errors := by exact_mod_cast hpos
  have htotal : (0 : Rat) ≤ total := by exact_mod_cast hpos.trans hle
  split
  · exact ⟨le_refl 0, zero_le_one⟩
  · refine ⟨div_nonneg hnonneg htotal, div_le_one_of_le₀ ?_ htotal⟩
    exact_mod_cast hle

/-- **Every operation** keeps the metrics in order. -/
theorem wp_op (op : MetricOp) (l : Local (MetricApp τ)) (h : ∀ metric, (S.kv metric).At i .untouched) :
    wp (fun _ => MetricRely i) (fun _ _ => MetricStep i) i (fun r _ S => Ended i op r S) (op.program i) l S := by
  have hown : ∀ metric, Own i metric .untouched S := fun metric => ⟨h metric, fun other _ => h other⟩
  cases op with
  | recordLatency metric d =>
    refine (steady_own metric .untouched).wp_kv (hown metric) fun S₁ h₁ => ?_
    have hpush := h₁.mine.push d
    refine ⟨step_onMetric hpush.ok fun j hj => apart_push hj (fun d => (h₁.mine.push d).ok) d, ?_⟩
    refine (steady_own metric .pushed).wp_kv (h₁.update hpush) fun S₂ h₂ => ?_
    have htrim := h₂.mine.trim
    refine ⟨step_onMetric htrim.ok fun j _ => apart_trim htrim.ok, ?_⟩
    exact (steady_own metric .untouched).wp_ret (h₂.update htrim) fun S₃ h₃ => ⟨h₃, _, rfl, rfl⟩
  | p95LatencyMs metric =>
    refine (steady_own metric .untouched).wp_kv (hown metric) fun S₁ h₁ => ?_
    refine ⟨⟨fun _ => id, fun j _ => .refl j S₁⟩, fun S₂ h₂ => ?_⟩
    have hok := h₁.mine.ok
    exact ⟨(steady_own metric .untouched).rely .idle S₁ S₂ h₁ h₂, _, rfl, _, _, (h₂ metric).pushed, hok.recent, hok.enough, _, rfl,
      nearestRank_p95 _⟩
  | recordOutcome metric isError =>
    refine (steady_own metric .untouched).wp_kv (hown metric) fun S₁ h₁ => ?_
    have htotal := h₁.mine.countTotal
    refine ⟨step_onMetric htotal.ok fun j hj => apart_countTotal hj htotal.ok, ?_⟩
    cases isError with
    | false => exact (steady_own metric .counted).wp_ret (h₁.update htotal) fun S₂ h₂ => ⟨h₂, _, rfl, rfl⟩
    | true =>
      refine (steady_own metric .counted).wp_kv (h₁.update htotal) fun S₂ h₂ => ?_
      have herror := h₂.mine.countError
      refine ⟨step_onMetric herror.ok fun j hj => apart_countError hj herror.ok, ?_⟩
      exact (steady_own metric .failed).wp_ret (h₂.update herror) fun S₃ h₃ => ⟨h₃, _, rfl, rfl⟩
  | errorRate metric =>
    refine (steady_own metric .untouched).wp_kv (hown metric) fun S₁ h₁ => ?_
    refine ⟨⟨fun _ => id, fun j _ => .refl j S₁⟩, fun S₂ h₂ => ?_⟩
    have hpos : 0 ≤ (S₁.kv metric).errors := by
      rw [h₁.mine.ok.errors]
      omega
    have hle := h₁.mine.ok.errors_le
    exact ⟨(steady_own metric .untouched).rely .idle S₁ S₂ h₁ h₂, _, rfl, _, _, _, rfl, hpos, hle, rate_bounds hpos hle⟩

theorem metric_rules [DecidableEq τ] (ops : τ → MetricOp) :
    Rules (fun _ _ => False) (start ops) (fun i _ => MetricRely i) (fun i _ _ => MetricStep i)
      fun i r S => Ended i (ops i) r S where
  refl i _ := .refl i
  trans _ _ _ _ _ := .trans
  outside _ _ _ _ h := h.elim
  compat _ i j _ _ hj hG := hG.others j hj
  stable _ _ _ _ h hs := h.rely hs
  start i := good_start (wp_op (ops i) _ fun _ => ⟨.empty, fun hi => absurd hi List.not_mem_nil,
    iff_of_false List.not_mem_nil (by simp), iff_of_false List.not_mem_nil (by simp)⟩)

end Runs

/-! ## Results -/

section Results

variable {τ : Type} [DecidableEq τ] {ops : τ → MetricOp} {s : Sys (MetricApp τ) τ Answer}

theorem metric_ok (h : Reach (fun _ _ => False) anyCommit (start ops) s) (metric : String) : (s.shared.kv metric).Ok :=
  Reach.inv (metric_rules ops) (J := fun S => ∀ metric, (S.kv metric).Ok) (fun _ => .empty)
    (fun _ _ _ _ hJ hG metric => hG.ok metric (hJ metric)) (fun _ _ _ _ _ hJ hG metric => hG.ok metric (hJ metric))
    (fun _ _ hout _ => hout.elim) h metric

/-- **Golden signals**: in every state that operations interleaved in any way reach, crashes included, the errors are at
most the total; the sample is a latest part of what was pushed, of all of it up to 500 values, and longer only by the
recordings that have not cut it yet; and every reading that has ended has answered so. -/
theorem metrics_sound (h : Reach (fun _ _ => False) anyCommit (start ops) s) (metric : String) :
    (s.shared.kv metric).errors ≤ (s.shared.kv metric).total ∧
    (s.shared.kv metric).latency <+: (s.shared.kv metric).pushed ∧
    min latencySampleMax (s.shared.kv metric).pushed.length ≤ (s.shared.kv metric).latency.length ∧
    (s.shared.kv metric).latency.length ≤ latencySampleMax + (s.shared.kv metric).owing.length ∧
    ∀ i r, s.threads i = .done r → ∃ a, r = .ok a ∧ (ops i).Answered s.shared.kv a := by
  have hok := metric_ok h metric
  refine ⟨hok.errors_le, hok.recent, hok.enough, hok.bounded, fun i r hdone => ?_⟩
  have hgood := h.good (metric_rules ops) i
  simp only [Good, hdone] at hgood
  exact hgood.2.answered

/-- Where an operation that has ended is with a metric. -/
def MetricOp.stageOf (op : MetricOp) (metric : String) : Stage := if metric = op.metric then op.stage else .untouched

theorem stageOf_ne_pushed (op : MetricOp) (metric : String) : op.stageOf metric ≠ .pushed := by
  unfold MetricOp.stageOf MetricOp.stage
  split
  · split <;> simp
  · simp

theorem counted_iff (op : MetricOp) (metric : String) :
    (op.stageOf metric = .counted ∨ op.stageOf metric = .failed) ↔ ∃ isError, op = .recordOutcome metric isError := by
  unfold MetricOp.stageOf
  cases op with
  | recordOutcome other isError =>
    by_cases he : metric = other
    · cases isError <;> simp [MetricOp.metric, MetricOp.stage, he]
    · simp [MetricOp.metric, he, Ne.symm he]
  | recordLatency | p95LatencyMs | errorRate => simp [MetricOp.stage]

theorem failed_iff (op : MetricOp) (metric : String) :
    op.stageOf metric = .failed ↔ op = .recordOutcome metric true := by
  unfold MetricOp.stageOf
  cases op with
  | recordOutcome other isError =>
    by_cases he : metric = other
    · cases isError <;> simp [MetricOp.metric, MetricOp.stage, he]
    · simp [MetricOp.metric, he, Ne.symm he]
  | recordLatency | p95LatencyMs | errorRate => simp [MetricOp.stage]

/-- Two latencies are pushed before either is cut, an error is counted, and both are read. -/
def fourCalls : Fin 4 → MetricOp
  | 0 => .recordLatency "session_fetch" 120
  | 1 => .recordLatency "session_fetch" 80
  | 2 => .recordOutcome "session_fetch" true
  | 3 => .p95LatencyMs "session_fetch"

def fourCallsRun : List (Fin 4) := [0, 1, 2, 3, 3, 1, 0, 1, 0, 2, 2]

theorem metrics_sound_four :
    let s := (start fourCalls).after anyCommit fourCallsRun
    (s.shared.kv "session_fetch").latency = [80, 120] ∧
      (s.shared.kv "session_fetch").errors ≤ (s.shared.kv "session_fetch").total := by
  intro s
  have hreach : Reach (fun _ _ => False) anyCommit (start fourCalls) s := Reach.after (by decide +kernel)
  exact ⟨by decide +kernel, (metrics_sound hreach "session_fetch").1⟩

end Results

end CodeReader.Metrics
