import CodeReader.Core.Expiring
import CodeReader.Txn.Commits
import Mathlib.Data.List.Sort

/-!
# Triggers and the locks of their jobs

A trigger runs jobs one after another, each between `SET NX EX` and `DEL` on the lock of the job.  Where Redis does not
answer, the job runs without its lock.

* `TriggerKeys` — the locks, with the runs that hold them;
* `runJob`, `runJobs` — one job, and all that a trigger names;
* `Excluded` — **the invariant**: a run that is not overdue has its lock, and no other run of the job has it;
* `lock_excludes` — **the result**, where no lock is released after it is over;
* `late_release_overlaps` — two runs at once, after a release that came late;
* `reports_selected` — what a trigger reports, whatever else runs.
-/

namespace CodeReader.Jobs.Trigger

open Txn Prog Expiring

/-! ## Jobs -/

/-- A run of a job that has taken the lock. -/
structure Holding (τ : Type) where
  job : String
  owner : τ
  since : Int
  deriving DecidableEq

/-- What becomes of a command: it is answered, it is executed but the answer is lost, or it does not arrive. -/
inductive Reply
  | answered
  | lost
  | down
  deriving DecidableEq

/-- Redis, with its clock and how it answers; the runs that hold a lock, and whether one of them was released when its
lock was over. -/
structure TriggerKeys (τ : Type) where
  now : Int
  reply : Reply
  locks : String → Option (Entry Unit)
  running : List (Holding τ)
  late : Bool

inductive TriggerErr
  | valueError (message : String)
  deriving DecidableEq

abbrev TriggerApp (τ : Type) : Iface where
  Db := Unit
  Kv := TriggerKeys τ
  Lock := Empty
  Tbl := Empty
  Ev := String
  Err := TriggerErr

/-- `_LOCK_TTL_S`, in milliseconds. -/
def lockTtl : Int := 600 * 1000

inductive JobReport
  | skipped
  | result (counts : List (String × Int))
  | error (name : String)
  deriving DecidableEq

/-- `TRIGGERABLE`. -/
def triggerable : List String := ["reminders", "weekly_recap"]

section Keys

variable {τ : Type}

def Holding.overdue (now : Int) (h : Holding τ) : Prop := h.since + lockTtl ≤ now

instance (now : Int) (h : Holding τ) : Decidable (h.overdue now) := inferInstanceAs (Decidable (_ ≤ _))

namespace TriggerKeys

/-- `SET jobtrigger:running:{name} 1 EX 600 NX`: `none` where there is no answer, else when the lock was taken, if it
was. -/
def claim (name : String) (me : τ) (keys : TriggerKeys τ) : Option (Option Int) × TriggerKeys τ :=
  match keys.reply, setNxEx keys.now lockTtl () (keys.locks name) with
  | .answered, (true, key) => (some (some keys.now),
      { keys with locks := Function.update keys.locks name key, running := keys.running ++ [⟨name, me, keys.now⟩] })
  | .answered, (false, _) => (some none, keys)
  | .lost, (_, key) => (none, { keys with locks := Function.update keys.locks name key })
  | .down, _ => (none, keys)

/-- `DEL jobtrigger:running:{name}`, which may fail. -/
def release [DecidableEq τ] (h : Holding τ) (keys : TriggerKeys τ) : TriggerKeys τ :=
  { keys with
    locks := if keys.reply = .down then keys.locks else Function.update keys.locks h.job none
    running := keys.running.filter (· ≠ h)
    late := keys.late || decide (h.overdue keys.now) }

end TriggerKeys

variable [DecidableEq τ]

/-- One job; `work` is what comes of it. -/
def runJob (me : τ) (work : String → JobReport) (name : String) : Prog (TriggerApp τ) JobReport := do
  match ← cmd (TriggerKeys.claim name me) with
  | some none => ret .skipped
  | some (some since) => do
    note name
    cmd fun keys => ((), keys.release ⟨name, me, since⟩)
    ret (work name)
  | none => do
    note name
    ret (work name)

/-- `results[name] = ...`. -/
def setResult (name : String) (report : JobReport) (results : List (String × JobReport)) : List (String × JobReport) :=
  if (results.lookup name).isSome then results.map fun r => if r.1 = name then (name, report) else r
  else results ++ [(name, report)]

def runSelected (me : τ) (work : String → JobReport) :
    List String → List (String × JobReport) → Prog (TriggerApp τ) (List (String × JobReport))
  | [], results => ret results
  | name :: names, results => do
    let report ← runJob me work name
    runSelected me work names (setResult name report results)

/-- `names or list(TRIGGERABLE)`. -/
def selected : Option (List String) → List String
  | none | some [] => triggerable
  | some names => names

/-- `run_jobs`. -/
def runJobs (me : τ) (work : String → JobReport) (names : Option (List String)) :
    Prog (TriggerApp τ) (List (String × JobReport)) :=
  let unknown := (selected names).filter fun name => !triggerable.contains name
  if unknown ≠ [] then
    raise (.valueError ("Unknown job(s): " ++ ", ".intercalate (unknown.insertionSort fun a b => a ≤ b)))
  else runSelected me work (selected names) []

/-- A trigger: the jobs that it names, and what comes of each. -/
structure TriggerRequest where
  names : Option (List String)
  work : String → JobReport

def start (request : τ → TriggerRequest) : Sys (TriggerApp τ) τ (List (String × JobReport)) :=
  .start () ⟨0, .answered, fun _ => none, [], false⟩ fun i => runJobs i (request i).work (request i).names

/-- Time goes by, and Redis may answer or not. -/
structure Outside (keys keys' : TriggerKeys τ) : Prop where
  now : keys.now ≤ keys'.now
  locks : keys'.locks = keys.locks
  running : keys'.running = keys.running
  late : keys'.late = keys.late

/-! ## The invariant -/

/-- A run that is not overdue has its lock, and no other run of the job has it. -/
structure Excluded (keys : TriggerKeys τ) : Prop where
  locked : ∀ h ∈ keys.running, ¬ h.overdue keys.now → keys.locks h.job = some ⟨(), some (h.since + lockTtl)⟩
  alone : ∀ h ∈ keys.running, ∀ h' ∈ keys.running, h.job = h'.job → ¬ h.overdue keys.now → ¬ h'.overdue keys.now → h = h'

/-- Every lock is over so long after it was taken. -/
def Timed (keys : TriggerKeys τ) : Prop :=
  ∀ job e, keys.locks job = some e → ∃ t, t ≤ keys.now ∧ e.expiresAt = some (t + lockTtl)

/-- What the other triggers do: the runs of thread `i` are left alone. -/
structure TriggerRely (i : τ) (S S' : Shared (TriggerApp τ) τ) : Prop where
  excluded : (S.kv.late = false → Excluded S.kv) → S'.kv.late = false → Excluded S'.kv
  timed : Timed S.kv → Timed S'.kv
  late : S.kv.late = true → S'.kv.late = true
  mine : ∀ h : Holding τ, h.owner = i → (h ∈ S'.kv.running ↔ h ∈ S.kv.running)

/-- What a statement of thread `i` does. -/
structure TriggerStep (i : τ) (S S' : Shared (TriggerApp τ) τ) : Prop where
  excluded : (S.kv.late = false → Excluded S.kv) → S'.kv.late = false → Excluded S'.kv
  timed : Timed S.kv → Timed S'.kv
  late : S.kv.late = true → S'.kv.late = true
  others : ∀ h : Holding τ, h.owner ≠ i → (h ∈ S'.kv.running ↔ h ∈ S.kv.running)

section Rules

variable {i : τ} {S S' S'' : Shared (TriggerApp τ) τ} {keys : TriggerKeys τ} {name : String}

omit [DecidableEq τ] in
theorem TriggerRely.refl (i : τ) (S : Shared (TriggerApp τ) τ) : TriggerRely i S S := ⟨id, id, id, fun _ _ => Iff.rfl⟩

omit [DecidableEq τ] in
theorem TriggerRely.trans (h : TriggerRely i S S') (h' : TriggerRely i S' S'') : TriggerRely i S S'' :=
  ⟨fun hs => h'.excluded (h.excluded hs), fun hs => h'.timed (h.timed hs), fun hs => h'.late (h.late hs),
    fun g hg => (h'.mine g hg).trans (h.mine g hg)⟩

omit [DecidableEq τ] in
theorem TriggerStep.rely {j : τ} (h : TriggerStep i S S') (hj : j ≠ i) : TriggerRely j S S' :=
  ⟨h.excluded, h.timed, h.late, fun g hg => h.others g (hg ▸ hj)⟩

omit [DecidableEq τ] in
theorem Excluded.outside {keys' : TriggerKeys τ} (h : Excluded keys) (hout : Outside keys keys') : Excluded keys' := by
  have hlater : ∀ g : Holding τ, ¬ g.overdue keys'.now → ¬ g.overdue keys.now := fun g hg ho =>
    hg (Int.le_trans ho hout.now)
  refine ⟨fun g hg hdue => ?_, fun g hg g' hg' hjob hdue hdue' => ?_⟩
  · rw [hout.locks]
    exact h.locked g (hout.running ▸ hg) (hlater g hdue)
  · exact h.alone g (hout.running ▸ hg) g' (hout.running ▸ hg') hjob (hlater g hdue) (hlater g' hdue')

omit [DecidableEq τ] in
theorem Timed.outside {keys' : TriggerKeys τ} (h : Timed keys) (hout : Outside keys keys') : Timed keys' := by
  intro job e he
  obtain ⟨t, ht, hexpires⟩ := h job e (hout.locks ▸ he)
  exact ⟨t, Int.le_trans ht hout.now, hexpires⟩

omit [DecidableEq τ] in
theorem TriggerRely.outside {keys : TriggerKeys τ} (h : Outside S.kv keys) : TriggerRely i S { S with kv := keys } where
  excluded hs hlate := (hs (h.late ▸ hlate)).outside h
  timed hs := hs.outside h
  late hs := h.late.trans hs
  mine g _ := by rw [← h.running]

omit [DecidableEq τ] in
/-- A run whose lock is free is overdue. -/
theorem Excluded.overdue (h : Excluded keys) (hfree : live keys.now (keys.locks name) = none) {g : Holding τ}
    (hg : g ∈ keys.running) (hjob : g.job = name) : g.overdue keys.now := by
  by_contra hdue
  have hkey := h.locked g hg hdue
  rw [hjob] at hkey
  have hdead := live_eq_none.mp hfree _ hkey
  unfold Holding.overdue at hdue
  simp [Entry.liveAt] at hdead
  omega

omit [DecidableEq τ] in
/-- A lock is taken, and nobody knows of it. -/
theorem Excluded.lost (h : Excluded keys) (hfree : live keys.now (keys.locks name) = none) :
    Excluded { keys with locks := Function.update keys.locks name (setEx keys.now lockTtl ()) } where
  locked g hg hdue := by
    have hother : g.job ≠ name := fun hjob => hdue (h.overdue hfree hg hjob)
    show Function.update keys.locks name _ g.job = _
    rw [Function.update_of_ne hother]
    exact h.locked g hg hdue
  alone := h.alone

omit [DecidableEq τ] in
/-- A lock is taken, and the run that has it starts. -/
theorem Excluded.claim (h : Excluded keys) (hfree : live keys.now (keys.locks name) = none) :
    Excluded { keys with
      locks := Function.update keys.locks name (setEx keys.now lockTtl ())
      running := keys.running ++ [⟨name, i, keys.now⟩] } := by
  refine ⟨fun g hg hdue => ?_, fun g hg g' hg' hjob hdue hdue' => ?_⟩
  · rcases List.mem_append.mp hg with hold | hnew
    · exact (h.lost hfree).locked g hold hdue
    · rw [List.mem_singleton.mp hnew]
      exact Function.update_self ..
  · rcases List.mem_append.mp hg with hold | hnew
    · rcases List.mem_append.mp hg' with hold' | hnew'
      · exact h.alone g hold g' hold' hjob hdue hdue'
      · rw [List.mem_singleton.mp hnew'] at hjob
        exact absurd (h.overdue hfree hold hjob) hdue
    · rcases List.mem_append.mp hg' with hold' | hnew'
      · rw [List.mem_singleton.mp hnew] at hjob
        exact absurd (h.overdue hfree hold' hjob.symm) hdue'
      · rw [List.mem_singleton.mp hnew, List.mem_singleton.mp hnew']

/-- A run that is released in time deletes its own lock. -/
theorem Excluded.release (h : Excluded keys) {g : Holding τ} (hg : g ∈ keys.running) (hdue : ¬ g.overdue keys.now) :
    Excluded (keys.release g) where
  locked g' hg' hdue' := by
    obtain ⟨hmem, hne⟩ := List.mem_filter.mp hg'
    have hother : g'.job ≠ g.job := by
      intro hjob
      have hsame := h.alone g' hmem g hg hjob hdue' hdue
      simp [hsame] at hne
    have hkey := h.locked g' hmem hdue'
    show (if keys.reply = .down then keys.locks else Function.update keys.locks g.job none) g'.job = _
    split
    · exact hkey
    · rw [Function.update_of_ne hother]
      exact hkey
  alone g₁ hg₁ g₂ hg₂ hjob hdue₁ hdue₂ :=
    h.alone g₁ (List.mem_filter.mp hg₁).1 g₂ (List.mem_filter.mp hg₂).1 hjob hdue₁ hdue₂

omit [DecidableEq τ] in
theorem Timed.set (h : Timed keys) (name : String) :
    ∀ job e, Function.update keys.locks name (setEx keys.now lockTtl ()) job = some e →
      ∃ t, t ≤ keys.now ∧ e.expiresAt = some (t + lockTtl) := by
  intro job e he
  by_cases hjob : job = name
  · subst hjob
    rw [Function.update_self] at he
    cases he
    exact ⟨keys.now, Int.le_refl _, rfl⟩
  · rw [Function.update_of_ne hjob] at he
    exact h job e he

omit [DecidableEq τ] in
theorem TriggerStep.refl (i : τ) (S : Shared (TriggerApp τ) τ) : TriggerStep i S S := ⟨id, id, id, fun _ _ => Iff.rfl⟩

omit [DecidableEq τ] in
/-- What `SET NX EX` does: nothing, or a free lock is taken, with a run or without. -/
theorem claim_cases (name : String) (me : τ) (keys : TriggerKeys τ) :
    (∀ since, (keys.claim name me).1 ≠ some (some since)) ∧ (keys.claim name me).2 = keys ∨
    live keys.now (keys.locks name) = none ∧
      (keys.claim name me =
          (none, { keys with locks := Function.update keys.locks name (setEx keys.now lockTtl ()) }) ∨
        keys.claim name me = (some (some keys.now), { keys with
          locks := Function.update keys.locks name (setEx keys.now lockTtl ())
          running := keys.running ++ [⟨name, me, keys.now⟩] })) := by
  cases hlive : live keys.now (keys.locks name) with
  | some e =>
    have hset : setNxEx keys.now lockTtl () (keys.locks name) = (false, keys.locks name) := by
      unfold setNxEx
      rw [hlive, (live_eq_some.mp hlive).1]
    left
    unfold TriggerKeys.claim
    rw [hset]
    split
    · rename_i hreply hkey
      cases hkey
    · simp
    · rename_i hreply hkey
      cases hkey
      simp [Function.update_eq_self]
    · simp
  | none =>
    have hset : setNxEx keys.now lockTtl () (keys.locks name) = (true, setEx keys.now lockTtl ()) := by
      unfold setNxEx
      rw [hlive]
    unfold TriggerKeys.claim
    rw [hset]
    split
    · rename_i hreply hkey
      cases hkey
      exact .inr ⟨rfl, .inr rfl⟩
    · rename_i hreply hkey
      cases hkey
    · rename_i hreply hkey
      cases hkey
      exact .inr ⟨rfl, .inl rfl⟩
    · simp

omit [DecidableEq τ] in
/-- `SET NX EX`. -/
theorem step_claim (name : String) (S : Shared (TriggerApp τ) τ) :
    TriggerStep i S { S with kv := (S.kv.claim name i).2 } ∧
      ∀ since, (S.kv.claim name i).1 = some (some since) → ⟨name, i, since⟩ ∈ (S.kv.claim name i).2.running := by
  obtain ⟨hanswer, hkeys⟩ | ⟨hfree, hclaim | hclaim⟩ := claim_cases name i S.kv
  · rw [hkeys]
    exact ⟨.refl i S, fun since h => absurd h (hanswer since)⟩
  · rw [hclaim]
    exact ⟨⟨fun hs hlate => (hs hlate).lost hfree, fun hs => hs.set name, id, fun _ _ => Iff.rfl⟩,
      fun since h => by cases h⟩
  · rw [hclaim]
    refine ⟨⟨fun hs hlate => (hs hlate).claim hfree, fun hs => hs.set name, id, fun g hg => ?_⟩, ?_⟩
    · have hne : g ≠ ⟨name, i, S.kv.now⟩ := fun he => hg (congrArg Holding.owner he)
      simp [hne]
    · rintro since ⟨⟩
      exact List.mem_append_right _ (List.mem_singleton_self _)

/-- `DEL`, by the run that has taken the lock. -/
theorem step_release {since : Int} (hmine : (⟨name, i, since⟩ : Holding τ) ∈ S.kv.running) :
    TriggerStep i S { S with kv := S.kv.release ⟨name, i, since⟩ } where
  excluded hs hlate := by
    obtain ⟨hold, htime⟩ : S.kv.late = false ∧ ¬ (⟨name, i, since⟩ : Holding τ).overdue S.kv.now := by
      simpa [TriggerKeys.release] using hlate
    exact (hs hold).release hmine htime
  timed hs job e he := by
    change (if S.kv.reply = .down then S.kv.locks else Function.update S.kv.locks name none) job = some e at he
    split at he
    · exact hs job e he
    · by_cases hjob : job = name
      · subst hjob
        rw [Function.update_self] at he
        cases he
      · rw [Function.update_of_ne hjob] at he
        exact hs job e he
  late hs := by simp [TriggerKeys.release, hs]
  others g hg := by
    have hne : g ≠ ⟨name, i, since⟩ := fun he => hg (congrArg Holding.owner he)
    simp [TriggerKeys.release, hne]

/-! ## Programs -/

omit [DecidableEq τ] in
theorem steady_mine {g : Holding τ} (hg : g.owner = i) : Steady (fun _ => TriggerRely i) fun _ S => g ∈ S.kv.running where
  rely _ _ _ h hs := (hs.mine g hg).mpr h
  lock _ _ _ h := h
  read _ _ _ h := h

omit [DecidableEq τ] in
theorem steady_true : Steady (fun _ => TriggerRely i) fun _ _ => True where
  rely _ _ _ _ _ := trivial
  lock _ _ _ _ := trivial
  read _ _ _ _ := trivial

/-- A job ends in a report: it was skipped, or something came of it. -/
theorem wp_runJob (work : String → JobReport) (name : String) (l : Local (TriggerApp τ)) :
    wp (fun _ => TriggerRely i) (fun _ _ => TriggerStep i) i
      (fun r _ _ => ∃ report, r = .ok report ∧ (report = .skipped ∨ report = work name)) (runJob i work name) l S := by
  have hobserve : ∀ (S : Shared (TriggerApp τ) τ) e, TriggerStep i S { S with trace := S.trace ++ [(i, e)] } :=
    fun _ _ => ⟨id, id, id, fun _ _ => Iff.rfl⟩
  refine steady_true.wp_kv trivial fun S₁ _ => ?_
  obtain ⟨hstep, hmine⟩ := step_claim (i := i) name S₁
  refine ⟨hstep, ?_⟩
  generalize S₁.kv.claim name i = claimed at hmine ⊢
  obtain ⟨answer, keys⟩ := claimed
  match answer with
  | none => exact steady_true.wp_emit trivial fun S₂ _ => ⟨hobserve S₂ name, fun _ _ => ⟨_, rfl, .inr rfl⟩⟩
  | some none => exact fun _ _ => ⟨_, rfl, .inl rfl⟩
  | some (some since) =>
    have hsteady : Steady (fun _ => TriggerRely (τ := τ) i) fun _ S => (⟨name, i, since⟩ : Holding τ) ∈ S.kv.running :=
      steady_mine rfl
    refine hsteady.wp_emit (hmine since rfl) fun S₂ h₂ => ⟨hobserve S₂ name, ?_⟩
    refine hsteady.wp_kv (s := { S₂ with trace := S₂.trace ++ [(i, name)] }) h₂ fun S₃ h₃ => ?_
    exact ⟨step_release h₃, fun _ _ => ⟨_, rfl, .inr rfl⟩⟩

/-- The jobs that were named, each with one report. -/
structure Reported (work : String → JobReport) (names : List String) (results : List (String × JobReport)) : Prop where
  nodup : (results.map Prod.fst).Nodup
  names : ∀ name, name ∈ results.map Prod.fst ↔ name ∈ names
  reports : ∀ r ∈ results, r.2 = .skipped ∨ r.2 = work r.1

omit [DecidableEq τ] in
theorem Reported.setResult {work : String → JobReport} {names : List String} {results : List (String × JobReport)}
    (h : Reported work names results) {name : String} {report : JobReport} (hreport : report = .skipped ∨ report = work name) :
    Reported work (names ++ [name]) (setResult name report results) := by
  unfold Trigger.setResult
  have hmem : (results.lookup name).isSome = true ↔ name ∈ results.map Prod.fst := by
    rw [List.lookup_isSome_iff]
    simp
  split
  · rename_i hsome
    have hfst : (results.map fun r => if r.1 = name then (name, report) else r).map Prod.fst = results.map Prod.fst := by
      rw [List.map_map]
      apply List.map_congr_left
      intro r _
      show (if r.1 = name then (name, report) else r).1 = r.1
      split
      · rename_i he
        exact he.symm
      · rfl
    refine ⟨hfst ▸ h.nodup, fun other => ?_, fun r hr => ?_⟩
    · rw [hfst, h.names, List.mem_append, List.mem_singleton]
      refine ⟨.inl, fun hor => hor.elim id fun he => ?_⟩
      rw [he, ← h.names]
      exact hmem.mp hsome
    · obtain ⟨r', hr', rfl⟩ := List.mem_map.mp hr
      split
      · exact hreport
      · exact h.reports r' hr'
  · rename_i hnone
    have hnew : name ∉ results.map Prod.fst := fun hin => hnone (hmem.mpr hin)
    refine ⟨?_, fun other => ?_, fun r hr => ?_⟩
    · rw [List.map_append, List.nodup_append]
      refine ⟨h.nodup, List.nodup_singleton _, fun a ha b hb hab => hnew ?_⟩
      have hname : b = name := List.mem_singleton.mp hb
      rw [← hname, ← hab]
      exact ha
    · rw [List.map_append, List.mem_append, h.names, List.mem_append]
      rfl
    · rcases List.mem_append.mp hr with hold | hlast
      · exact h.reports r hold
      · rw [List.mem_singleton.mp hlast]
        exact hreport

theorem wp_runSelected (work : String → JobReport) (names : List String) :
    ∀ (done : List String) (results : List (String × JobReport)) (l : Local (TriggerApp τ)) (S : Shared (TriggerApp τ) τ),
      Reported work done results →
      wp (fun _ => TriggerRely i) (fun _ _ => TriggerStep i) i
        (fun r _ _ => ∃ results, r = .ok results ∧ Reported work (done ++ names) results)
        (runSelected i work names results) l S := by
  induction names with
  | nil =>
    intro done results l S h S' _
    refine ⟨results, rfl, ?_⟩
    rw [List.append_nil]
    exact h
  | cons name names ih =>
    intro done results l S h
    refine wp_bind (fun _ => TriggerRely.refl i) (wp_mono ?_ (wp_runJob work name l))
    rintro r l S ⟨report, rfl, hreport⟩
    have hrest := ih (done ++ [name]) _ l S (h.setResult hreport)
    rw [List.append_assoc, List.singleton_append] at hrest
    exact hrest

/-- What a trigger answers. -/
def Outcome (request : TriggerRequest) : Except TriggerErr (List (String × JobReport)) → Prop
  | .ok results => (∀ name ∈ selected request.names, name ∈ triggerable) ∧
      Reported request.work (selected request.names) results
  | .error _ => ∃ name ∈ selected request.names, name ∉ triggerable

theorem wp_runJobs (request : TriggerRequest) (l : Local (TriggerApp τ)) (S : Shared (TriggerApp τ) τ) :
    wp (fun _ => TriggerRely i) (fun _ _ => TriggerStep i) i (fun r _ _ => Outcome request r)
      (runJobs i request.work request.names) l S := by
  unfold runJobs
  dsimp only
  split
  · rename_i hne
    obtain ⟨name, hname⟩ := List.exists_mem_of_ne_nil _ hne
    obtain ⟨hselected, hunknown⟩ := List.mem_filter.mp hname
    exact fun _ _ => ⟨name, hselected, by simpa using hunknown⟩
  · rename_i hnil
    have hknown : ∀ name ∈ selected request.names, name ∈ triggerable := by
      simpa [List.filter_eq_nil_iff] using hnil
    have hnone : Reported request.work [] [] := ⟨List.nodup_nil, fun _ => Iff.rfl, fun _ hr => by cases hr⟩
    refine wp_mono ?_ (wp_runSelected request.work (selected request.names) [] [] l S hnone)
    rintro r l S ⟨results, rfl, hresults⟩
    exact ⟨hknown, hresults⟩

theorem trigger_rules (request : τ → TriggerRequest) :
    Rules Outside (start request) (fun i _ => TriggerRely i) (fun i _ _ => TriggerStep i)
      fun i r _ => Outcome (request i) r where
  refl i _ := TriggerRely.refl i
  trans _ _ _ _ _ := TriggerRely.trans
  outside _ _ _ _ h := TriggerRely.outside h
  compat _ _ _ _ _ hj hG := hG.rely hj
  stable _ _ _ _ h _ := h
  start i := good_start (wp_runJobs (request i) _ _)

end Rules

/-! ## Results -/

section Results

variable {request : τ → TriggerRequest} {A : τ → Local (TriggerApp τ) → Shared (TriggerApp τ) τ → Prop}
  {s : Sys (TriggerApp τ) τ (List (String × JobReport))}

/-- **One run of a job at a time**: in every run of any number of triggers, with crashes and outages of Redis between any
two statements, a job has at most one run that has taken its lock and is not overdue, unless a lock was released after it
was over; and every lock is over ten minutes after it was taken, whatever became of the run. -/
theorem lock_excludes (h : Reach Outside A (start request) s) :
    (s.shared.kv.late = false → ∀ g ∈ s.shared.kv.running, ∀ g' ∈ s.shared.kv.running, g.job = g'.job →
      ¬ g.overdue s.shared.kv.now → ¬ g'.overdue s.shared.kv.now → g = g') ∧
    ∀ job, live (s.shared.kv.now + lockTtl) (s.shared.kv.locks job) = none := by
  have hinv := Reach.inv (trigger_rules request) (J := fun S => (S.kv.late = false → Excluded S.kv) ∧ Timed S.kv)
    ⟨fun _ => ⟨List.forall_mem_nil _, List.forall_mem_nil _⟩, fun _ _ he => absurd he (by simp [start, Sys.start])⟩
    (fun _ _ _ _ hJ hG => ⟨hG.excluded hJ.1, hG.timed hJ.2⟩) (fun _ _ _ _ _ hJ hG => ⟨hG.excluded hJ.1, hG.timed hJ.2⟩)
    (fun _ _ hout hJ => ⟨fun hlate => (hJ.1 (hout.late ▸ hlate)).outside hout, hJ.2.outside hout⟩) h
  refine ⟨fun hlate => (hinv.1 hlate).alone, fun job => live_eq_none.mpr fun e he => ?_⟩
  obtain ⟨t, ht, hexpires⟩ := hinv.2 job e he
  simp only [Entry.liveAt, hexpires, decide_eq_false_iff_not, Int.not_lt]
  omega

/-- **A trigger reports what it was asked for**: a trigger that ends, in any run, has one report for each job named, and no
other, or has rejected a name. -/
theorem reports_selected (h : Reach Outside A (start request) s) {i : τ}
    {r : Except TriggerErr (List (String × JobReport))} (hdone : s.threads i = .done r) : Outcome (request i) r := by
  have hgood := h.good (trigger_rules request) i
  simp only [Good, hdone] at hgood
  exact hgood.2

end Results

/-! ### Several triggers at once -/

/-- Everyone wants the reminders to be sent. -/
def reminders {τ : Type} (_ : τ) : TriggerRequest := ⟨some ["reminders"], fun _ => .result [("sent", 1)]⟩

/-- The second trigger comes while the first one sends, and skips the job. -/
theorem lock_excludes_two :
    let s := (start (τ := Bool) reminders).after anyCommit [false, false, true, true]
    s.threads true = .done (.ok [("reminders", .skipped)]) ∧ s.shared.kv.late = false ∧
      live (s.shared.kv.now + lockTtl) (s.shared.kv.locks "reminders") = none := by
  intro s
  have hreach : Reach Outside anyCommit (start (τ := Bool) reminders) s := Reach.after (by decide +kernel)
  exact ⟨by rfl, by decide +kernel, (lock_excludes hreach).2 "reminders"⟩

/-- Ten minutes go by. -/
def tenMinutesLater {τ : Type} (keys : TriggerKeys τ) : TriggerKeys τ := { keys with now := keys.now + lockTtl }

theorem outside_later {τ : Type} (keys : TriggerKeys τ) : Outside keys (tenMinutesLater keys) where
  now := by
    show keys.now ≤ keys.now + 600 * 1000
    omega
  locks := rfl
  running := rfl
  late := rfl

/-- The first run takes more than ten minutes, and deletes the lock of the second when it is done: so the third starts. -/
theorem late_release_overlaps : ∃ s, Reach Outside anyCommit (start (τ := Fin 3) reminders) s ∧
    ∃ g ∈ s.shared.kv.running, ∃ g' ∈ s.shared.kv.running, g.job = g'.job ∧ ¬ g.overdue s.shared.kv.now ∧
      ¬ g'.overdue s.shared.kv.now ∧ g ≠ g' := by
  let s₁ := (start (τ := Fin 3) reminders).after anyCommit [0, 0]
  have h₁ : Reach Outside anyCommit (start (τ := Fin 3) reminders) s₁ := Reach.after (by decide +kernel)
  have h₂ := h₁.outside _ (outside_later s₁.shared.kv)
  let s₃ := (s₁.outside (tenMinutesLater s₁.shared.kv)).after anyCommit [1, 1, 0, 2]
  have h₃ : Reach Outside anyCommit (s₁.outside (tenMinutesLater s₁.shared.kv)) s₃ := Reach.after (by decide +kernel)
  exact ⟨s₃, h₂.trans h₃, ⟨"reminders", 1, lockTtl⟩, by decide +kernel, ⟨"reminders", 2, lockTtl⟩, by decide +kernel, rfl,
    by decide +kernel, by decide +kernel, by decide +kernel⟩

end Keys

end CodeReader.Jobs.Trigger
