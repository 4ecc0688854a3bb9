import CodeReader.Exercises.Service
import Mathlib.Data.Finset.Max

/-!
# What an operation on the exercises does

* `find_setRow`, `find_insert` — the row of a key after a write;
* `RowStep`, `rowStep` — **inversion**: what an operation does to the row of a key;
* `Live`, `Withdraws`, `Publishes` — the live rows, and the operations that change which they are
  (`live_run_of_live`, `live_run_of_not_live`);
* `content` — what the user saw and how it was graded, and what changes it (`content_run`);
* `Offers`, `exists_offered` — the offered versions: of each id the highest that is live.
-/

namespace CodeReader

variable {c c' : Exercises} {id id' : ExerciseId} {version version' : Int} {values : ExerciseValues} {e : Exercise}
  {op : ExerciseOp}

/-! ## Rows by key -/

namespace Exercises

theorem find_eq_some : c.find id version = some e ↔ e ∈ c.rows ∧ e.key = (id, version) := by
  constructor
  · intro h
    exact ⟨List.mem_of_find?_eq_some h, by simpa using List.find?_some h⟩
  · rintro ⟨he, hk⟩
    obtain ⟨e', he'⟩ := Option.isSome_iff_exists.mp
      (List.find?_isSome.mpr ⟨e, he, by simp [hk]⟩ : (c.find id version).isSome)
    have hkey : e'.key = (id, version) := by simpa using List.find?_some he'
    have hsame : e' = e :=
      List.inj_on_of_nodup_map c.keyed (List.mem_of_find?_eq_some he') he (hkey.trans hk.symm)
    rw [← hsame]
    exact he'

theorem find_eq_none : c.find id version = none ↔ (id, version) ∉ c.rows.map Exercise.key := by
  simp [find]

theorem find_setRow : (c.setRow id version values).find id' version' =
    if (id', version') = (id, version) then (c.find id version).map values.set else c.find id' version' := by
  have hset : ∀ e : Exercise, (values.set e).key = e.key := fun _ => rfl
  split
  · rename_i hk
    cases hk
    cases hf : c.find id version with
    | none =>
      rw [Option.map_none, find_eq_none]
      rw [find_eq_none] at hf
      intro h
      obtain ⟨x, hx, hkx⟩ := List.mem_map.mp h
      obtain ⟨e, he, rfl⟩ := List.mem_map.mp hx
      refine hf (List.mem_map.mpr ⟨e, he, ?_⟩)
      split at hkx <;> exact hkx
    | some e =>
      rw [Option.map_some, find_eq_some]
      obtain ⟨he, hk⟩ := find_eq_some.mp hf
      exact ⟨List.mem_map.mpr ⟨e, he, by rw [if_pos hk]⟩, hk⟩
  · rename_i hne
    cases hf : c.find id' version' with
    | none =>
      rw [find_eq_none] at hf ⊢
      intro h
      obtain ⟨x, hx, hkx⟩ := List.mem_map.mp h
      obtain ⟨e, he, rfl⟩ := List.mem_map.mp hx
      refine hf (List.mem_map.mpr ⟨e, he, ?_⟩)
      split at hkx <;> exact hkx
    | some e =>
      obtain ⟨he, hk⟩ := find_eq_some.mp hf
      rw [find_eq_some]
      refine ⟨List.mem_map.mpr ⟨e, he, ?_⟩, hk⟩
      rw [if_neg]
      rw [hk]
      exact hne

/-- An insert adds the row of a new key. -/
theorem find_insert (h : c.insert e = some c') (id : ExerciseId) (version : Int) : c.find e.id e.version = none ∧
    c'.find id version = if (id, version) = e.key then some e else c.find id version := by
  unfold insert at h
  split at h
  · cases h
  · rename_i hnew
    cases h
    refine ⟨find_eq_none.mpr hnew, ?_⟩
    by_cases hk : (id, version) = e.key
    · rw [if_pos hk, find_eq_some]
      exact ⟨List.mem_append_right _ (List.mem_singleton_self e), hk.symm⟩
    · rw [if_neg hk]
      simp only [find, List.find?_append]
      rw [List.find?_singleton, if_neg (by simpa using fun he => hk he.symm), Option.or_none]

end Exercises

/-! ## The operations -/

/-- An update that is made: its row exists, and when that is live only its status leaves. -/
theorem updateExerciseFields_eq_ok : updateExerciseFields c id version values = .ok c' ↔
    ∃ e, c.find id version = some e ∧ c' = c.setRow id version values ∧
      (e.status = .live → values.contentFields = [] ∧ ∀ s, values.status = some s → s ∈ liveStatusTransitions) := by
  unfold updateExerciseFields
  cases hf : c.find id version with
  | none => simp
  | some e =>
    simp only [Option.some.injEq, exists_eq_left']
    split
    · rename_i hlive
      constructor
      · intro h
        cases h
      · rintro ⟨-, hguard⟩
        exact absurd (hguard hlive.1).1 hlive.2
    · rename_i hcontent
      cases hs : values.status with
      | none =>
        dsimp only
        constructor
        · intro h
          cases h
          exact ⟨rfl, fun hl => ⟨by simpa using fun hc => hcontent ⟨hl, hc⟩, fun s hs' => nomatch hs'⟩⟩
        · rintro ⟨rfl, -⟩
          rfl
      | some s =>
        dsimp only
        split
        · rename_i hmove
          constructor
          · intro h
            cases h
          · rintro ⟨-, hguard⟩
            exact absurd ((hguard hmove.1).2 s rfl) hmove.2
        · rename_i hmove
          constructor
          · intro h
            cases h
            refine ⟨rfl, fun hl => ⟨by simpa using fun hc => hcontent ⟨hl, hc⟩, fun s' hs' => ?_⟩⟩
            cases hs'
            simpa using fun hn => hmove ⟨hl, hn⟩
          · rintro ⟨rfl, -⟩
            rfl

/-- The values of an approval. -/
def approvedValues (now : Int) : ExerciseValues :=
  { status := some .live, humanReviewed := some true, validatedAt := some (some now), publishedAt := some (some now) }

/-- What an operation sets in the row `e` of its key. -/
inductive SetBy (e : Exercise) : ExerciseOp → ExerciseValues → Prop
  | update {values : ExerciseValues} (hguard : e.status = .live → values.contentFields = [] ∧
      ∀ s, values.status = some s → s ∈ liveStatusTransitions) : SetBy e (.update e.id e.version values) values
  | approve {now : Int} (hdraft : e.status ≠ .live) : SetBy e (.approve e.id e.version now) (approvedValues now)
  | kill : SetBy e (.kill e.id e.version) { status := some .retired }
  | pull : SetBy e (.pull e.id e.version) { status := some .pulled }
  | bump {overrides : ExerciseValues} (hdraft : e.status ≠ .live) :
      SetBy e (.fixAndBump e.id e.version overrides) { status := some .retired }

/-- What an operation does to the row of a key: nothing, an update, or an insert in review. -/
inductive RowStep (op : ExerciseOp) : Option Exercise → Option Exercise → Prop
  | same (r : Option Exercise) : RowStep op r r
  | set {e : Exercise} {values : ExerciseValues} (h : SetBy e op values) : RowStep op (some e) (some (values.set e))
  | inserted {e : Exercise} (h : e.status = .inReview) : RowStep op none (some e)

/-- **Inversion**: an operation leaves the row of a key, sets values in it, or inserts it. -/
theorem rowStep (op : ExerciseOp) (c : Exercises) (id : ExerciseId) (version : Int) :
    RowStep op (c.find id version) ((op.run c).find id version) := by
  have hset : ∀ {c₁ c₂ : Exercises} {id₁ : ExerciseId} {version₁ : Int} {values : ExerciseValues} {e₁ : Exercise},
      c₁.find id₁ version₁ = some e₁ → c₂ = c₁.setRow id₁ version₁ values →
      (e₁.id = id₁ → e₁.version = version₁ → SetBy e₁ op values) →
      RowStep op (c₁.find id version) (c₂.find id version) := by
    rintro c₁ c₂ id₁ version₁ values e₁ hf rfl hop
    rw [Exercises.find_setRow]
    split
    · rename_i hk
      cases hk
      obtain ⟨-, hkey⟩ := Exercises.find_eq_some.mp hf
      rw [hf]
      exact .set (hop (congrArg Prod.fst hkey) (congrArg Prod.snd hkey))
    · exact .same _
  have hinsert : ∀ {c₁ : Exercises} {e : Exercise}, c.insert e = some c₁ → e.status = .inReview →
      RowStep op (c.find id version) (c₁.find id version) := by
    intro c₁ e hi hreview
    obtain ⟨hnone, hfind⟩ := Exercises.find_insert hi id version
    rw [hfind]
    split
    · rename_i hk
      cases hk
      rw [hnone]
      exact .inserted hreview
    · exact .same _
  unfold ExerciseOp.run
  cases hop : op.attempt c with
  | error err => exact .same _
  | ok c' =>
    dsimp only
    cases op with
    | publish candidate =>
      simp only [ExerciseOp.attempt, insertCandidate] at hop
      split at hop
      · cases hop
      · rename_i hi
        cases hop
        exact hinsert hi rfl
    | update id₁ version₁ values =>
      obtain ⟨e, hf, hc, hguard⟩ := updateExerciseFields_eq_ok.mp hop
      exact hset hf hc fun h₁ h₂ => h₁ ▸ h₂ ▸ .update hguard
    | approve id₁ version₁ now =>
      obtain ⟨e, hf, hc, hguard⟩ := updateExerciseFields_eq_ok.mp hop
      exact hset hf hc fun h₁ h₂ => h₁ ▸ h₂ ▸ .approve fun hl => nomatch (hguard hl).1
    | kill id₁ version₁ =>
      obtain ⟨e, hf, hc, -⟩ := updateExerciseFields_eq_ok.mp hop
      exact hset hf hc fun h₁ h₂ => h₁ ▸ h₂ ▸ .kill
    | pull id₁ version₁ =>
      obtain ⟨e, hf, hc, -⟩ := updateExerciseFields_eq_ok.mp hop
      exact hset hf hc fun h₁ h₂ => h₁ ▸ h₂ ▸ .pull
    | fixAndBump id₁ oldVersion overrides =>
      simp only [ExerciseOp.attempt, fixAndBump] at hop
      split at hop
      · cases hop
      · rename_i old hold
        split at hop
        · cases hop
        · rename_i c₁ hi
          split at hop
          · rename_i hdraft
            obtain ⟨e, hf, hc, -⟩ := updateExerciseFields_eq_ok.mp hop
            obtain ⟨-, hkey⟩ := Exercises.find_eq_some.mp hold
            have hnew : ∀ {k : ExerciseId × Int}, k = (id₁, oldVersion) → k ≠ (bumpedRow old overrides).key := by
              rintro k rfl he
              have h₁ : oldVersion = old.version + 1 := congrArg Prod.snd he
              have h₂ : old.version = oldVersion := congrArg Prod.snd hkey
              omega
            have he : e = old := by
              rw [(Exercises.find_insert hi id₁ oldVersion).2, if_neg (hnew rfl), hold] at hf
              cases hf
              rfl
            subst he
            by_cases hk : (id, version) = (id₁, oldVersion)
            · -- the old row is retired
              have hfind := (Exercises.find_insert hi id version).2
              rw [if_neg (hnew hk)] at hfind
              rw [← hfind]
              exact hset hf hc fun h₁ h₂ => h₁ ▸ h₂ ▸ .bump hdraft
            · -- any other row is as the insert leaves it
              rw [hc, Exercises.find_setRow, if_neg hk]
              exact hinsert hi rfl
          · cases hop
            exact hinsert hi rfl

/-- An update that is made sets its values in the row. -/
theorem find_updateExerciseFields (hf : c.find id version = some e)
    (hguard : e.status = .live → values.contentFields = [] ∧ ∀ s, values.status = some s → s ∈ liveStatusTransitions)
    (hop : op.attempt c = updateExerciseFields c id version values) :
    (op.run c).find id version = some (values.set e) := by
  have hok : op.attempt c = .ok (c.setRow id version values) :=
    hop.trans (updateExerciseFields_eq_ok.mpr ⟨e, hf, rfl, hguard⟩)
  rw [ExerciseOp.run, hok]
  dsimp only
  rw [Exercises.find_setRow, if_pos rfl, hf, Option.map_some]

/-- A row stays: no operation deletes. -/
theorem find_run_isSome (h : (c.find id version).isSome) : ((op.run c).find id version).isSome := by
  have hstep := rowStep op c id version
  generalize c.find id version = r, (op.run c).find id version = r' at h hstep
  cases hstep with
  | same => exact h
  | set => rfl
  | inserted => rfl

/-! ## Live rows -/

/-- The row exists and is live. -/
def Live (c : Exercises) (id : ExerciseId) (version : Int) : Prop :=
  (c.find id version).map Exercise.status = some .live

instance : Decidable (Live c id version) := inferInstanceAs (Decidable (_ = _))

theorem live_iff : Live c id version ↔ ∃ e, c.find id version = some e ∧ e.status = .live := by
  simp [Live]

/-- The operations that take a live row out of circulation. -/
inductive Withdraws (id : ExerciseId) (version : Int) : ExerciseOp → Prop
  | kill : Withdraws id version (.kill id version)
  | pull : Withdraws id version (.pull id version)
  | update {values : ExerciseValues} {s : ExerciseStatus} (hcontent : values.contentFields = [])
      (hs : values.status = some s) (hmove : s ∈ liveStatusTransitions) : Withdraws id version (.update id version values)

/-- The operations that make a row live. -/
inductive Publishes (id : ExerciseId) (version : Int) : ExerciseOp → Prop
  | approve {now : Int} : Publishes id version (.approve id version now)
  | update {values : ExerciseValues} (hs : values.status = some .live) : Publishes id version (.update id version values)

/-- A live row is live until it is withdrawn. -/
theorem live_run_of_live (h : Live c id version) : Live (op.run c) id version ↔ ¬ Withdraws id version op := by
  obtain ⟨e, hf, hlive⟩ := live_iff.mp h
  have hend : ∀ {values : ExerciseValues} {s : ExerciseStatus}, values.contentFields = [] → values.status = some s →
      s ∈ liveStatusTransitions → op.attempt c = updateExerciseFields c id version values →
      ¬ Live (op.run c) id version := by
    intro values s hcontent hs hmove hop hafter
    have hguard : e.status = .live → values.contentFields = [] ∧
        ∀ s, values.status = some s → s ∈ liveStatusTransitions :=
      fun _ => ⟨hcontent, fun s' hs' => by cases hs.symm.trans hs'; exact hmove⟩
    obtain ⟨e', hf', hlive'⟩ := live_iff.mp hafter
    rw [find_updateExerciseFields hf hguard hop] at hf'
    cases hf'
    have hset : (values.set e).status = s := by simp [ExerciseValues.set, hs]
    rw [hset] at hlive'
    subst hlive'
    exact absurd hmove (by decide)
  constructor
  · intro hafter hw
    cases hw with
    | kill => exact hend rfl rfl (by decide) rfl hafter
    | pull => exact hend rfl rfl (by decide) rfl hafter
    | update hcontent hs hmove => exact hend hcontent hs hmove rfl hafter
  · intro hw
    have hstep := rowStep op c id version
    rw [hf] at hstep
    obtain ⟨-, hkey⟩ := Exercises.find_eq_some.mp hf
    cases hkey
    rw [live_iff]
    generalize (op.run c).find e.id e.version = r' at hstep
    cases hstep with
    | same => exact ⟨e, rfl, hlive⟩
    | set hby =>
      refine ⟨_, rfl, ?_⟩
      cases hby with
      | update hguard =>
        rename_i values
        obtain ⟨hcontent, hmove⟩ := hguard hlive
        cases hs : values.status with
        | none => simpa [ExerciseValues.set, hs] using hlive
        | some s => exact absurd (Withdraws.update hcontent hs (hmove s hs)) hw
      | approve hdraft => exact absurd hlive hdraft
      | kill => exact absurd .kill hw
      | pull => exact absurd .pull hw
      | bump hdraft => exact absurd hlive hdraft

/-- A row that is not live becomes live when it is published. -/
theorem live_run_of_not_live (h : ¬ Live c id version) :
    Live (op.run c) id version ↔ (c.find id version).isSome ∧ Publishes id version op := by
  constructor
  · intro hafter
    have hstep := rowStep op c id version
    obtain ⟨e', hf', hlive'⟩ := live_iff.mp hafter
    rw [hf'] at hstep
    cases hf : c.find id version with
    | none =>
      rw [hf] at hstep
      cases hstep with
      | inserted hreview => rw [hlive'] at hreview; cases hreview
    | some e =>
      obtain ⟨-, hkey⟩ := Exercises.find_eq_some.mp hf
      cases hkey
      refine ⟨rfl, ?_⟩
      have hdraft : e.status ≠ .live := fun hl => h (live_iff.mpr ⟨e, hf, hl⟩)
      rw [hf] at hstep
      cases hstep with
      | same => exact absurd hlive' hdraft
      | set hby =>
        cases hby with
        | update hguard =>
          rename_i values
          cases hs : values.status with
          | none => exact absurd (by simpa [ExerciseValues.set, hs] using hlive') hdraft
          | some s =>
            have : s = .live := by simpa [ExerciseValues.set, hs] using hlive'
            exact .update (hs.trans (congrArg some this))
        | approve => exact .approve
        | kill => cases hlive'
        | pull => cases hlive'
        | bump => cases hlive'
  · rintro ⟨hsome, hpub⟩
    obtain ⟨e, hf⟩ := Option.isSome_iff_exists.mp hsome
    have hdraft : e.status ≠ .live := fun hl => h (live_iff.mpr ⟨e, hf, hl⟩)
    cases hpub with
    | approve =>
      exact live_iff.mpr ⟨_, find_updateExerciseFields hf (fun hl => absurd hl hdraft) rfl, rfl⟩
    | update hs =>
      exact live_iff.mpr ⟨_, find_updateExerciseFields hf (fun hl => absurd hl hdraft) rfl,
        by simp [ExerciseValues.set, hs]⟩

/-! ## Content -/

/-- What the user saw and how it was graded. -/
structure Content where
  payload : String
  grading : String
  explanation : String
  difficultyAuthored : Difficulty
  concepts : Concepts
  deriving DecidableEq

def Exercise.content (e : Exercise) : Content :=
  ⟨e.payload, e.grading, e.explanation, e.difficultyAuthored, e.concepts⟩

def Exercises.content (c : Exercises) (id : ExerciseId) (version : Int) : Option Content :=
  (c.find id version).map Exercise.content

/-- Values of no content field leave the content. -/
theorem content_set (h : values.contentFields = []) : (values.set e).content = e.content := by
  simp only [ExerciseValues.contentFields, List.filterMap_eq_nil_iff, List.mem_cons, forall_eq_or_imp,
    ite_eq_right_iff, reduceCtorEq, imp_false, Bool.not_eq_true, Option.isSome_eq_false_iff,
    Option.isNone_iff_eq_none] at h
  simp [ExerciseValues.set, Exercise.content, h]

/-- **What changes the content of a row**: an update, while the row is not live. -/
theorem content_run (hsome : (c.find id version).isSome) : (op.run c).content id version = c.content id version ↔
    ¬ ∃ values e, op = .update id version values ∧ c.find id version = some e ∧ e.status ≠ .live ∧
      (values.set e).content ≠ e.content := by
  obtain ⟨e, hf⟩ := Option.isSome_iff_exists.mp hsome
  obtain ⟨-, hkey⟩ := Exercises.find_eq_some.mp hf
  cases hkey
  constructor
  · rintro hsame ⟨values, e', rfl, hf', hdraft, hne⟩
    cases hf.symm.trans hf'
    refine hne (Option.some.inj ?_)
    rw [Exercises.content, Exercises.content, hf,
      find_updateExerciseFields hf (fun hl => absurd hl hdraft) rfl] at hsame
    exact hsame
  · intro hno
    have hstep := rowStep op c e.id e.version
    rw [Exercises.content, Exercises.content]
    rw [hf] at hstep hno ⊢
    generalize (op.run c).find e.id e.version = r' at hstep
    cases hstep with
    | same => rfl
    | set hby =>
      refine congrArg some ?_
      cases hby with
      | update hguard =>
        rename_i values
        by_cases hlive : e.status = .live
        · exact content_set (hguard hlive).1
        · by_contra hne
          exact hno ⟨values, e, rfl, rfl, hlive, hne⟩
      | approve => rfl
      | kill => rfl
      | pull => rfl
      | bump => rfl

/-! ## What is offered -/

/-- The version is the one of its id in the view. -/
def Offers (c : Exercises) (id : ExerciseId) (version : Int) : Prop :=
  (id, version) ∈ (exercisesCurrent c).map Exercise.key

instance : Decidable (Offers c id version) := inferInstanceAs (Decidable (_ ∈ _))

/-- The view offers of each id the highest live version. -/
theorem offers_iff : Offers c id version ↔ Live c id version ∧ ∀ v, Live c id v → v ≤ version := by
  have hrow : ∀ v, Live c id v ↔ ∃ e ∈ c.rows, e.status = .live ∧ e.id = id ∧ e.version = v := by
    intro v
    rw [live_iff]
    constructor
    · rintro ⟨e, hf, hl⟩
      obtain ⟨he, hkey⟩ := Exercises.find_eq_some.mp hf
      exact ⟨e, he, hl, congrArg Prod.fst hkey, congrArg Prod.snd hkey⟩
    · rintro ⟨e, he, hl, rfl, rfl⟩
      exact ⟨e, Exercises.find_eq_some.mpr ⟨he, rfl⟩, hl⟩
  simp only [Offers, exercisesCurrent, List.mem_map, List.mem_filter, Bool.and_eq_true, beq_iff_eq,
    Bool.not_eq_true', List.any_eq_false, decide_eq_true_eq, not_and, Exercise.key, Prod.mk.injEq]
  constructor
  · rintro ⟨e, ⟨he, hl, hmax⟩, rfl, rfl⟩
    refine ⟨(hrow _).mpr ⟨e, he, hl, rfl, rfl⟩, fun v hv => ?_⟩
    obtain ⟨e', he', hl', hid, rfl⟩ := (hrow v).mp hv
    have := hmax e' he' ⟨hl', hid⟩
    omega
  · rintro ⟨hv, hmax⟩
    obtain ⟨e, he, hl, rfl, rfl⟩ := (hrow _).mp hv
    refine ⟨e, ⟨he, hl, ?_⟩, rfl, rfl⟩
    rintro e' he' ⟨hl', hid⟩
    have := hmax e'.version ((hrow _).mpr ⟨e', he', hl', hid, rfl⟩)
    omega

/-- Of an id with a live version some version is offered, and it is as high. -/
theorem exists_offered (h : Live c id version) : ∃ v, version ≤ v ∧ Offers c id v := by
  let versions := (c.rows.map Exercise.version).toFinset.filter (Live c id)
  have hmem : ∀ v, v ∈ versions ↔ Live c id v := by
    intro v
    rw [Finset.mem_filter, and_iff_right_iff_imp, List.mem_toFinset, live_iff]
    rintro ⟨e, hf, -⟩
    obtain ⟨he, hkey⟩ := Exercises.find_eq_some.mp hf
    exact List.mem_map.mpr ⟨e, he, congrArg Prod.snd hkey⟩
  have hne : versions.Nonempty := ⟨version, (hmem _).mpr h⟩
  refine ⟨versions.max' hne, versions.le_max' _ ((hmem _).mpr h), offers_iff.mpr ⟨?_, fun v hv => ?_⟩⟩
  · exact (hmem _).mp (versions.max'_mem hne)
  · exact versions.le_max' _ ((hmem v).mpr hv)

/-- The sampler's candidates are offered. -/
theorem offers_of_mem_fetchCandidates {language : String} {types : List String}
    (h : e ∈ fetchCandidates c language types) : Offers c e.id e.version :=
  List.mem_map.mpr ⟨e, List.mem_of_mem_filter h, rfl⟩

end CodeReader
