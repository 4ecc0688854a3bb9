import CodeReader.Exercises.Spec
import CodeReader.Txn.History

/-!
# Exercise versions over a run

Runs of operations on the exercises, from any table.

* `PublishedImmutable` — the content of a version that has been live is what it was (`publishedImmutable_iff`):
  it holds unless an update edits a row that was live and is not (`EditsPublished`);
* `NoResurfacing` — a version is not offered after a higher one was live (`noResurfacing_iff`):
  it holds unless an operation uncovers or publishes a lower version (`Resurfaces`).
-/

namespace CodeReader

open Txn

variable {start c : Exercises} {ops pre : List ExerciseOp} {op : ExerciseOp} {id : ExerciseId} {version version' : Int}

/-- The table after the operations. -/
def after (start : Exercises) (ops : List ExerciseOp) : Exercises := ops.foldl ExerciseOp.run start

theorem after_append_singleton : after start (ops ++ [op]) = op.run (after start ops) := by
  rw [after, List.foldl_append]
  rfl

/-- The row is or was live. -/
def EverLive (start : Exercises) (ops : List ExerciseOp) (id : ExerciseId) (version : Int) : Prop :=
  Ever ExerciseOp.run (Live · id version) start ops

theorem everLive_append_singleton :
    EverLive start (ops ++ [op]) id version ↔ EverLive start ops id version ∨ Live (after start (ops ++ [op])) id version := by
  rw [after_append_singleton]
  exact ever_append_singleton

theorem Live.ever (h : Live (after start ops) id version) : EverLive start ops id version := Ever.now h

/-- A row that was live is there. -/
theorem EverLive.isSome (h : EverLive start ops id version) : ((after start ops).find id version).isSome := by
  have hlive : ∀ {c : Exercises}, Live c id version → (c.find id version).isSome := by
    intro c hl
    obtain ⟨e, hf, -⟩ := live_iff.mp hl
    rw [hf]
    rfl
  induction ops using List.reverseRecOn with
  | nil =>
    obtain ⟨pre, hpre, hl⟩ := h
    rw [List.prefix_nil.mp hpre] at hl
    exact hlive hl
  | append_singleton ops op ih =>
    rcases everLive_append_singleton.mp h with hbefore | hnow
    · rw [after_append_singleton]
      exact find_run_isSome (ih hbefore)
    · exact hlive hnow

/-! ## Immutable content -/

/-- Once live, a version keeps its content. -/
def PublishedImmutable (start : Exercises) (ops : List ExerciseOp) : Prop :=
  ∀ pre pre' id version, pre <+: pre' → pre' <+: ops → Live (after start pre) id version →
    (after start pre').content id version = (after start pre).content id version

/-- The operation updates a row that was live and is not, to another content. -/
def EditsPublished (start : Exercises) (pre : List ExerciseOp) (op : ExerciseOp) : Prop :=
  ∃ id version values e, op = .update id version values ∧ EverLive start pre id version ∧
    (after start pre).find id version = some e ∧ e.status ≠ .live ∧ (values.set e).content ≠ e.content

/-- The content of every version that was live, one operation at a time. -/
theorem publishedImmutable_iff_steps : PublishedImmutable start ops ↔
    Steps (fun pre op => ∀ id version, EverLive start pre id version →
      (after start (pre ++ [op])).content id version = (after start pre).content id version) ops := by
  constructor
  · rintro h pre op hpre id version ⟨pre₀, hpre₀, hl⟩
    have hbefore : (after start pre).content id version = (after start pre₀).content id version :=
      h pre₀ pre id version hpre₀ ((List.prefix_append _ _).trans hpre) hl
    have hafter : (after start (pre ++ [op])).content id version = (after start pre₀).content id version :=
      h pre₀ (pre ++ [op]) id version (hpre₀.trans (List.prefix_append _ _)) hpre hl
    rw [hafter, hbefore]
  · intro h pre pre' id version hpre
    -- the operations since the version was live
    induction pre' using List.reverseRecOn with
    | nil =>
      intro _ _
      rw [List.prefix_nil.mp hpre]
    | append_singleton pre' op ih =>
      intro hpre' hl
      rcases prefix_append_singleton.mp hpre with hp | rfl
      · have hever : EverLive start pre' id version := ⟨pre, hp, hl⟩
        rw [h pre' op hpre' id version hever]
        exact ih hp ((List.prefix_append _ _).trans hpre') hl
      · rfl

/-- **Published versions are immutable** exactly in the runs where no update edits a version that was live and is not. -/
theorem publishedImmutable_iff :
    PublishedImmutable start ops ↔ Steps (fun pre op => ¬ EditsPublished start pre op) ops := by
  rw [publishedImmutable_iff_steps]
  refine steps_iff fun pre op _ _ => ⟨?_, ?_⟩
  · rintro h ⟨id, version, values, e, rfl, hever, hf, hdraft, hne⟩
    have hsame := h id version hever
    rw [after_append_singleton, content_run hever.isSome] at hsame
    exact hsame ⟨values, e, rfl, hf, hdraft, hne⟩
  · intro h id version hever
    rw [after_append_singleton, content_run hever.isSome]
    rintro ⟨values, e, rfl, hf, hdraft, hne⟩
    exact h ⟨id, version, values, e, rfl, hever, hf, hdraft, hne⟩

/-- A candidate in review. -/
def sampleCandidate : Exercise where
  id := 1
  version := 1
  language := "python"
  type := "trace"
  gradingMode := "deterministic"
  difficultyAuthored := ⟨3, by decide⟩
  concepts := ⟨["loops"], by decide⟩
  tags := []
  estTimeS := 90
  status := .inReview
  source := "\x7b\x7d"
  payload := "for i in range(2): print(i)"
  grading := "0 1"
  explanation := "range stops before its end"
  validationReportUrl := none
  humanReviewed := false
  validatedAt := none
  publishedAt := none

/-- Approved and pulled, then edited: the rows of its attempts are of another exercise. -/
theorem publishedImmutable_pulled_edit :
    ¬ PublishedImmutable ⟨[sampleCandidate], by decide +kernel⟩
      [.approve 1 1 100, .pull 1 1, .update 1 1 { payload := some "for i in range(3): print(i)" }] := by
  intro h
  have hsame := h [.approve 1 1 100] _ 1 1 (List.prefix_append _ _) List.prefix_rfl (by decide +kernel)
  exact absurd hsame (by decide +kernel)

/-! ## Superseded versions -/

/-- A version is not offered once a higher one has been live. -/
def NoResurfacing (start : Exercises) (ops : List ExerciseOp) : Prop :=
  ∀ pre pre' id version version', version < version' → pre <+: pre' → pre' <+: ops →
    Live (after start pre) id version' → ¬ Offers (after start pre') id version

/-- The operation withdraws the version offered while a lower one is live, or publishes a version that is lower than
one that was live and not than one that is. -/
def Resurfaces (start : Exercises) (pre : List ExerciseOp) (op : ExerciseOp) : Prop :=
  ∃ id version version', version < version' ∧
    ((Withdraws id version' op ∧ Offers (after start pre) id version' ∧ Live (after start pre) id version) ∨
      (Publishes id version op ∧ EverLive start pre id version' ∧ ((after start pre).find id version).isSome ∧
        ∀ v, Live (after start pre) id v → v < version))

/-- No version is offered that is lower than one that was live. -/
def TopOffered (start : Exercises) (ops : List ExerciseOp) : Prop :=
  ∀ id version version', version < version' → EverLive start ops id version' → ¬ Offers (after start ops) id version

theorem topOffered_nil : TopOffered start [] := by
  rintro id version version' hlt ⟨pre, hpre, hl⟩ ho
  rw [List.prefix_nil.mp hpre] at hl
  have := (offers_iff.mp ho).2 version' hl
  omega

theorem noResurfacing_iff_steps :
    NoResurfacing start ops ↔ Steps (fun pre op => TopOffered start (pre ++ [op])) ops := by
  constructor
  · rintro h pre op hpre id version version' hlt ⟨pre₀, hpre₀, hl⟩
    exact h pre₀ (pre ++ [op]) id version version' hlt hpre₀ hpre hl
  · intro h pre pre' id version version' hlt hpre hpre' hl
    have htop : TopOffered start pre' := by
      rcases List.eq_nil_or_concat pre' with rfl | ⟨pre₁, op, rfl⟩
      · exact topOffered_nil
      · rw [List.concat_eq_append] at hpre' ⊢
        exact h pre₁ op hpre'
    exact htop id version version' hlt ⟨pre, hpre, hl⟩

/-- An operation is of one row. -/
theorem Withdraws.target (h : Withdraws id version op) {v : Int} :
    (Withdraws id v op → v = version) ∧ ¬ Publishes id v op := by
  refine ⟨fun h' => ?_, fun h' => ?_⟩
  · cases h <;> cases h' <;> rfl
  · cases h with
    | kill => cases h'
    | pull => cases h'
    | update _ hs hmove =>
      cases h' with
      | update hs' =>
        cases hs.symm.trans hs'
        exact absurd hmove (by decide)

theorem Publishes.target (h : Publishes id version op) {v : Int} :
    (Publishes id v op → v = version) ∧ ¬ Withdraws id v op := by
  refine ⟨fun h' => ?_, fun h' => h'.target.2 h⟩
  cases h <;> cases h' <;> rfl

/-- A step that resurfaces a version. -/
theorem topOffered_append_singleton (htop : TopOffered start pre) :
    TopOffered start (pre ++ [op]) ↔ ¬ Resurfaces start pre op := by
  have hrun : after start (pre ++ [op]) = op.run (after start pre) := after_append_singleton
  constructor
  · rintro h ⟨id, version, version', hlt, ⟨hw, ho, hl⟩ | ⟨hp, hever, hsome, hmax⟩⟩
    · -- the lower version stays live, and the version then offered is lower than the one withdrawn
      have hkept : Live (op.run (after start pre)) id version :=
        (live_run_of_live hl).mpr fun hw' => by have := hw.target.1 hw'; omega
      obtain ⟨v, -, hv⟩ := exists_offered hkept
      obtain ⟨hlv, hvmax⟩ := offers_iff.mp hv
      obtain ⟨hl', hmax'⟩ := offers_iff.mp ho
      have hbefore : Live (after start pre) id v := by
        by_contra hnot
        exact hw.target.2 ((live_run_of_not_live hnot).mp hlv).2
      have hne : v ≠ version' := by
        rintro rfl
        exact (live_run_of_live hl').mp hlv hw
      have hle := hmax' v hbefore
      refine h id v version' (by omega) (everLive_append_singleton.mpr (.inl hl'.ever)) ?_
      rw [hrun]
      exact hv
    · have hnot : ¬ Live (after start pre) id version := fun hl => lt_irrefl _ (hmax version hl)
      have hl : Live (op.run (after start pre)) id version := (live_run_of_not_live hnot).mpr ⟨hsome, hp⟩
      refine h id version version' hlt (everLive_append_singleton.mpr (.inl hever)) ?_
      rw [hrun, offers_iff]
      refine ⟨hl, fun v hv => ?_⟩
      by_cases hbefore : Live (after start pre) id v
      · exact (hmax v hbefore).le
      · exact (hp.target.1 ((live_run_of_not_live hbefore).mp hv).2).le
  · rintro h id version version' hlt hever ho
    rw [hrun] at ho
    obtain ⟨hl, hmax⟩ := offers_iff.mp ho
    have hever' : EverLive start pre id version' := by
      rcases everLive_append_singleton.mp hever with hb | hnow
      · exact hb
      · rw [hrun] at hnow
        have := hmax version' hnow
        omega
    have hnot : ¬ Offers (after start pre) id version := htop id version version' hlt hever'
    by_cases hbefore : Live (after start pre) id version
    · -- a higher version was live, and is withdrawn
      obtain ⟨w, hle, hw⟩ := exists_offered hbefore
      obtain ⟨hlw, -⟩ := offers_iff.mp hw
      have hne : w ≠ version := by
        rintro rfl
        exact hnot hw
      have hwithdrawn : Withdraws id w op := by
        by_contra hno
        have := hmax w ((live_run_of_live hlw).mpr hno)
        omega
      exact h ⟨id, version, w, by omega, .inl ⟨hwithdrawn, hw, hbefore⟩⟩
    · -- the version itself is published
      obtain ⟨hsome, hp⟩ := (live_run_of_not_live hbefore).mp hl
      refine h ⟨id, version, version', hlt, .inr ⟨hp, hever', hsome, fun v hv => ?_⟩⟩
      have hkept : Live (op.run (after start pre)) id v := (live_run_of_live hv).mpr hp.target.2
      have hle := hmax v hkept
      have hne : v ≠ version := by
        rintro rfl
        exact hbefore hv
      omega

/-- **A superseded version does not resurface** exactly in the runs where no operation uncovers or publishes one. -/
theorem noResurfacing_iff : NoResurfacing start ops ↔ Steps (fun pre op => ¬ Resurfaces start pre op) ops := by
  rw [noResurfacing_iff_steps]
  refine steps_iff fun pre op htop _ => topOffered_append_singleton ?_
  rcases List.eq_nil_or_concat pre with rfl | ⟨pre₁, op₁, rfl⟩
  · exact topOffered_nil
  · rw [List.concat_eq_append] at htop ⊢
    exact htop pre₁ op₁ List.prefix_rfl

/-- Version 2 is approved beside the live version 1, and pulled: version 1 is offered again. -/
theorem noResurfacing_pulled_fix :
    ¬ NoResurfacing .empty [.publish sampleCandidate, .approve 1 1 100, .fixAndBump 1 1 { grading := some "0 1 2" },
      .approve 1 2 200, .pull 1 2] := by
  intro h
  exact h [.publish sampleCandidate, .approve 1 1 100, .fixAndBump 1 1 { grading := some "0 1 2" }, .approve 1 2 200]
    _ 1 1 2 (by decide) (List.prefix_append _ _) List.prefix_rfl (by decide +kernel) (by decide +kernel)

end CodeReader
