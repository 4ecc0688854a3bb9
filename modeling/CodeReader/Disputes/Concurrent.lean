import CodeReader.Disputes.Service
import CodeReader.Txn.Keyed

/-!
# Disputes under concurrent requests

A request looks for an open dispute and then adds one, without a lock.

* `DisputeAction`, `DisputeAction.start` — requests and resolutions, any number of them, run statement by statement;
* `AtMostOneOpen` — no user has two open disputes of one version of an exercise;
* `unovertaken` — what the request has looked for is not there when it commits;
* `DisputeCommit` — all that a commit does to the disputes;
* `one_open_dispute_iff` — **the result**, in every run of such commits, and for no other commit;
* `two_open_disputes` — what happens otherwise.
-/

namespace CodeReader.Disputes

open Txn Prog

/-! ## Requests -/

/-- A request with its user and its body, or a resolution. -/
inductive DisputeAction
  | create (user : UserId) (exerciseId : ExerciseId) (version : Int) (payload : DisputeRequest)
  | resolve (id : Nat) (verdict : Verdict)

namespace DisputeAction

def program : DisputeAction → Handler (Option DisputeResponse)
  | create user exerciseId version payload => do return some (← createDispute user exerciseId version payload)
  | resolve id verdict => do
    resolveDispute id verdict
    return none

/-- What a request wants to open a dispute of. -/
def disputed : DisputeAction → Option Disputed
  | create user exerciseId version _ => some ⟨user, exerciseId, version⟩
  | resolve _ _ => none

end DisputeAction

variable {τ : Type}

/-- The requests and resolutions at their start. -/
def DisputeAction.start (req : τ → DisputeAction) (db : DisputeDb) (last : Nat) : Sys App τ (Option DisputeResponse) :=
  .start db last fun i => (req i).program

def AtMostOneOpen (db : DisputeDb) : Prop := ∀ k, (db.openDisputes k).length ≤ 1

/-- If a request of the same user for the same version of the exercise has committed since this one looked for open
disputes, its dispute is settled by now. -/
def unovertaken (req : τ → DisputeAction) (i : τ) (l : Local App) (S : Shared App τ) : Prop :=
  ∀ k ∈ (req i).disputed, ∀ r ∈ l.reads.head?,
    (∃ j ∈ S.commits.drop r.since, (req j).disputed = some k) → S.db.openDisputes k = []

instance (req : τ → DisputeAction) (i : τ) (l : Local App) (S : Shared App τ) : Decidable (unovertaken req i l S) :=
  inferInstanceAs (Decidable (∀ k ∈ (req i).disputed, ∀ r ∈ l.reads.head?,
    (∃ j ∈ S.commits.drop r.since, (req j).disputed = some k) → S.db.openDisputes k = []))

/-! ## What the commits do -/

/-- All that a commit can do. -/
inductive DisputeCommit (req : τ → DisputeAction) (i : τ) (l : Local App) (S : Shared App τ) : DisputeDb → Prop
  | opens (d : Dispute) : (req i).disputed = some d.toDisputed → d.status = .opened →
      (S.db.openDisputes d.toDisputed = [] ↔ unovertaken req i l S) → DisputeCommit req i l S (S.db.inserted d)
  | resolves (id : Nat) (verdict : Verdict) : (req i).disputed = none →
      DisputeCommit req i l S (S.db.resolved id verdict)

section Commits

variable {req : τ → DisputeAction} {i : τ} {l : Local App} {S S' : Shared App τ} {db' : DisputeDb}

/-- Exactly the commits that are not overtaken leave at most one open dispute. -/
theorem DisputeCommit.atMostOne_iff (h : DisputeCommit req i l S db') (hS : AtMostOneOpen S.db) :
    AtMostOneOpen db' ↔ unovertaken req i l S := by
  cases h with
  | opens d hreq hd hclear =>
    rw [← hclear]
    constructor
    · intro hone
      have hk := hone d.toDisputed
      rw [openDisputes_inserted hd, if_pos rfl, List.length_append, List.length_singleton] at hk
      exact List.eq_nil_of_length_eq_zero (by omega)
    · intro hnone k
      rw [openDisputes_inserted hd]
      by_cases hk : d.toDisputed = k
      · subst hk
        rw [hnone, if_pos rfl]
        exact le_rfl
      · rw [if_neg hk, List.append_nil]
        exact hS k
  | resolves id verdict hreq =>
    refine iff_of_true (fun k => ?_) fun k hk => ?_
    · rw [openDisputes_resolved]
      exact (List.length_filter_le _ _).trans (hS k)
    · rw [hreq] at hk
      cases hk

/-- No dispute is opened. -/
def StaysClear (k : Disputed) (db db' : DisputeDb) : Prop := db.openDisputes k = [] → db'.openDisputes k = []

/-- What the others do. -/
abbrev DisputeRely (req : τ → DisputeAction) : Local App → Shared App τ → Shared App τ → Prop :=
  fun _ => KeyedSteps (fun i _ => (req i).disputed) StaysClear

/-- What a statement of `i` does. -/
abbrev Guarantees (req : τ → DisputeAction) (i : τ) : Act → Local App → Shared App τ → Shared App τ → Prop :=
  Commits (DisputeCommit req i) i

theorem StaysClear.refl (k : Disputed) (db : DisputeDb) : StaysClear k db db := id

theorem DisputeRely.trans {S₁ S₂ S₃ : Shared App τ} (h : DisputeRely req l S₁ S₂) (h' : DisputeRely req l S₂ S₃) :
    DisputeRely req l S₁ S₃ :=
  KeyedSteps.trans (fun _ _ _ _ hab hbc => hbc ∘ hab) h h'

theorem DisputeCommit.staysClear (h : DisputeCommit req i l S db') {k : Disputed} (hk : (req i).disputed ≠ some k) :
    StaysClear k S.db db' := by
  intro hclear
  cases h with
  | opens d hreq hd _ =>
    have hne : d.toDisputed ≠ k := fun he => hk (he ▸ hreq)
    rw [openDisputes_inserted hd, hclear, if_neg hne, List.append_nil]
  | resolves id verdict _ => rw [openDisputes_resolved, hclear, List.filter_nil]

/-- What one request guarantees is what the others rely on. -/
theorem Guarantees.rely {a : Act} {l' : Local App} (h : Guarantees req i a l S S') : DisputeRely req l' S S' :=
  h.keyedSteps StaysClear.refl fun _ hP => ⟨fun _ _ => id, fun _ => hP.staysClear⟩

end Commits

/-! ## The requests -/

section Programs

variable {req : τ → DisputeAction} {i : τ} {S : Shared App τ}

theorem wp_create {user : UserId} {exerciseId : ExerciseId} {version : Int} {payload : DisputeRequest}
    (hreq : req i = .create user exerciseId version payload) :
    wp (DisputeRely req) (Guarantees req i) i (fun _ _ _ => True)
      (DisputeAction.create user exerciseId version payload).program .idle S := by
  have hdisputed : (req i).disputed = some ⟨user, exerciseId, version⟩ := by
    rw [hreq]
    rfl
  simp only [DisputeAction.program, createDispute, query_bind, select_bind]
  intro S₁ _
  cases hexercise : S₁.db.exercises.contains (exerciseId, version) with
  | false =>
    simp only [Local.idle, id, hexercise]
    exact fun _ _ => trivial
  | true =>
    simp only [Local.idle, id, hexercise]
    intro S₂ _
    cases hopen : S₂.db.openDisputes ⟨user, exerciseId, version⟩ with
    | cons d ds =>
      simp only [id, hopen]
      exact fun _ _ => trivial
    | nil =>
      simp only [id, hopen]
      intro S₃ hr₃
      refine ⟨.store _ _ _ _ _, fun S₄ hr₄ S₅ hr₅ => ?_⟩
      have hkv : DisputeRely req .idle S₃ { S₃ with kv := (nextval S₃.kv).2 } := .aside StaysClear.refl rfl rfl
      have hsteps := ((DisputeRely.trans hr₃ hkv).trans hr₄).trans hr₅
      refine ⟨.commit (.opens _ hdisputed rfl ?_), fun S₆ _ => ⟨.observe _ _ _ _ _, fun _ _ => trivial⟩⟩
      constructor
      · exact fun hclear k hk _ _ _ => Option.some.inj (hdisputed.symm.trans hk) ▸ hclear
      · intro hun
        by_cases hover : ∃ j ∈ S₅.commits.drop S₂.commits.length, (req j).disputed = some ⟨user, exerciseId, version⟩
        · exact hun _ hdisputed _ rfl hover
        · exact hsteps.kept _ (fun j hj hk => hover ⟨j, hj, hk⟩) hopen

theorem wp_resolve {id : Nat} {verdict : Verdict} (hreq : req i = .resolve id verdict) :
    wp (DisputeRely req) (Guarantees req i) i (fun _ _ _ => True)
      (DisputeAction.resolve id verdict).program .idle S := by
  have hdisputed : (req i).disputed = none := by
    rw [hreq]
    rfl
  intro S₁ _ S₂ _
  exact ⟨.commit (.resolves id verdict hdisputed), fun _ _ => trivial⟩

theorem disputes_rules (req : τ → DisputeAction) (db : DisputeDb) (last : Nat) :
    Rules (fun _ _ => True) (DisputeAction.start req db last) (fun _ => DisputeRely req) (Guarantees req)
      (fun _ _ _ => True) where
  refl _ _ _ := .aside StaysClear.refl rfl rfl
  trans _ _ _ _ _ := DisputeRely.trans
  outside _ _ _ _ _ := .aside StaysClear.refl rfl rfl
  compat _ _ _ _ _ _ hG := hG.rely
  stable _ _ _ _ _ _ := trivial
  start i := by
    refine good_start ?_
    cases hreq : req i with
    | create user exerciseId version payload => exact wp_create hreq
    | resolve id verdict => exact wp_resolve hreq

end Programs

/-! ## Whole runs -/

section Runs

variable [DecidableEq τ] {req : τ → DisputeAction} {db : DisputeDb} {last : Nat} {s : Sys App τ (Option DisputeResponse)}

/-- **One open dispute**: in every run whose commits are not overtaken no user has two open disputes of one version of an
exercise; and a next step keeps it so exactly if it is not an overtaken commit. -/
theorem one_open_dispute_iff (hdb : AtMostOneOpen db)
    (h : Reach (fun _ _ => True) (unovertaken req) (DisputeAction.start req db last) s) :
    AtMostOneOpen s.shared.db ∧
      ∀ i s', s.step i = some s' → (AtMostOneOpen s'.shared.db ↔ Admits (unovertaken req) s i) := by
  have hrules := disputes_rules req db last
  have hone : AtMostOneOpen s.shared.db := by
    refine Reach.inv hrules (J := fun S => AtMostOneOpen S.db) hdb ?_ ?_ (fun _ _ _ => id) h
    · exact fun s i S' hun hS hG => ((hG.1 rfl).2.atMostOne_iff hS).mpr hun
    · intro s i a S' ha hS hG
      rw [(hG.2 ha).2]
      exact hS
  refine ⟨hone, fun i s' hs => ?_⟩
  have hgood := h.good hrules i
  by_cases hcommit : ∃ k reads view, s.threads i = .running (.commit k) reads view
  · obtain ⟨k, reads, view, hi⟩ := hcommit
    have hG := hgood.commit hrules.refl hi hs
    rw [(hG.1 rfl).2.atMostOne_iff hone]
    exact ⟨fun hun _ _ _ _ => hun, fun hadmits => hadmits k reads view hi⟩
  · refine iff_of_true ?_ fun k reads view hi => absurd ⟨k, reads, view, hi⟩ hcommit
    obtain he | ⟨hc, -⟩ | ⟨a, ha, hG⟩ := (hgood.step hrules.refl hs).shared
    · rwa [he]
    · exact absurd hc hcommit
    · rwa [(hG.2 ha).2]

end Runs

/-! ### Two requests -/

/-- One exercise, and no dispute yet. -/
def oneExercise : DisputeDb := ⟨[(1, 1)], []⟩

/-- Two requests of one user for one exercise. -/
def twice : Bool → DisputeAction
  | false => .create 7 1 1 ⟨.wrongAnswer, none, none⟩
  | true => .create 7 1 1 ⟨.ambiguous, none, none⟩

/-- One after the other; the second is refused. -/
def oneByOne : List Bool := List.replicate 7 false ++ List.replicate 3 true

theorem one_open_dispute_twice :
    let s := (DisputeAction.start twice oneExercise 0).after (unovertaken twice) oneByOne
    s.shared.db.disputes.map Dispute.id = [1] ∧ AtMostOneOpen s.shared.db := by
  intro s
  have hempty : AtMostOneOpen oneExercise := fun _ => Nat.zero_le 1
  have hreach : Reach (fun _ _ => True) (unovertaken twice) (DisputeAction.start twice oneExercise 0) s :=
    Reach.after (by decide +kernel)
  exact ⟨by decide +kernel, (one_open_dispute_iff hempty hreach).1⟩

/-- Both look for open disputes before either of them commits. -/
def together : List Bool := [false, false, true, true] ++ List.replicate 5 false ++ List.replicate 5 true

/-- **Overtaken requests**: two requests of one user for one version of an exercise leave two open disputes. -/
theorem two_open_disputes :
    ∃ s, Reach (fun _ _ => True) anyCommit (DisputeAction.start twice oneExercise 0) s ∧
      AtMostOneOpen oneExercise ∧ (s.shared.db.openDisputes ⟨7, 1, 1⟩).map Dispute.id = [1, 2] ∧
      ¬ AtMostOneOpen s.shared.db := by
  have hopen : (((DisputeAction.start twice oneExercise 0).after anyCommit together).shared.db.openDisputes ⟨7, 1, 1⟩).map
      Dispute.id = [1, 2] := by decide +kernel
  refine ⟨_, Reach.after (by decide +kernel), fun _ => Nat.zero_le 1, hopen, fun hone => ?_⟩
  have hlen := hone ⟨7, 1, 1⟩
  rw [← List.length_map (f := Dispute.id), hopen] at hlen
  exact absurd hlen (by decide)

end CodeReader.Disputes
