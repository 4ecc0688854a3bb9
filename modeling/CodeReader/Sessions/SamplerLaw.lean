import CodeReader.Sessions.Sampler
import Mathlib.Data.List.Dedup
import Mathlib.Data.List.Nodup
import Mathlib.Data.List.Perm.Subperm

/-!
# The law of the sampler

* `Picked` — distinct candidates with a property;
* `picked_due`, `picked_fill`, `pickBoss_cases`, `pad_spec` — what each pass picks;
* `SamplerLaw` — what holds of a session: `sampler_law`.
-/

namespace CodeReader.Sessions

variable {S : Sampling} {candidates selected : List Candidate} {c chosen : Candidate} {p : Candidate → Bool}

/-- The ids of candidates. -/
abbrev ids (l : List Candidate) : List ExerciseId := l.map (·.id)

/-- Distinct candidates with property `p`. -/
structure Picked (p : Candidate → Bool) (candidates selected : List Candidate) : Prop where
  mem : ∀ c ∈ selected, c ∈ candidates ∧ p c = true
  nodup : (ids selected).Nodup

/-- Every candidate with property `p` is picked. -/
def Exhausted (p : Candidate → Bool) (candidates selected : List Candidate) : Prop :=
  ∀ c ∈ candidates, p c = true → c.id ∈ ids selected

section Counting

theorem eq_of_id (hids : (ids candidates).Nodup) {d : Candidate} (hc : c ∈ candidates) (hd : d ∈ candidates)
    (h : c.id = d.id) : c = d := List.inj_on_of_nodup_map hids hc hd h

theorem Picked.nil : Picked p candidates [] := ⟨fun _ hc => absurd hc List.not_mem_nil, List.nodup_nil⟩

theorem Picked.mono {q : Candidate → Bool} (h : Picked p candidates selected)
    (hpq : ∀ c ∈ candidates, p c = true → q c = true) : Picked q candidates selected :=
  ⟨fun c hc => ⟨(h.mem c hc).1, hpq c (h.mem c hc).1 (h.mem c hc).2⟩, h.nodup⟩

theorem Picked.append_singleton (h : Picked p candidates selected) (hc : chosen ∈ candidates) (hp : p chosen = true)
    (hnew : chosen.id ∉ ids selected) : Picked p candidates (selected ++ [chosen]) where
  mem := by
    intro d hmem
    rcases List.mem_append.mp hmem with hmem | hmem
    · exact h.mem d hmem
    · rw [List.mem_singleton.mp hmem]
      exact ⟨hc, hp⟩
  nodup := by
    rw [ids, List.map_append, List.map_singleton]
    exact List.nodup_append.mpr ⟨h.nodup, List.nodup_singleton _, fun i hi j hj hij =>
      hnew (List.mem_singleton.mp hj ▸ hij ▸ hi)⟩

theorem Picked.perm {selected' : List Candidate} (h : Picked p candidates selected) (hp : selected.Perm selected') :
    Picked p candidates selected' :=
  ⟨fun c hc => h.mem c (hp.mem_iff.mpr hc), (hp.map _).nodup_iff.mp h.nodup⟩

/-- No more than there are. -/
theorem Picked.length_le (h : Picked p candidates selected) : selected.length ≤ candidates.countP p := by
  have hnodup : selected.Nodup := h.nodup.of_map
  have hsub : selected ⊆ candidates.filter p := fun c hc => List.mem_filter.mpr (h.mem c hc)
  rw [List.countP_eq_length_filter]
  exact (List.subperm_of_subset hnodup hsub).length_le

/-- All of them. -/
theorem Picked.length_eq (hids : (ids candidates).Nodup) (h : Picked p candidates selected)
    (hall : Exhausted p candidates selected) : selected.length = candidates.countP p := by
  refine le_antisymm h.length_le ?_
  have hnodup : (candidates.filter p).Nodup := hids.of_map.filter _
  have hsub : candidates.filter p ⊆ selected := by
    intro c hc
    obtain ⟨hmem, hp⟩ := List.mem_filter.mp hc
    obtain ⟨d, hd, hid⟩ := List.mem_map.mp (hall c hmem hp)
    rwa [← eq_of_id hids (h.mem d hd).1 hmem hid]
  rw [List.countP_eq_length_filter]
  exact (List.subperm_of_subset hnodup hsub).length_le

/-- Where fewer are picked than there are, one is left. -/
theorem Picked.exists_left (hids : (ids candidates).Nodup) (h : Picked p candidates selected)
    (hlt : selected.length < candidates.countP p) : ∃ c ∈ candidates, p c = true ∧ c.id ∉ ids selected := by
  by_contra hnone
  refine hlt.ne (h.length_eq hids fun c hc hp => ?_)
  by_contra hid
  exact hnone ⟨c, hc, hp, hid⟩

end Counting

/-! ## The passes -/

section Passes

variable {used : List ExerciseId} {pool : List Candidate}

theorem pick_some (h : pick S used pool = some c) : c ∈ pool ∧ c.id ∉ used := by
  have hmem : c ∈ pool.filter fun c => !used.contains c.id := by
    rcases Option.or_eq_some_iff.mp h with h | ⟨-, h⟩
    · exact List.mem_of_find?_eq_some h
    · exact List.mem_of_mem_head? h
  simpa using hmem

theorem pick_eq_none (h : pick S used pool = none) : ∀ c ∈ pool, c.id ∈ used := by
  obtain ⟨-, hhead⟩ := Option.or_eq_none_iff.mp h
  intro c hc
  by_contra hid
  have hmem : c ∈ pool.filter fun c => !used.contains c.id := by simpa using ⟨hc, hid⟩
  rw [List.head?_eq_none_iff.mp hhead] at hmem
  exact List.not_mem_nil hmem

/-- What a due concept gets. -/
def dueChoice (S : Sampling) (candidates : List Candidate) (concept : String) (selected : List Candidate) :
    Option Candidate :=
  pick S (ids selected) (closestByDifficulty (candidates.filter fun c => c.concepts.1.contains concept && inBand S c)
    S.levelDifficulty)

theorem dueChoice_some {concept : String} (h : dueChoice S candidates concept selected = some chosen) :
    chosen ∈ candidates ∧ concept ∈ chosen.concepts.1 ∧ inBand S chosen = true ∧ chosen.id ∉ ids selected := by
  obtain ⟨hmem, hnew⟩ := pick_some h
  rw [mem_closestByDifficulty, List.mem_filter, Bool.and_eq_true, List.contains_iff_mem] at hmem
  exact ⟨hmem.1, hmem.2.1, hmem.2.2, hnew⟩

theorem dueChoice_eq_none {concept : String} (h : dueChoice S candidates concept selected = none) :
    ∀ c ∈ candidates, concept ∈ c.concepts.1 → inBand S c = true → c.id ∈ ids selected := by
  intro c hc hconcept hband
  refine pick_eq_none h c ?_
  rw [mem_closestByDifficulty, List.mem_filter, Bool.and_eq_true, List.contains_iff_mem]
  exact ⟨hc, hconcept, hband⟩

theorem pickDue_cons (concept : String) (due : List String) (hlen : selected.length < maxNonBossSlots) :
    pickDue S candidates (concept :: due) selected =
      pickDue S candidates due (selected ++ (dueChoice S candidates concept selected).toList) := by
  rw [pickDue, if_neg (not_le.mpr hlen), dueChoice]
  dsimp only
  split <;> rename_i hpick <;> rw [hpick]
  · rfl
  · rw [Option.toList_none, List.append_nil]

theorem pickDue_full (due : List String) (hlen : maxNonBossSlots ≤ selected.length) :
    pickDue S candidates due selected = selected := by
  cases due with
  | nil => rfl
  | cons concept due => rw [pickDue, if_pos hlen]

/-- The due concepts, one part after another. -/
theorem pickDue_append (pre post : List String) (selected : List Candidate) :
    pickDue S candidates (pre ++ post) selected = pickDue S candidates post (pickDue S candidates pre selected) := by
  induction pre generalizing selected with
  | nil => rfl
  | cons concept pre ih =>
    by_cases hlen : selected.length < maxNonBossSlots
    · rw [List.cons_append, pickDue_cons _ _ hlen, pickDue_cons _ _ hlen, ih]
    · rw [pickDue_full _ (not_lt.mp hlen), pickDue_full _ (not_lt.mp hlen), pickDue_full _ (not_lt.mp hlen)]

/-- Due concepts extend the selection by exercises of the band. -/
theorem picked_due (due : List String) (h : Picked (inBand S) candidates selected)
    (hlen : selected.length ≤ maxNonBossSlots) :
    Picked (inBand S) candidates (pickDue S candidates due selected) ∧
      (pickDue S candidates due selected).length ≤ maxNonBossSlots ∧
      selected <+: pickDue S candidates due selected := by
  induction due generalizing selected with
  | nil => exact ⟨h, hlen, List.prefix_rfl⟩
  | cons concept due ih =>
    by_cases hfull : maxNonBossSlots ≤ selected.length
    · rw [pickDue_full _ hfull]
      exact ⟨h, hlen, List.prefix_rfl⟩
    · rw [pickDue_cons _ _ (not_le.mp hfull)]
      cases hchoice : dueChoice S candidates concept selected with
      | none =>
        rw [Option.toList_none, List.append_nil]
        exact ih h hlen
      | some chosen =>
        obtain ⟨hcand, -, hband, hnew⟩ := dueChoice_some hchoice
        have hlen' : (selected ++ [chosen]).length ≤ maxNonBossSlots := by
          rw [List.length_append, List.length_singleton]
          exact not_le.mp hfull
        obtain ⟨hpicked, hle, hpre⟩ := ih (h.append_singleton hcand hband hnew) hlen'
        exact ⟨hpicked, hle, (List.prefix_append _ _).trans hpre⟩

/-- The candidates of the band that are left. -/
abbrev banded (S : Sampling) (candidates selected : List Candidate) : List Candidate :=
  candidates.filter fun c => !(ids selected).contains c.id && inBand S c

theorem mem_banded :
    c ∈ banded S candidates selected ↔ c ∈ candidates ∧ c.id ∉ ids selected ∧ inBand S c = true := by
  simp [banded]

/-- A turn of the fill: a candidate of the band that is left, or none is left. -/
theorem fill_succ (S : Sampling) (candidates selected : List Candidate) (turns : Nat) :
    (∃ chosen ∈ banded S candidates selected,
      fill S candidates (turns + 1) selected = fill S candidates turns (selected ++ [chosen])) ∨
    banded S candidates selected = [] ∧ fill S candidates (turns + 1) selected = selected := by
  have hconcepts : ∀ {concept : String},
      concept ∈ (S.setOrder.order ((banded S candidates selected).flatMap (·.concepts.1)).dedup).insertionSort
        (fun a b => S.conceptMastery a ≤ S.conceptMastery b) ↔
      ∃ c ∈ banded S candidates selected, concept ∈ c.concepts.1 := by
    intro concept
    rw [(List.perm_insertionSort _ _).mem_iff, (S.setOrder.perm _).mem_iff, List.mem_dedup, List.mem_flatMap]
  rw [fill]
  split
  · -- no concept is left, so no candidate is
    rename_i hnil
    refine .inr ⟨List.eq_nil_iff_forall_not_mem.mpr fun c hc => ?_, rfl⟩
    obtain ⟨concept, hconcept⟩ := List.exists_mem_of_ne_nil _ c.concepts.2
    have hmem := hconcepts.mpr ⟨c, hc, hconcept⟩
    rw [hnil] at hmem
    exact List.not_mem_nil hmem
  · rename_i weakest rest hcons
    obtain ⟨c, hc, hconcept⟩ := hconcepts.mp (hcons ▸ List.mem_cons_self)
    split
    · rename_i chosen hpick
      exact .inl ⟨chosen, List.mem_of_mem_filter (mem_closestByDifficulty.mp (pick_some hpick).1), rfl⟩
    · rename_i hpick
      refine absurd (pick_eq_none hpick c ?_) (mem_banded.mp hc).2.1
      rw [mem_closestByDifficulty, List.mem_filter, List.contains_iff_mem]
      exact ⟨hc, hconcept⟩

/-- Curriculum fill takes as many exercises of the band as it has turns, or all of them. -/
theorem picked_fill (turns : Nat) (h : Picked (inBand S) candidates selected) :
    Picked (inBand S) candidates (fill S candidates turns selected) ∧
      selected <+: fill S candidates turns selected ∧
      ((fill S candidates turns selected).length = selected.length + turns ∨
        (fill S candidates turns selected).length < selected.length + turns ∧
          Exhausted (inBand S) candidates (fill S candidates turns selected)) := by
  induction turns generalizing selected with
  | zero => exact ⟨h, List.prefix_rfl, .inl rfl⟩
  | succ turns ih =>
    obtain ⟨chosen, hchosen, he⟩ | ⟨hnone, he⟩ := fill_succ S candidates selected turns <;> rw [he]
    · obtain ⟨hcand, hnew, hband⟩ := mem_banded.mp hchosen
      obtain ⟨hpicked, hpre, hlen⟩ := ih (h.append_singleton hcand hband hnew)
      rw [List.length_append, List.length_singleton, Nat.add_assoc, Nat.add_comm 1 turns] at hlen
      exact ⟨hpicked, (List.prefix_append _ _).trans hpre, hlen⟩
    · refine ⟨h, List.prefix_rfl, .inr ⟨by omega, fun c hc hband => ?_⟩⟩
      by_contra hnew
      have hmem := mem_banded.mpr ⟨hc, hnew, hband⟩
      rw [hnone] at hmem
      exact List.not_mem_nil hmem

/-- The boss maximum. -/
def bossMax (S : Sampling) : Int := min 1000 (S.levelBand.2 + bossBandMargin)

/-- Between the low end of the band and the boss maximum. -/
def bossEligible (S : Sampling) (c : Candidate) : Bool :=
  decide (S.levelBand.1 ≤ c.difficulty ∧ c.difficulty ≤ bossMax S)

/-- The unused eligible candidates, the hardest first. -/
abbrev eligible (S : Sampling) (candidates selected : List Candidate) : List Candidate :=
  (candidates.filter fun c => !(ids selected).contains c.id && bossEligible S c).insertionSort
    fun a b => b.difficulty ≤ a.difficulty

theorem mem_eligible :
    c ∈ eligible S candidates selected ↔ c ∈ candidates ∧ c.id ∉ ids selected ∧ bossEligible S c = true := by
  rw [eligible, (List.perm_insertionSort _ _).mem_iff]
  simp

/-- An eligible boss, one that is hard enough first. -/
def eligibleBoss (S : Sampling) (candidates selected : List Candidate) : Option Candidate :=
  let bossTarget := min (bossMax S) (max bossDifficultyFloor (S.levelDifficulty + 200))
  (pick S (ids selected) ((eligible S candidates selected).filter fun c => decide (bossTarget ≤ c.difficulty))).or
    (pick S (ids selected) (eligible S candidates selected))

theorem pickBoss_eq : pickBoss S candidates selected =
    if eligibleBoss S candidates selected = none ∧ selected.length < minSlots then
      pick S (ids selected)
        (closestByDifficulty (candidates.filter fun c => !(ids selected).contains c.id) (bossMax S))
    else eligibleBoss S candidates selected := rfl

theorem eligibleBoss_some (h : eligibleBoss S candidates selected = some c) :
    c ∈ candidates ∧ c.id ∉ ids selected ∧ bossEligible S c = true := by
  refine mem_eligible.mp ?_
  rcases Option.or_eq_some_iff.mp h with h | ⟨-, h⟩
  · exact List.mem_of_mem_filter (pick_some h).1
  · exact (pick_some h).1

theorem eligibleBoss_eq_none (h : eligibleBoss S candidates selected = none) :
    Exhausted (bossEligible S) candidates selected := by
  obtain ⟨-, hpick⟩ := Option.or_eq_none_iff.mp h
  intro c hc helig
  by_contra hnew
  exact hnew (pick_eq_none hpick c (mem_eligible.mpr ⟨hc, hnew, helig⟩))

/-- The boss is an unused candidate: an eligible one, or any when none is left and the session would be short. -/
theorem pickBoss_some {boss : Candidate} (h : pickBoss S candidates selected = some boss) :
    boss ∈ candidates ∧ boss.id ∉ ids selected ∧
      (bossEligible S boss = true ∨ selected.length < minSlots ∧ Exhausted (bossEligible S) candidates selected) := by
  rw [pickBoss_eq] at h
  split at h
  · rename_i hshort
    obtain ⟨hmem, hnew⟩ := pick_some h
    exact ⟨List.mem_of_mem_filter (mem_closestByDifficulty.mp hmem), hnew,
      .inr ⟨hshort.2, eligibleBoss_eq_none hshort.1⟩⟩
  · obtain ⟨hcand, hnew, helig⟩ := eligibleBoss_some h
    exact ⟨hcand, hnew, .inl helig⟩

theorem pickBoss_eq_none (h : pickBoss S candidates selected = none) :
    Exhausted (bossEligible S) candidates selected ∧
      (selected.length < minSlots → Exhausted (fun _ => true) candidates selected) := by
  rw [pickBoss_eq] at h
  split at h
  · rename_i hshort
    refine ⟨eligibleBoss_eq_none hshort.1, fun _ c hc _ => ?_⟩
    by_contra hnew
    refine hnew (pick_eq_none h c ?_)
    rw [mem_closestByDifficulty, List.mem_filter]
    exact ⟨hc, by simpa using hnew⟩
  · rename_i hshort
    exact ⟨eligibleBoss_eq_none h, fun hlt => absurd ⟨h, hlt⟩ hshort⟩

/-- The pad adds other candidates until the session is long enough, or none is left. -/
theorem pad_spec (boss : Option Candidate) (turns : Nat)
    (h : Picked (fun _ => true) candidates (selected ++ boss.toList))
    (hturns : minSlots ≤ selected.length + boss.toList.length + turns) :
    ∃ extra, pad S candidates boss turns selected = selected ++ extra ∧
      Picked (fun _ => true) candidates (selected ++ extra ++ boss.toList) ∧
      (extra = [] ∨ (selected ++ extra).length + boss.toList.length ≤ minSlots) ∧
      (minSlots ≤ (selected ++ extra).length + boss.toList.length ∨
        Exhausted (fun _ => true) candidates (selected ++ extra ++ boss.toList)) := by
  induction turns generalizing selected with
  | zero => exact ⟨[], (List.append_nil _).symm, by rwa [List.append_nil], .inl rfl, .inl (by rwa [List.append_nil])⟩
  | succ turns ih =>
    rw [pad]
    dsimp only
    split
    · rename_i hlong
      exact ⟨[], (List.append_nil _).symm, by rwa [List.append_nil], .inl rfl, .inl (by rwa [List.append_nil])⟩
    · rename_i hshort
      split
      · rename_i chosen hpick
        obtain ⟨hmem, hnew⟩ := pick_some hpick
        have hcand : chosen ∈ candidates := List.mem_of_mem_filter (mem_closestByDifficulty.mp hmem)
        have hnext : Picked (fun _ => true) candidates (selected ++ [chosen] ++ boss.toList) := by
          refine (h.append_singleton hcand rfl ?_).perm ?_
          · rwa [ids, List.map_append]
          · rw [List.append_assoc, List.append_assoc]
            exact (List.perm_append_comm).append_left _
        have hlen : (selected ++ [chosen]).length = selected.length + 1 := by
          rw [List.length_append, List.length_singleton]
        obtain ⟨extra, he, hpicked, hextra, hend⟩ := ih hnext (by omega)
        have hcons : selected ++ chosen :: extra = selected ++ [chosen] ++ extra := by
          rw [List.append_assoc, List.singleton_append]
        refine ⟨chosen :: extra, ?_, ?_, .inr ?_, ?_⟩ <;> rw [hcons]
        · exact he
        · exact hpicked
        · rcases hextra with rfl | hextra
          · rw [List.append_nil]
            omega
          · exact hextra
        · exact hend
      · rename_i hpick
        have hused : ids (selected ++ [] ++ boss.toList) = ids selected ++ ids boss.toList := by
          rw [List.append_nil, ids, List.map_append]
        refine ⟨[], (List.append_nil _).symm, by rwa [List.append_nil], .inl rfl, .inr fun c hc _ => ?_⟩
        rw [hused]
        by_contra hnew
        refine hnew (pick_eq_none hpick c ?_)
        rw [mem_closestByDifficulty, List.mem_filter]
        exact ⟨hc, by simpa using hnew⟩

/-- More turns change nothing: the loop is over. -/
theorem pad_turns (boss : Option Candidate) (turns more : Nat)
    (hturns : minSlots ≤ selected.length + boss.toList.length + turns) :
    pad S candidates boss (turns + more) selected = pad S candidates boss turns selected := by
  induction turns generalizing selected with
  | zero =>
    cases more with
    | zero => rfl
    | succ more =>
      rw [Nat.zero_add, pad, pad]
      exact if_pos hturns
  | succ turns ih =>
    rw [Nat.succ_add, pad, pad]
    split
    · rfl
    · dsimp only
      split
      · refine ih ?_
        rw [List.length_append, List.length_singleton]
        omega
      · rfl

end Passes

/-! ## A session -/

section Session

/-- Candidates as slots, none of them the boss. -/
def toSlots (l : List Candidate) : List SessionSlot := l.zipIdx.map fun p => p.1.toSlot (p.2 + 1) false

theorem toSlots_append_singleton (l : List Candidate) (c : Candidate) :
    toSlots (l ++ [c]) = toSlots l ++ [c.toSlot (l.length + 1) false] := by
  simp [toSlots, List.zipIdx_append]

theorem toSlots_isPrefix {l l' : List Candidate} (h : l <+: l') : toSlots l <+: toSlots l' := by
  obtain ⟨t, rfl⟩ := h
  rw [toSlots, toSlots, List.zipIdx_append, List.map_append]
  exact List.prefix_append _ _

/-- What the passes have picked: the exercises of the band, what was added to them, and the boss. -/
structure Passes (S : Sampling) (candidates core extra : List Candidate) (boss : Option Candidate) : Prop where
  slots : buildSessionSlots S candidates =
    toSlots (core ++ extra) ++ boss.toList.map fun c => c.toSlot ((core ++ extra).length + 1) true
  due : pickDue S candidates S.dueConcepts [] <+: core
  picked : Picked (inBand S) candidates core
  core_length : core.length = maxNonBossSlots ∨
    core.length < maxNonBossSlots ∧ Exhausted (inBand S) candidates core
  boss_some : ∀ c, boss = some c → c ∈ candidates ∧ c.id ∉ ids core ∧
    (bossEligible S c = true ∨ core.length < minSlots ∧ Exhausted (bossEligible S) candidates core)
  boss_none : boss = none → Exhausted (bossEligible S) candidates core ∧
    (core.length < minSlots → Exhausted (fun _ => true) candidates core)
  all : Picked (fun _ => true) candidates (core ++ extra ++ boss.toList)
  added : extra = [] ∨ (core ++ extra).length + boss.toList.length ≤ minSlots
  ends : minSlots ≤ (core ++ extra).length + boss.toList.length ∨
    Exhausted (fun _ => true) candidates (core ++ extra ++ boss.toList)

theorem exists_passes (S : Sampling) (candidates : List Candidate) :
    ∃ core extra boss, Passes S candidates core extra boss := by
  obtain ⟨hdue, hdueLen, -⟩ := picked_due S.dueConcepts (.nil : Picked (inBand S) candidates []) (Nat.zero_le _)
  generalize hd : pickDue S candidates S.dueConcepts [] = due at hdue hdueLen
  obtain ⟨hcore, hpre, hlen⟩ := picked_fill (maxNonBossSlots - due.length) hdue
  generalize hc : fill S candidates (maxNonBossSlots - due.length) due = core at hcore hpre hlen
  rw [Nat.add_sub_cancel' hdueLen] at hlen
  have hbossSome : ∀ c, pickBoss S candidates core = some c → c ∈ candidates ∧ c.id ∉ ids core ∧
      (bossEligible S c = true ∨ core.length < minSlots ∧ Exhausted (bossEligible S) candidates core) :=
    fun c hc => pickBoss_some hc
  have hbossNone : pickBoss S candidates core = none → Exhausted (bossEligible S) candidates core ∧
      (core.length < minSlots → Exhausted (fun _ => true) candidates core) := pickBoss_eq_none
  generalize hb : pickBoss S candidates core = boss at hbossSome hbossNone
  have hall : Picked (fun _ => true) candidates (core ++ boss.toList) := by
    have hcore' := hcore.mono (q := fun _ => true) fun _ _ _ => rfl
    cases boss with
    | none => rwa [Option.toList_none, List.append_nil]
    | some c =>
      obtain ⟨hmem, hnew, -⟩ := hbossSome c rfl
      exact hcore'.append_singleton hmem rfl hnew
  obtain ⟨extra, hpad, hpicked, hadded, hends⟩ := pad_spec (S := S) boss minSlots hall (Nat.le_add_left _ _)
  refine ⟨core, extra, boss, ?_, hd ▸ hpre, hcore, hlen, hbossSome, hbossNone, hpicked, hadded, hends⟩
  unfold buildSessionSlots
  dsimp only
  rw [hd, hc, hb, hpad]
  rfl

/-- What holds of a session. -/
structure SamplerLaw (S : Sampling) (candidates : List Candidate) : Prop where
  /-- The loop of the pad is over after as many turns as there are slots to fill. -/
  ends : ∀ boss selected more,
    pad S candidates boss (minSlots + more) selected = pad S candidates boss minSlots selected
  distinct : ((buildSessionSlots S candidates).map (·.exerciseId)).Nodup
  numbered : (buildSessionSlots S candidates).map (·.slot) =
    (List.range (buildSessionSlots S candidates).length).map fun i : Nat => (i : Int) + 1
  boss_last : ∀ s ∈ (buildSessionSlots S candidates).dropLast, s.isBoss = false
  /-- With `b` candidates in the band and `e` up to the boss maximum. -/
  length : (buildSessionSlots S candidates).length =
    let b := min maxNonBossSlots (candidates.countP (inBand S))
    let e := candidates.countP (bossEligible S)
    max (b + if b < e then 1 else 0) (min minSlots candidates.length)
  /-- A slot out of the band needs the band used up, and a session that is short without it. -/
  out_of_band : ∀ c ∈ candidates, ∀ s ∈ buildSessionSlots S candidates, s.exerciseId = c.id → s.isBoss = false →
    inBand S c = false →
      (∀ d ∈ candidates, inBand S d = true → d.id ∈ (buildSessionSlots S candidates).map (·.exerciseId)) ∧
        (buildSessionSlots S candidates).length ≤ minSlots
  boss_over : ∀ c ∈ candidates, ∀ s ∈ buildSessionSlots S candidates, s.exerciseId = c.id → s.isBoss = true →
    bossMax S < c.difficulty → (buildSessionSlots S candidates).length ≤ minSlots
  /-- A due concept with an unused exercise of the band gets the next slot, unless the slots are filled. -/
  due : ∀ pre concept post, S.dueConcepts = pre ++ concept :: post →
    let before := pickDue S candidates pre []
    before.length < maxNonBossSlots →
    (∃ c ∈ candidates, concept ∈ c.concepts.1 ∧ inBand S c = true ∧ c.id ∉ ids before) →
    ∃ chosen ∈ candidates, concept ∈ chosen.concepts.1 ∧ inBand S chosen = true ∧ chosen.id ∉ ids before ∧
      toSlots (before ++ [chosen]) <+: buildSessionSlots S candidates

section Law

variable {core extra : List Candidate} {boss : Option Candidate}

theorem Passes.length (h : Passes S candidates core extra boss) :
    (buildSessionSlots S candidates).length = core.length + extra.length + boss.toList.length := by
  rw [h.slots]
  simp [toSlots]

theorem Passes.exerciseIds (h : Passes S candidates core extra boss) :
    (buildSessionSlots S candidates).map (·.exerciseId) = ids (core ++ extra ++ boss.toList) := by
  have hslots : ∀ l : List Candidate, (toSlots l).map (·.exerciseId) = ids l := by
    intro l
    have hfst := congrArg (List.map (·.id)) (List.zipIdx_map_fst 0 l)
    rw [List.map_map] at hfst
    rw [toSlots, List.map_map]
    exact hfst
  have happend : ids (core ++ extra ++ boss.toList) = ids (core ++ extra) ++ ids boss.toList := List.map_append
  rw [h.slots, List.map_append, hslots, List.map_map, happend]
  rfl

theorem Passes.numbered (h : Passes S candidates core extra boss) :
    (buildSessionSlots S candidates).map (·.slot) =
      (List.range (buildSessionSlots S candidates).length).map fun i : Nat => (i : Int) + 1 := by
  have hslots : ∀ l : List Candidate, (toSlots l).map (·.slot) = (List.range l.length).map fun i : Nat => (i : Int) + 1 := by
    intro l
    have hsnd := congrArg (List.map fun i : Nat => (i : Int) + 1) (List.zipIdx_map_snd 0 l)
    rw [List.map_map, ← List.range_eq_range'] at hsnd
    rw [toSlots, List.map_map]
    exact hsnd
  rw [h.length, h.slots, List.map_append, hslots, List.length_append]
  cases boss with
  | none => simp
  | some c => simp [List.range_succ, Candidate.toSlot]

/-- A slot that is not the boss is one of the others. -/
theorem Passes.mem_others (h : Passes S candidates core extra boss) {s : SessionSlot}
    (hs : s ∈ buildSessionSlots S candidates) :
    (s.isBoss = false ∧ ∃ c ∈ core ++ extra, s.exerciseId = c.id) ∨
      (s.isBoss = true ∧ ∃ c, boss = some c ∧ s.exerciseId = c.id) := by
  rw [h.slots] at hs
  rcases List.mem_append.mp hs with hs | hs
  · obtain ⟨⟨c, i⟩, hc, rfl⟩ := List.mem_map.mp hs
    exact .inl ⟨rfl, c, List.fst_mem_of_mem_zipIdx hc, rfl⟩
  · obtain ⟨c, hc, rfl⟩ := List.mem_map.mp hs
    exact .inr ⟨rfl, c, Option.mem_toList.mp hc, rfl⟩

/-- The band is below the boss maximum. -/
theorem bossEligible_of_inBand (hhigh : S.levelBand.2 ≤ 1000) (h : inBand S c = true) : bossEligible S c = true := by
  rw [inBand, decide_eq_true_eq] at h
  rw [bossEligible, decide_eq_true_eq]
  refine ⟨h.1, le_min (h.2.trans hhigh) (h.2.trans ?_)⟩
  unfold bossBandMargin
  omega

theorem Passes.length_law (hids : (ids candidates).Nodup) (hhigh : S.levelBand.2 ≤ 1000)
    (h : Passes S candidates core extra boss) : (buildSessionSlots S candidates).length =
      let b := min maxNonBossSlots (candidates.countP (inBand S))
      let e := candidates.countP (bossEligible S)
      max (b + if b < e then 1 else 0) (min minSlots candidates.length) := by
  have helig : Picked (bossEligible S) candidates core := h.picked.mono fun _ _ hc => bossEligible_of_inBand hhigh hc
  have hcount : candidates.countP (fun _ => true) = candidates.length := by simp
  -- as many exercises of the band as there are, up to four
  have hb : min maxNonBossSlots (candidates.countP (inBand S)) = core.length := by
    rcases h.core_length with hfull | ⟨hlt, hall⟩
    · rw [← hfull]
      exact min_eq_left h.picked.length_le
    · rw [← h.picked.length_eq hids hall]
      exact min_eq_right hlt.le
  have hn : core.length + extra.length + boss.toList.length ≤ candidates.length := by
    have := h.all.length_le
    rwa [hcount, List.length_append, List.length_append] at this
  have hends : minSlots ≤ core.length + extra.length + boss.toList.length ∨
      core.length + extra.length + boss.toList.length = candidates.length := by
    rcases h.ends with hlong | hall
    · exact .inl (by rwa [List.length_append] at hlong)
    · have := h.all.length_eq hids hall
      rw [hcount, List.length_append, List.length_append] at this
      exact .inr this
  have hadded : extra.length = 0 ∨ core.length + extra.length + boss.toList.length ≤ minSlots := by
    rcases h.added with rfl | hshort
    · exact .inl rfl
    · exact .inr (by rwa [List.length_append] at hshort)
  dsimp only
  rw [hb, h.length]
  unfold minSlots at *
  cases boss with
  | none =>
    obtain ⟨hnone, hall⟩ := h.boss_none rfl
    have he := helig.length_eq hids hnone
    have hshort : core.length < 3 → core.length = candidates.length := fun hlt => by
      rw [← hcount]
      exact (h.picked.mono fun _ _ _ => rfl).length_eq hids (hall hlt)
    simp only [Option.toList_none, List.length_nil] at hn hends hadded ⊢
    rw [if_neg (by omega)]
    omega
  | some c =>
    obtain ⟨hmem, hnew, hc⟩ := h.boss_some c rfl
    simp only [Option.toList_some, List.length_singleton] at hn hends hadded ⊢
    rcases hc with hc | ⟨hlt, hall⟩
    · have he := (helig.append_singleton hmem hc hnew).length_le
      rw [List.length_append, List.length_singleton] at he
      rw [if_pos (by omega)]
      omega
    · have he := helig.length_eq hids hall
      unfold minSlots at hlt
      rw [if_neg (by omega)]
      omega

/-- Without a slot out of the band, or a boss that is not eligible, the session would be short. -/
theorem Passes.length_le (h : Passes S candidates core extra boss)
    (hshort : extra ≠ [] ∨ core.length < minSlots ∧ boss.isSome = true) :
    (buildSessionSlots S candidates).length ≤ minSlots := by
  rw [h.length]
  rcases h.added with rfl | hadded
  · rcases hshort with hne | ⟨hlt, hboss⟩
    · exact absurd rfl hne
    · obtain ⟨c, rfl⟩ := Option.isSome_iff_exists.mp hboss
      exact hlt
  · rwa [List.length_append] at hadded

theorem Passes.out_of_band (hids : (ids candidates).Nodup) (h : Passes S candidates core extra boss)
    (hc : c ∈ candidates) {s : SessionSlot} (hs : s ∈ buildSessionSlots S candidates) (hid : s.exerciseId = c.id)
    (hboss : s.isBoss = false) (hband : inBand S c = false) :
    (∀ d ∈ candidates, inBand S d = true → d.id ∈ (buildSessionSlots S candidates).map (·.exerciseId)) ∧
      (buildSessionSlots S candidates).length ≤ minSlots := by
  rcases h.mem_others hs with ⟨-, d, hd, hid'⟩ | ⟨hboss', -⟩
  · have hdc : d = c :=
      eq_of_id hids (h.all.mem d (List.mem_append_left _ hd)).1 hc (hid'.symm.trans hid)
    subst hdc
    have hextra : extra ≠ [] := by
      rintro rfl
      rw [List.append_nil] at hd
      have := (h.picked.mem d hd).2
      rw [hband] at this
      cases this
    refine ⟨?_, h.length_le (.inl hextra)⟩
    have hlt : core.length < maxNonBossSlots := by
      have hpos := List.length_pos_iff.mpr hextra
      have hadded := h.added.resolve_left hextra
      rw [List.length_append] at hadded
      unfold minSlots at hadded
      unfold maxNonBossSlots
      omega
    have hall := (h.core_length.resolve_left hlt.ne).2
    intro d' hd' hband'
    rw [h.exerciseIds, ids, List.map_append, List.map_append]
    exact List.mem_append_left _ (List.mem_append_left _ (hall d' hd' hband'))
  · rw [hboss] at hboss'
    cases hboss'

theorem Passes.boss_over (hids : (ids candidates).Nodup) (h : Passes S candidates core extra boss)
    (hc : c ∈ candidates) {s : SessionSlot} (hs : s ∈ buildSessionSlots S candidates) (hid : s.exerciseId = c.id)
    (hboss : s.isBoss = true) (hover : bossMax S < c.difficulty) :
    (buildSessionSlots S candidates).length ≤ minSlots := by
  rcases h.mem_others hs with ⟨hboss', -⟩ | ⟨-, d, hd, hid'⟩
  · rw [hboss] at hboss'
    cases hboss'
  · obtain ⟨hmem, -, hd'⟩ := h.boss_some d hd
    have hdc : d = c := eq_of_id hids hmem hc (hid'.symm.trans hid)
    subst hdc
    rcases hd' with helig | ⟨hlt, -⟩
    · rw [bossEligible, decide_eq_true_eq] at helig
      exact absurd helig.2 (not_le.mpr hover)
    · exact h.length_le (.inr ⟨hlt, by rw [hd]; rfl⟩)

theorem Passes.due_slot (h : Passes S candidates core extra boss) {pre post : List String} {concept : String}
    (hdue : S.dueConcepts = pre ++ concept :: post)
    (hlen : (pickDue S candidates pre []).length < maxNonBossSlots)
    (hleft : ∃ c ∈ candidates, concept ∈ c.concepts.1 ∧ inBand S c = true ∧
      c.id ∉ ids (pickDue S candidates pre [])) :
    ∃ chosen ∈ candidates, concept ∈ chosen.concepts.1 ∧ inBand S chosen = true ∧
      chosen.id ∉ ids (pickDue S candidates pre []) ∧
      toSlots (pickDue S candidates pre [] ++ [chosen]) <+: buildSessionSlots S candidates := by
  obtain ⟨hpicked, -⟩ := picked_due pre (.nil : Picked (inBand S) candidates []) (Nat.zero_le _)
  have hpasses := h.due
  rw [hdue, pickDue_append, pickDue_cons _ _ hlen] at hpasses
  generalize pickDue S candidates pre [] = before at hlen hleft hpicked hpasses ⊢
  cases hchoice : dueChoice S candidates concept before with
  | none =>
    obtain ⟨c, hc, hconcept, hband, hnew⟩ := hleft
    exact absurd (dueChoice_eq_none hchoice c hc hconcept hband) hnew
  | some chosen =>
    obtain ⟨hcand, hconcept, hband, hnew⟩ := dueChoice_some hchoice
    rw [hchoice, Option.toList_some] at hpasses
    have hle : (before ++ [chosen]).length ≤ maxNonBossSlots := by
      rw [List.length_append, List.length_singleton]
      exact hlen
    obtain ⟨-, -, hpre⟩ := picked_due (S := S) post (hpicked.append_singleton hcand hband hnew) hle
    refine ⟨chosen, hcand, hconcept, hband, hnew, ?_⟩
    rw [h.slots]
    exact (toSlots_isPrefix ((hpre.trans hpasses).trans (List.prefix_append _ _))).trans (List.prefix_append _ _)

/-- **The law of the sampler**, for every pool of distinct candidates and every band up to ten. -/
theorem sampler_law (S : Sampling) (candidates : List Candidate) (hids : (candidates.map (·.id)).Nodup)
    (hhigh : S.levelBand.2 ≤ 1000) : SamplerLaw S candidates := by
  obtain ⟨core, extra, boss, h⟩ := exists_passes S candidates
  refine
    { ends := fun boss selected more => pad_turns boss minSlots more (Nat.le_add_left _ _)
      distinct := h.exerciseIds ▸ h.all.nodup
      numbered := h.numbered
      boss_last := ?_
      length := h.length_law hids hhigh
      out_of_band := fun c hc s hs => h.out_of_band hids hc hs
      boss_over := fun c hc s hs => h.boss_over hids hc hs
      due := fun pre concept post => h.due_slot }
  intro s hs
  rw [h.slots] at hs
  cases boss with
  | none =>
    rw [Option.toList_none, List.map_nil, List.append_nil] at hs
    obtain ⟨_, -, rfl⟩ := List.mem_map.mp (List.mem_of_mem_dropLast hs)
    rfl
  | some c =>
    rw [Option.toList_some, List.map_singleton, List.dropLast_concat] at hs
    obtain ⟨_, -, rfl⟩ := List.mem_map.mp hs
    rfl

end Law

/-- A junior with two due concepts, and nothing seen lately. -/
def juniorSampling : Sampling where
  dueConcepts := ["scope", "closures"]
  conceptMastery _ := 0
  recentlySeen _ := false
  levelDifficulty := 300
  levelBand := (100, 500)
  setOrder := ⟨id, fun _ => .refl _⟩

/-- Two exercises of the band, one for a boss, and one that is too hard. -/
def smallPool : List Candidate :=
  [⟨1, 1, ⟨["closures"], by decide⟩, 300⟩, ⟨2, 1, ⟨["scope", "closures"], by decide⟩, 400⟩,
    ⟨3, 1, ⟨["recursion"], by decide⟩, 700⟩, ⟨4, 1, ⟨["recursion"], by decide⟩, 900⟩]

/-- The due concepts first, and a boss. -/
theorem sampler_law_smallPool : SamplerLaw juniorSampling smallPool ∧
    buildSessionSlots juniorSampling smallPool = [⟨⟨2, 1⟩, 1, false⟩, ⟨⟨1, 1⟩, 2, false⟩, ⟨⟨3, 1⟩, 3, true⟩] :=
  ⟨sampler_law juniorSampling smallPool (by decide) (by decide), by decide +kernel⟩

end Session

end CodeReader.Sessions
