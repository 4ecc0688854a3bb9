import CodeReader.Ledger.Links
import CodeReader.Runs.LedgerStep

/-!
# The streak ledger is a chain

In every serial run the rows of `streak_events`, in the order of their ids, lead from 0 to `current_streak`, each
starting where the one before it ended, and `longest_streak` is the greatest value any of them led to.

* `Moves` — what the rows of one step do to the value and to its maximum;
* `LedgerInv` — the invariant; `ledgerInv_step` keeps it;
* `ledger_chain` — **the result** on runs from the creation of the user.
-/

namespace CodeReader

open Txn Prog Ledger

/-- `user_stats.current_streak`, 0 without a row. -/
def currentStreak (stats : Option UserStats) : Int := (stats.map (·.currentStreak)).getD 0

/-- `user_stats.longest_streak`, 0 without a row. -/
def longestStreak (stats : Option UserStats) : Int := (stats.map (·.longestStreak)).getD 0

@[simp] theorem currentStreak_some (st : UserStats) : currentStreak (some st) = st.currentStreak := rfl
@[simp] theorem longestStreak_some (st : UserStats) : longestStreak (some st) = st.longestStreak := rfl

def StreakEvent.change (e : StreakEvent) : Int × Int := (e.fromValue, e.toValue)

def NewEvent.change (e : NewEvent) : Int × Int := (e.fromValue, e.toValue)

theorem toRows_change (tx : Tx) (evs : List NewEvent) :
    (NewEvent.toRows tx evs).map StreakEvent.change = evs.map NewEvent.change := by
  refine List.ext_getElem (by simp [NewEvent.toRows]) fun k h₁ h₂ => ?_
  simp [NewEvent.toRows, NewEvent.toRow, StreakEvent.change, NewEvent.change]

/-! ## One step -/

/-- The changes `l` lead from the streak of `stats` to that of `stats'`, and the maximum follows them. -/
structure Moves (stats : Option UserStats) (l : List (Int × Int)) (stats' : Option UserStats) : Prop where
  links : Links (currentStreak stats) l (currentStreak stats')
  longest : ∀ m, longestStreak stats' ≤ m ↔ longestStreak stats ≤ m ∧ ∀ x ∈ l, x.2 ≤ m
  nonneg : 0 ≤ currentStreak stats → ∀ x ∈ l, 0 ≤ x.2

/-- Rows that record bookkeeping carry the value unchanged. -/
theorem Moves.still {stats stats' : Option UserStats} {l : List (Int × Int)}
    (hc : currentStreak stats' = currentStreak stats) (hl : longestStreak stats' = longestStreak stats)
    (hle : currentStreak stats ≤ longestStreak stats) (h : ∀ x ∈ l, x = (currentStreak stats, currentStreak stats)) :
    Moves stats l stats' where
  links := by rw [hc]; exact links_of_still h
  longest m := by
    rw [hl]
    refine ⟨fun hm => ⟨hm, fun x hx => ?_⟩, And.left⟩
    rw [h x hx]
    exact Int.le_trans hle hm
  nonneg h₀ x hx := by rw [h x hx]; exact h₀

/-- A row that changes the streak, among rows that do not: those of freezes before it, an accrual after it. -/
theorem Moves.change {stats stats' : Option UserStats} {v : Int} (l₁ l₂ : List (Int × Int))
    (hc : currentStreak stats' = v) (hl : longestStreak stats' = max (longestStreak stats) v) (hv : 0 ≤ v)
    (hle : currentStreak stats ≤ longestStreak stats)
    (h₁ : ∀ x ∈ l₁, x = (currentStreak stats, currentStreak stats)) (h₂ : ∀ x ∈ l₂, x = (v, v)) :
    Moves stats (l₁ ++ [(currentStreak stats, v)] ++ l₂) stats' where
  links := by
    rw [List.append_assoc, links_append]
    refine ⟨currentStreak stats, links_of_still h₁, rfl, ?_⟩
    rw [hc]
    exact links_of_still h₂
  longest m := by
    rw [hl]
    constructor
    · intro hm
      refine ⟨by omega, fun x hx => ?_⟩
      simp only [List.mem_append, List.mem_singleton] at hx
      rcases hx with (hx | rfl) | hx
      · rw [h₁ x hx]; dsimp only; omega
      · dsimp only; omega
      · rw [h₂ x hx]; dsimp only; omega
    · rintro ⟨hm, hx⟩
      have hv' := hx (currentStreak stats, v) (by simp)
      dsimp only at hv'
      omega
  nonneg h₀ x hx := by
    simp only [List.mem_append, List.mem_singleton] at hx
    rcases hx with (hx | rfl) | hx
    · rw [h₁ x hx]; exact h₀
    · exact hv
    · rw [h₂ x hx]; exact hv

/-- A transition of the stats, behind freezes spent for it. -/
theorem Moves.transition {cfg : Settings} {stats : Option UserStats} {st : UserStats} {spent : List NewEvent}
    {event : StreakEventKind} {toValue today : Int} (hc : st.currentStreak = currentStreak stats)
    (hl : st.longestStreak = longestStreak stats) (hle : currentStreak stats ≤ longestStreak stats)
    (hv : 0 ≤ toValue) (hspent : ∀ e ∈ spent, e.change = (st.currentStreak, st.currentStreak)) :
    Moves stats ((Counted.transition cfg st spent event toValue today).rows.map NewEvent.change)
      (some (Counted.transition cfg st spent event toValue today).stats) := by
  have hacc : ∀ p : UserStats × List NewEvent,
      p = (if event = .extended then accrueFreezeIfEarned cfg (transitionStats st toValue today) today
        else (transitionStats st toValue today, [])) →
      p.1.currentStreak = toValue ∧ p.1.longestStreak = max st.longestStreak toValue ∧
        ∀ x ∈ p.2.map NewEvent.change, x = (toValue, toValue) := by
    rintro p rfl
    split
    · rcases accrueFreezeIfEarned_cases cfg (transitionStats st toValue today) today with h | ⟨-, note, h⟩
      · rw [h]; exact ⟨rfl, rfl, by simp⟩
      · rw [h]; exact ⟨rfl, rfl, by simp [NewEvent.change, transitionStats]⟩
    · exact ⟨rfl, rfl, by simp⟩
  obtain ⟨h₁, h₂, h₃⟩ := hacc _ rfl
  simp only [Counted.transition, List.map_append, List.map_cons, List.map_nil]
  have he : NewEvent.change ⟨event, st.currentStreak, toValue, today, none⟩ = (currentStreak stats, toValue) := by
    simp [NewEvent.change, hc]
  rw [he]
  refine Moves.change _ _ h₁ (by rw [longestStreak_some, h₂, hl]) hv hle (fun x hx => ?_) h₃
  obtain ⟨e, hes, rfl⟩ := List.mem_map.mp hx
  rw [hspent e hes, hc]

/-- The streak step of a submission. -/
theorem Moves.counted {cfg : Settings} {events : List StreakEvent} {stats : Option UserStats} {st : UserStats}
    {today : Int} (hc : st.currentStreak = currentStreak stats) (hl : st.longestStreak = longestStreak stats)
    (h₀ : 0 ≤ currentStreak stats) (hle : currentStreak stats ≤ longestStreak stats) :
    Moves stats ((countSubmission cfg events st today).rows.map NewEvent.change)
      (some (countSubmission cfg events st today).stats) := by
  rcases countSubmission_cases cfg events st today with ⟨-, h⟩ | ⟨days, -, h⟩ | ⟨-, h⟩
  · rw [h]
    exact Moves.still hc hl hle (by simp)
  · rw [h]
    refine Moves.transition hc hl hle ?_ fun e he => ?_
    · have : (st.attempted.spend days.length).currentStreak = currentStreak stats := hc
      omega
    · obtain ⟨d, -, rfl⟩ := List.mem_map.mp he
      rfl
  · rw [h]
    exact Moves.transition hc hl hle (by decide) (by simp)

theorem gradedStats_current (cfg : Settings) (type : String) (grade : Grade) (stats : Option UserStats) :
    (gradedStats cfg type grade stats).currentStreak = currentStreak stats := by
  unfold gradedStats
  cases grade.isCorrect <;> cases stats <;> rfl

theorem gradedStats_longest (cfg : Settings) (type : String) (grade : Grade) (stats : Option UserStats) :
    (gradedStats cfg type grade stats).longestStreak = longestStreak stats := by
  unfold gradedStats
  cases grade.isCorrect <;> cases stats <;> rfl

theorem LedgerStep.moves {D : Deployment} {c : Call} {rows : UserRows} {stats' : Option UserStats}
    {evs : List NewEvent} (h : LedgerStep D c rows stats' evs) (h₀ : 0 ≤ currentStreak rows.stats)
    (hle : currentStreak rows.stats ≤ longestStreak rows.stats) :
    Moves rows.stats (evs.map NewEvent.change) stats' := by
  cases h with
  | unchanged => exact Moves.still rfl rfl hle (by simp)
  | recorded hop hr => exact Moves.counted (gradedStats_current ..) (gradedStats_longest ..) h₀ hle
  | reconciled hop hst hlast hback =>
    rw [hst] at hle ⊢
    exact Moves.still rfl rfl hle (by simp [NewEvent.change, reconcileRow])
  | filled hop hst hlast hnew =>
    rw [hst] at hle ⊢
    exact Moves.still rfl rfl hle (by simp [NewEvent.change])
  | granted hop hst hlow =>
    rw [hst] at hle ⊢
    exact Moves.still rfl rfl hle (by simp [NewEvent.change])
  | @accrued d st hop hst =>
    rw [hst] at hle ⊢
    rcases accrueFreezeIfEarned_cases D.cfg st d with h | ⟨-, note, h⟩
    · rw [h]; exact Moves.still rfl rfl hle (by simp)
    · rw [h]; exact Moves.still rfl rfl hle (by simp [NewEvent.change])
  | @repaired r st hop hr =>
    obtain ⟨-, hst, hlt⟩ := repairable_eq_some.mp hr
    rw [hst] at h₀ hle ⊢
    have hv : 0 ≤ r.restoresTo := by
      simp only [currentStreak_some] at h₀
      omega
    exact Moves.change [] [] rfl rfl hv hle (by simp) (by simp)

/-! ## Runs -/

/-- The invariant of the ledger and the stats. -/
structure LedgerInv (rows : UserRows) : Prop where
  links : Links 0 (rows.events.map StreakEvent.change) (currentStreak rows.stats)
  longest : ∀ m, longestStreak rows.stats ≤ m ↔ 0 ≤ m ∧ ∀ e ∈ rows.events, e.toValue ≤ m
  nonneg : ∀ e ∈ rows.events, 0 ≤ e.toValue
  ids : rows.events.Pairwise (·.id < ·.id)

/-- The value that the changes lead to is the first one or some change's. -/
theorem Ledger.Links.last {a b : Int} {l : List (Int × Int)} (h : Links a l b) : b = a ∨ ∃ x ∈ l, x.2 = b := by
  induction l generalizing a with
  | nil => exact .inl h.symm
  | cons x l ih =>
    rcases ih h.2 with rfl | ⟨y, hy, rfl⟩
    · exact .inr ⟨x, by simp, rfl⟩
    · exact .inr ⟨y, by simp [hy], rfl⟩

namespace LedgerInv

variable {rows : UserRows}

theorem current_nonneg (h : LedgerInv rows) : 0 ≤ currentStreak rows.stats := by
  rcases h.links.last with hb | ⟨x, hx, hb⟩
  · omega
  · obtain ⟨e, he, rfl⟩ := List.mem_map.mp hx
    exact hb ▸ h.nonneg e he

theorem current_le_longest (h : LedgerInv rows) : currentStreak rows.stats ≤ longestStreak rows.stats := by
  obtain ⟨hl₀, hl⟩ := (h.longest _).mp (Int.le_refl _)
  rcases h.links.last with hb | ⟨x, hx, hb⟩
  · omega
  · obtain ⟨e, he, rfl⟩ := List.mem_map.mp hx
    exact hb ▸ hl e he

theorem created (timezone : String) : LedgerInv (.created timezone) where
  links := rfl
  longest m := by simp [UserRows.created, longestStreak]
  nonneg := by simp [UserRows.created]
  ids := by simp [UserRows.created]

end LedgerInv

/-- The new rows carry increasing ids, above those of the ledger. -/
theorem pairwise_id_append {c : Call} {events : List StreakEvent} {evs : List NewEvent}
    (hinc : ∀ j k, j < k → c.eventId j < c.eventId k) (hnew : ∀ e ∈ events, e.id < c.eventId 0) (h : events.Pairwise (·.id < ·.id)) :
    (events ++ NewEvent.toRows c.tx evs).Pairwise (·.id < ·.id) := by
  refine List.pairwise_append.mpr ⟨h, ?_, fun e he r hr => ?_⟩
  · rw [List.pairwise_iff_getElem]
    intro i j hi hj hij
    simpa [NewEvent.toRows, NewEvent.toRow, Call.tx] using hinc i j hij
  · obtain ⟨k, -, rfl⟩ := mem_toRows.mp hr
    have hk : c.eventId 0 ≤ c.eventId k := by
      rcases Nat.eq_zero_or_pos k with rfl | hk
      · exact Nat.le_refl _
      · exact Nat.le_of_lt (hinc 0 k hk)
    exact Nat.lt_of_lt_of_le (hnew e he) hk

theorem ledgerInv_step {D : Deployment} {c : Call} {rows : UserRows} (h : LedgerInv rows) (hf : c.Fresh rows) :
    LedgerInv (c.after D rows) := by
  obtain ⟨evs, hev, hstep⟩ := c.ledgerStep D rows
  have hm := hstep.moves h.current_nonneg h.current_le_longest
  have hto : ∀ m : Int, (∀ e ∈ NewEvent.toRows c.tx evs, e.toValue ≤ m) ↔ ∀ x ∈ evs.map NewEvent.change, x.2 ≤ m := by
    intro m
    rw [← toRows_change c.tx]
    simp [StreakEvent.change]
  refine ⟨?_, fun m => ?_, fun e he => ?_, ?_⟩
  · rw [hev, List.map_append, toRows_change, links_append]
    exact ⟨_, h.links, hm.links⟩
  · rw [hm.longest, h.longest, hev, List.forall_mem_append, hto, and_assoc]
  · rw [hev, List.mem_append] at he
    rcases he with he | he
    · exact h.nonneg e he
    · refine hm.nonneg h.current_nonneg e.change ?_
      rw [← toRows_change c.tx]
      exact List.mem_map_of_mem he
  · rw [hev]
    exact pairwise_id_append hf.increasing hf.events h.ids

theorem Run.ledgerInv {D : Deployment} {P : UserRows → Call → Prop} {start rows : UserRows} {calls : List Call}
    (h : Run D P start calls rows) (h₀ : LedgerInv start) : LedgerInv rows := by
  induction h with
  | nil => exact h₀
  | call _ _ hf _ ih => exact ledgerInv_step ih hf

/-- **The streak ledger is a chain**: in every serial run of any operations from the creation of the user, the rows
in the order of their ids start at 0, continue where the one before ended and end at `current_streak`; and
`longest_streak` is the maximum of all their `to_value`s, never below `current_streak`. -/
theorem ledger_chain (D : Deployment) (timezone : String) {calls : List Call} {rows : UserRows}
    (h : Run D (fun _ _ => True) (.created timezone) calls rows) :
    rows.events.Pairwise (·.id < ·.id) ∧
    (∀ e, rows.events.head? = some e → e.fromValue = 0) ∧
    rows.events.IsChain (fun prev next => next.fromValue = prev.toValue) ∧
    (rows.events.getLast?.map (·.toValue)).getD 0 = currentStreak rows.stats ∧
    (∀ e ∈ rows.events, e.toValue ≤ longestStreak rows.stats) ∧
    (rows.events = [] ∧ longestStreak rows.stats = 0 ∨
      ∃ e ∈ rows.events, e.toValue = longestStreak rows.stats) ∧
    currentStreak rows.stats ≤ longestStreak rows.stats := by
  have hi := h.ledgerInv (.created timezone)
  obtain ⟨hhead, hchain, hlast⟩ := links_iff.mp hi.links
  obtain ⟨hl₀, hl⟩ := (hi.longest _).mp (Int.le_refl _)
  refine ⟨hi.ids, fun e he => ?_, ?_, ?_, hl, ?_, hi.current_le_longest⟩
  · exact hhead e.change (by simp [List.head?_map, he])
  · rw [List.isChain_map] at hchain
    exact hchain
  · rw [← hlast, List.getLast?_map, Option.map_map]
    rfl
  · by_cases hne : ∃ e ∈ rows.events, e.toValue = longestStreak rows.stats
    · exact .inr hne
    · -- no row attains the maximum, so it is 0 and there is none
      refine .inl ?_
      have hlt : ∀ e ∈ rows.events, e.toValue < longestStreak rows.stats := by
        intro e he
        have hle := hl e he
        have hne' : e.toValue ≠ longestStreak rows.stats := fun h => hne ⟨e, he, h⟩
        omega
      have hz : longestStreak rows.stats = 0 := by
        by_contra hz
        have := (hi.longest (longestStreak rows.stats - 1)).mpr
          ⟨by omega, fun e he => by have := hlt e he; omega⟩
        omega
      refine ⟨List.eq_nil_iff_forall_not_mem.mpr fun e he => ?_, hz⟩
      have h₁ := hlt e he
      have h₂ := hi.nonneg e he
      omega

/-- Two submissions on two days. -/
theorem ledger_chain_two_days :
    let D := Deployment.small fun _ => 0
    let rows := (Call.smallSubmit 2 microsPerDay).after D ((Call.smallSubmit 1 0).after D (.created "UTC"))
    currentStreak rows.stats = 2 ∧ (rows.events.getLast?.map (·.toValue)).getD 0 = currentStreak rows.stats := by
  intro D rows
  have h₁ : Run D (fun _ _ => True) (.created "UTC") [Call.smallSubmit 1 0] _ :=
    .call .nil (by simp) ⟨Call.small_increasing _ _ _, by decide +kernel, by decide +kernel⟩ trivial
  have h₂ : Run D (fun _ _ => True) (.created "UTC") [Call.smallSubmit 1 0, Call.smallSubmit 2 microsPerDay] rows :=
    .call h₁ (by decide +kernel) ⟨Call.small_increasing _ _ _, by decide +kernel, by decide +kernel⟩ trivial
  exact ⟨by decide +kernel, (ledger_chain D "UTC" h₂).2.2.2.1⟩

end CodeReader
