import CodeReader.Streak.Spec
import CodeReader.Text.Integers

/-!
# The balances in the notes of the freezes

A row that spends a freeze says in its note what the balance was before and after.  The rows of a gap are written after
the balance was lowered for all of them.

* `spendNote`, `Replays` — what a note says, and the rows that tell a chain of balances;
* `replays_spent_iff` — the rows of a gap do so exactly when they are at most one;
* `tryCoverGap_replays_iff` — **the result** for `tryCoverGap`.
-/

namespace CodeReader

open Txn Prog Text

/-- The note of a freeze that was spent on `day`, with the balance before and after. -/
def spendNote (day before after : Int) : String :=
  s!"streak freeze spent to cover missed day {isoformat day}; " ++ s!"streak_freezes {before} -> {after}"

/-- The rows tell a chain of spends: the first from the balance `before`, each from the one that the last led to, and
the last to `after`. -/
inductive Replays : Int → List NewEvent → Int → Prop
  | nil (balance : Int) : Replays balance [] balance
  | cons {before between after : Int} {e : NewEvent} {evs : List NewEvent} (event : e.event = .freezeUsed)
      (note : e.note = some (spendNote e.localDate before between)) (rest : Replays between evs after) :
      Replays before (e :: evs) after

/-! ## Notes -/

/-- A word, a blank, and the rest. -/
theorem append_blank_inj {x y z w : List Char} (hx : ' ' ∉ x) (hy : ' ' ∉ y) (h : x ++ ' ' :: z = y ++ ' ' :: w) :
    x = y ∧ z = w := by
  have hsplit := congrArg (List.splitOn ' ') h
  rw [List.splitOn_append_cons_self_of_not_mem hx, List.splitOn_append_cons_self_of_not_mem hy] at hsplit
  have hword : x = y := (List.cons.inj hsplit).1
  rw [hword, List.append_cancel_left_eq] at h
  exact ⟨hword, (List.cons.inj h).2⟩

/-- A note says one balance before and one after. -/
theorem spendNote_injective {day before after before' after' : Int}
    (h : spendNote day before after = spendNote day before' after') : before = before' ∧ after = after' := by
  have hchars : ∀ a b : Int, (spendNote day a b).toList =
      (s!"streak freeze spent to cover missed day {isoformat day}; ").toList ++ "streak_freezes ".toList ++
        ((toString a).toList ++ ' ' :: ("-> ".toList ++ (toString b).toList)) := by
    intro a b
    have htext : spendNote day a b = s!"streak freeze spent to cover missed day {isoformat day}; " ++
        ("streak_freezes " ++ toString a ++ " -> " ++ toString b) := rfl
    have harrow : " -> ".toList = ' ' :: "-> ".toList := by decide
    rw [htext]
    simp only [String.toList_append, harrow, List.append_assoc, List.cons_append]
  have heq := congrArg String.toList h
  rw [hchars, hchars, List.append_cancel_left_eq] at heq
  obtain ⟨hbefore, hafter⟩ := append_blank_inj (blank_notMem_toString _) (blank_notMem_toString _) heq
  rw [List.append_cancel_left_eq] at hafter
  exact ⟨toString_int_injective (String.toList_inj.mp hbefore), toString_int_injective (String.toList_inj.mp hafter)⟩

theorem freezeSpentRow_note_eq (stats : UserStats) (day : Int) :
    (freezeSpentRow stats day).note = some (spendNote day (stats.streakFreezes + 1) stats.streakFreezes) := rfl

/-- Every row of a gap has the balance behind the whole gap, so two of them do not follow each other. -/
theorem replays_spent_iff (stats : UserStats) (days : List Int) :
    Replays (stats.streakFreezes + days.length) (days.map (freezeSpentRow stats)) stats.streakFreezes ↔
      days.length ≤ 1 := by
  constructor
  · intro h
    cases days with
    | nil => exact Nat.zero_le 1
    | cons day days =>
      -- the first note says the balance before the last spend
      cases h with
      | cons _ hnote _ =>
        rw [freezeSpentRow_note_eq, Option.some.injEq] at hnote
        obtain ⟨hbefore, -⟩ := spendNote_injective hnote
        rw [List.length_cons] at hbefore ⊢
        omega
  · intro h
    match days, h with
    | [], _ =>
      rw [List.length_nil, Int.natCast_zero, Int.add_zero]
      exact .nil _
    | [day], _ => exact .cons rfl (freezeSpentRow_note_eq stats day) (.nil _)

/-! ## Gaps -/

theorem pairwise_missedDates (lastActive today : Int) : (missedDates lastActive today).Pairwise (· < ·) := by
  rw [missedDates, List.pairwise_map]
  refine List.pairwise_lt_range.imp ?_
  intro a b hab
  omega

/-- A flush leaves the ledger as it is. -/
theorem flushUserStats_events (o : StatsObject) (cur : UserRows) (s : Store App) :
    ∃ cur', (flushUserStats o).exec cur s = ⟨.ok (.loaded o.current), cur', s⟩ ∧ cur'.events = cur.events := by
  unfold flushUserStats
  split
  · rename_i he
    have ho : o = .loaded o.current := congrArg (StatsObject.mk · o.current) he.symm
    refine ⟨cur, ?_, rfl⟩
    rw [← ho]
    rfl
  · exact ⟨_, rfl, rfl⟩

/-- What a gap comes to depends on the ledger and the session's stats only. -/
theorem res_tryCoverGap (cfg : Settings) (o : StatsObject) (lastActive today : Int) (cur : UserRows) (s : Store App) :
    ∃ o' : StatsObject, ((tryCoverGap cfg o lastActive today).exec cur s).res =
        .ok (o', (coverGap cfg cur.events o.current lastActive today).map (·.2)) ∧
      o'.current = ((coverGap cfg cur.events o.current lastActive today).map (·.1)).getD o.current := by
  by_cases hm : missedDates lastActive today = []
  · exact ⟨o, by simp [tryCoverGap, coverGap, hm], by simp [coverGap, hm]⟩
  · obtain ⟨cur', hflush, hevents⟩ := flushUserStats_events o cur s
    have hcovered : (coveredDates o (missedDates lastActive today)).exec cur s =
        ⟨.ok (.loaded o.current, (missedDates lastActive today).filter (freezeUsedOn cur.events)), cur', s⟩ := by
      unfold coveredDates
      rw [if_neg hm, exec_bind, hflush, ← hevents]
      rfl
    simp only [tryCoverGap, hm, if_false]
    rw [exec_bind, hcovered]
    simp only [andThen, missedDates_filter_notMem, StatsObject.loaded]
    by_cases hp : min o.current.streakFreezes cfg.streakFreezeMax <
        (uncoveredDates cur.events lastActive today).length
    · refine ⟨.loaded o.current, ?_, ?_⟩
      · simp only [coverGap, hp, or_true, if_true]
        rfl
      · simp only [coverGap, hp, or_true, if_true]
        rfl
    · simp only [coverGap, hm, hp, or_self, if_false]
      exact ⟨_, rfl, rfl⟩

/-! ## The result -/

/-- The rows of a user with two freezes and a streak of five days up to day 0. -/
def fiveDays : UserRows :=
  { UserRows.created "UTC" with
    stats := some { newUserStats .default with currentStreak := 5, longestStreak := 5, lastActiveLocalDate := some 0 } }

/-- The stats as the session loads them. -/
def fiveDaysLoaded : StatsObject := .loaded (fiveDays.stats.getD (newUserStats .default))

/-- These rows, and nothing in Redis. -/
def noKeys : Store App := ⟨fiveDays, ⟨fun _ => none, fun _ => false⟩⟩

/-- **The notes of a covered gap** tell its spends in the order of their dates, from the balance before the gap to the
one stored, if and only if at most one missed date was uncovered. -/
theorem tryCoverGap_replays_iff (cfg : Settings) (o : StatsObject) (lastActive today : Int) (cur : UserRows)
    (s : Store App) {o' : StatsObject} {evs : List NewEvent}
    (hcovered : ((tryCoverGap cfg o lastActive today).exec cur s).res = .ok (o', some evs)) :
    (evs.Pairwise (fun e e' => e.localDate < e'.localDate) ∧
        Replays o.current.streakFreezes evs o'.current.streakFreezes) ↔
      (uncoveredDates cur.events lastActive today).length ≤ 1 := by
  obtain ⟨o₁, hres, hcurrent⟩ := res_tryCoverGap cfg o lastActive today cur s
  rw [hres, Except.ok.injEq, Prod.mk.injEq] at hcovered
  obtain ⟨rfl, hrows⟩ := hcovered
  obtain ⟨⟨stats, rows⟩, hgap, rfl⟩ := Option.map_eq_some_iff.mp hrows
  rw [hgap] at hcurrent
  rw [hcurrent]
  unfold coverGap at hgap
  simp only at hgap
  split at hgap
  · exact nomatch hgap
  cases hgap
  have hsorted : ((uncoveredDates cur.events lastActive today).map (freezeSpentRow
      { o.current with streakFreezes := o.current.streakFreezes - (uncoveredDates cur.events lastActive today).length }
      )).Pairwise (fun e e' => e.localDate < e'.localDate) :=
    List.pairwise_map.mpr ((pairwise_missedDates lastActive today).filter _)
  have hreplays := replays_spent_iff
    { o.current with streakFreezes := o.current.streakFreezes - (uncoveredDates cur.events lastActive today).length }
    (uncoveredDates cur.events lastActive today)
  simp only [Int.sub_add_cancel] at hreplays
  rw [and_iff_right hsorted]
  exact hreplays

/-- A gap of one day. -/
theorem tryCoverGap_replays_one :
    ((tryCoverGap .default fiveDaysLoaded 0 2).exec fiveDays noKeys).res =
        .ok (⟨fiveDaysLoaded.flushed, { fiveDaysLoaded.current with streakFreezes := 1 }⟩,
          some [freezeSpentRow { fiveDaysLoaded.current with streakFreezes := 1 } 1]) ∧
      Replays fiveDaysLoaded.current.streakFreezes
        [freezeSpentRow { fiveDaysLoaded.current with streakFreezes := 1 } 1] 1 := by
  have hrun : ((tryCoverGap .default fiveDaysLoaded 0 2).exec fiveDays noKeys).res =
      .ok (⟨fiveDaysLoaded.flushed, { fiveDaysLoaded.current with streakFreezes := 1 }⟩,
        some [freezeSpentRow { fiveDaysLoaded.current with streakFreezes := 1 } 1]) := rfl
  exact ⟨hrun, ((tryCoverGap_replays_iff .default fiveDaysLoaded 0 2 fiveDays noKeys hrun).mpr (by decide)).2⟩

/-- Of two missed days both notes say the last spend. -/
theorem gap_notes_repeat : ∃ o' evs,
    ((tryCoverGap .default fiveDaysLoaded 0 3).exec fiveDays noKeys).res = .ok (o', some evs) ∧
      evs.map (·.note) =
        [some "streak freeze spent to cover missed day 1970-01-02; streak_freezes 1 -> 0",
          some "streak freeze spent to cover missed day 1970-01-03; streak_freezes 1 -> 0"] ∧
      ¬ Replays fiveDaysLoaded.current.streakFreezes evs o'.current.streakFreezes := by
  refine ⟨_, _, rfl, by decide, fun h => ?_⟩
  have hfew := (replays_spent_iff { fiveDaysLoaded.current with streakFreezes := 0 } [1, 2]).mp h
  exact absurd hfew (by decide)

end CodeReader
