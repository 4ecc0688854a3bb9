import CodeReader.Runs.SingleZone
import Mathlib.Data.List.Dedup

/-!
# Repair restores the unbroken streak

In a run in one time zone, the reset that `_load_restorable` returns is the latest one, nothing after it is a repair,
and so the value of the latest transition row is the run built since.

* `firstDesc_eq_getLast?` — the first row of a descending order, over rows in ascending order;
* `latestReset`, `Anchored` — every repair has the anchor of the latest reset before it;
* `run_since` — what the rows after an unrepaired reset come to;
* `repair_restores` — **the result**: the offer, its execution, and that no reset is repaired twice.
-/

namespace CodeReader

open Txn Prog Ledger

/-! ## The latest row -/

section Latest

variable {α : Type}

/-- Over rows in ascending order, the first one in descending order is the last. -/
theorem firstDesc_eq_getLast? {k₁ : α → Int} {k₂ : α → Nat} {l : List α}
    (h : l.Pairwise fun x y => k₁ x < k₁ y ∨ k₁ x = k₁ y ∧ k₂ x < k₂ y) : firstDesc k₁ k₂ l = l.getLast? := by
  induction l with
  | nil => rfl
  | cons x xs ih =>
    obtain ⟨hx, hxs⟩ := List.pairwise_cons.mp h
    rw [firstDesc, ih hxs, List.getLast?_cons]
    cases hl : xs.getLast? with
    | none => rfl
    | some y =>
      have hxy := hx y (List.mem_of_getLast? hl)
      have hno : ¬ (k₁ y < k₁ x ∨ k₁ y = k₁ x ∧ k₂ y < k₂ x) := by omega
      simp only [hno, if_false, Option.getD_some]

/-- Dropping the first rows that a condition refuses does not change the last one. -/
theorem getLast?_of_filter {q : α → Bool} {l : List α} (h : l.Pairwise fun x y => q x = true → q y = true) {a : α}
    (ha : (l.filter q).getLast? = some a) : l.getLast? = some a := by
  induction l with
  | nil => exact ha
  | cons x xs ih =>
    obtain ⟨hx, hxs⟩ := List.pairwise_cons.mp h
    rw [List.getLast?_cons]
    cases hl : (xs.filter q).getLast? with
    | some b =>
      have hb : some b = some a := by
        rw [← ha, List.filter_cons]
        split
        · rw [List.getLast?_cons, hl]
          rfl
        · exact hl.symm
      rw [ih hxs (hl.trans hb)]
      rfl
    | none =>
      have hnil : xs.filter q = [] := List.getLast?_eq_none_iff.mp hl
      rw [List.filter_cons, hnil] at ha
      split at ha
      · rename_i hq
        -- every later row is kept too, so there is none
        have hxs' : xs = [] := by
          refine List.eq_nil_iff_forall_not_mem.mpr fun y hy => ?_
          exact absurd (hx y hy hq) (List.filter_eq_nil_iff.mp hnil y hy)
        rw [hxs']
        exact ha
      · cases ha

end Latest

/-- The latest reset row. -/
def latestReset (events : List StreakEvent) : Option StreakEvent := (events.filter (·.event == .reset)).getLast?

theorem latestReset_eq_some {events : List StreakEvent} {R : StreakEvent} (h : latestReset events = some R) :
    ∃ pre post, events = pre ++ R :: post ∧ R.event = .reset ∧ ∀ e ∈ post, e.event ≠ .reset := by
  obtain ⟨ys, hys⟩ := List.getLast?_eq_some_iff.mp h
  obtain ⟨l₁, l₂, rfl, -, h₂⟩ := List.filter_eq_append_iff.mp hys
  obtain ⟨m₁, m₂, rfl, -, hR, h₃⟩ := List.filter_eq_cons_iff.mp h₂
  refine ⟨l₁ ++ m₁, m₂, by simp, by simpa using hR, fun e he => ?_⟩
  simpa using List.filter_eq_nil_iff.mp h₃ e he

theorem latestReset_append {pre post : List StreakEvent} {R : StreakEvent} (hR : R.event = .reset)
    (hpost : ∀ e ∈ post, e.event ≠ .reset) : latestReset (pre ++ R :: post) = some R := by
  have hnil : post.filter (·.event == .reset) = [] := by
    rw [List.filter_eq_nil_iff]
    intro e he
    simpa using hpost e he
  simp [latestReset, List.filter_append, hR, hnil]

/-- The reset that the query finds is the latest one. -/
theorem latestReset_of_lastReset {cutoff : Int} {events : List StreakEvent} {R : StreakEvent}
    (hc : events.Pairwise (·.createdAt ≤ ·.createdAt)) (hid : events.Pairwise (·.id < ·.id))
    (h : lastReset cutoff events = some R) : latestReset events = some R := by
  have hord : events.Pairwise fun x y => x.createdAt < y.createdAt ∨ x.createdAt = y.createdAt ∧ x.id < y.id := by
    refine (hc.and hid).imp ?_
    rintro x y ⟨hxy, hlt⟩
    omega
  rw [lastReset, firstDesc_eq_getLast? (hord.filter _), ← List.filter_filter] at h
  have hmono : (events.filter (·.event == .reset)).Pairwise fun x y =>
      decide (cutoff ≤ x.createdAt) = true → decide (cutoff ≤ y.createdAt) = true := by
    refine (hc.filter _).imp ?_
    intro x y hxy hx
    rw [decide_eq_true_eq] at hx ⊢
    omega
  exact getLast?_of_filter hmono (by rw [← h, List.filter_comm])

/-! ## Anchors -/

/-- Every repair has the anchor of the latest reset before it. -/
def Anchored (events : List StreakEvent) : Prop :=
  ∀ pre p post, events = pre ++ p :: post → p.event = .repaired → ∀ R, latestReset pre = some R →
    noteContains p.note (anchorMarker R.id) = true

theorem Anchored.append {events new : List StreakEvent} (h : Anchored events)
    (hnew : ∀ p ∈ new, p.event = .repaired → new = [p] ∧
      ∀ R, latestReset events = some R → noteContains p.note (anchorMarker R.id) = true) :
    Anchored (events ++ new) := by
  intro pre p post he hp R hR
  rcases List.append_eq_append_iff.mp he with ⟨l, rfl, hn⟩ | ⟨l, hev, hn⟩
  · obtain ⟨hone, hanch⟩ := hnew p (by simp [hn]) hp
    -- the repair is the only new row, so all the old ones stand before it
    have hl : l = [] := by
      rw [hone] at hn
      cases l with
      | nil => rfl
      | cons x l => simp at hn
    exact hanch R (by simpa [hl] using hR)
  · cases l with
    | nil =>
      rw [List.append_nil] at hev
      rw [← hev] at hR
      exact (hnew p (by rw [← List.nil_append new, ← hn]; simp) hp).2 R hR
    | cons x l =>
      rw [List.cons_append, List.cons.injEq] at hn
      exact h pre p l (by rw [hev, hn.1]) hp R hR

/-- The note of a repair has the anchor of its reset. -/
theorem noteContains_repairRow (cfg : Settings) (r : RestorableReset) (before today : Int) :
    noteContains (repairRow cfg r before today).note (anchorMarker r.resetId) = true := by
  simp only [repairRow, noteContains, decide_eq_true_eq, String.toList_append]
  exact (List.suffix_append _ _).isInfix

theorem restorable_eq_some {cutoff : Int} {events : List StreakEvent} {r : RestorableReset} :
    restorable cutoff events = some r ↔ ∃ R, lastReset cutoff events = some R ∧
      alreadyRepaired R.id events = false ∧
      r = ⟨R.id, R.fromValue, R.localDate, (runSince R.localDate events).getD 0⟩ := by
  unfold restorable
  cases lastReset cutoff events with
  | none => simp
  | some R =>
    dsimp only
    split
    · rename_i hrep
      constructor
      · intro h
        cases h
      · rintro ⟨R', hR, hno, -⟩
        cases hR
        rw [hrep] at hno
        cases hno
    · rename_i hrep
      constructor
      · intro h
        cases h
        exact ⟨R, rfl, by simpa using hrep, rfl⟩
      · rintro ⟨R', hR, -, rfl⟩
        cases hR
        rfl

theorem Anchored.step {D : Deployment} {c : Call} {rows : UserRows} (h : Anchored rows.events) (hstay : Stays c)
    (hc : rows.events.Pairwise (·.createdAt ≤ ·.createdAt)) (hid : rows.events.Pairwise (·.id < ·.id)) :
    Anchored (c.after D rows).events := by
  obtain ⟨evs, hev, hstep⟩ := c.ledgerStep D rows
  rw [hev]
  refine h.append fun p hp hk => ?_
  obtain ⟨k, hlt, rfl⟩ := mem_toRows.mp hp
  obtain ⟨r, st, hr, he, hone⟩ := hstep.repairRow_of hstay (List.getElem_mem hlt) hk
  constructor
  · have hk₀ : k = 0 := by
      have hlen := congrArg List.length hone
      simp only [List.length_singleton] at hlen
      omega
    subst hk₀
    exact congrArg (NewEvent.toRows c.tx) hone
  · intro R hR
    obtain ⟨hres, -, -⟩ := repairable_eq_some.mp hr
    obtain ⟨R', hR', -, rfl⟩ := restorable_eq_some.mp hres
    have hsame := latestReset_of_lastReset hc hid hR'
    rw [hR, Option.some.injEq] at hsame
    subst hsame
    change noteContains evs[k].note _ = true
    rw [he]
    exact noteContains_repairRow ..

/-- A reset whose anchor no repair has is followed by no repair. -/
theorem Anchored.no_repair {pre post : List StreakEvent} {R : StreakEvent} (h : Anchored (pre ++ R :: post))
    (hR : R.event = .reset) (hpost : ∀ e ∈ post, e.event ≠ .reset)
    (hno : alreadyRepaired R.id (pre ++ R :: post) = false) : ∀ e ∈ post, e.event ≠ .repaired := by
  intro p hp hk
  obtain ⟨post₁, post₂, rfl⟩ := List.append_of_mem hp
  have hlatest : latestReset (pre ++ R :: post₁) = some R :=
    latestReset_append hR fun e he => hpost e (by simp [he])
  have hanch := h (pre ++ R :: post₁) p post₂ (by simp) hk R hlatest
  have hyes : alreadyRepaired R.id (pre ++ R :: (post₁ ++ p :: post₂)) = true := by
    rw [alreadyRepaired, List.any_eq_true]
    exact ⟨p, by simp, by simp [hk, hanch]⟩
  rw [hno] at hyes
  cases hyes

/-! ## The run since a reset -/

/-- What the rows after a reset make of a streak: an extension adds a day, a reset starts over. -/
def replayed (v : Int) : List StreakEvent → Int
  | [] => v
  | e :: l =>
    match e.event with
    | .extended => replayed (v + 1) l
    | .reset => replayed 1 l
    | .freezeUsed | .adjusted | .repaired => replayed v l

/-- The days with a transition row, from `d` on. -/
def daysSince (d : Int) (events : List StreakEvent) : List Int :=
  ((events.filter fun e => e.event.isTransition && decide (d ≤ e.localDate)).map (·.localDate)).dedup

/-- Rows without resets and repairs lead from a value to it and the number of their extensions, which the last one
of these shows; and a replay from another value adds the same number. -/
theorem run_since {a b : Int} {post : List StreakEvent} (hl : Links a (post.map StreakEvent.change) b)
    (hs : ∀ e ∈ post, Shaped e.event e.fromValue e.toValue) (hreset : ∀ e ∈ post, e.event ≠ .reset)
    (hrep : ∀ e ∈ post, e.event ≠ .repaired) :
    ((post.filter (·.event.isTransition)).getLast?.map (·.toValue)).getD a = b ∧
      b = a + (post.filter (·.event.isTransition)).length ∧
      ∀ v, replayed v post = v + (post.filter (·.event.isTransition)).length := by
  induction post generalizing a with
  | nil => exact ⟨hl, by simpa using hl.symm, fun v => by simp [replayed]⟩
  | cons e post ih =>
    obtain ⟨hfrom, hrest⟩ := hl
    change e.fromValue = a at hfrom
    change Links e.toValue _ _ at hrest
    obtain ⟨hlast, hcount, hreplay⟩ := ih hrest (fun x hx => hs x (by simp [hx])) (fun x hx => hreset x (by simp [hx]))
      fun x hx => hrep x (by simp [hx])
    have hshape := hs e (by simp)
    have hstill : ∀ (hk : e.event.isTransition = false) (ht : e.toValue = e.fromValue),
        (((e :: post).filter (·.event.isTransition)).getLast?.map (·.toValue)).getD a = b ∧
          b = a + ((e :: post).filter (·.event.isTransition)).length := by
      intro hk ht
      rw [List.filter_cons_of_neg (by simp [hk])]
      rw [ht, hfrom] at hlast hcount
      exact ⟨hlast, hcount⟩
    cases hk : e.event with
    | extended =>
      rw [hk] at hshape
      change e.toValue = e.fromValue + 1 at hshape
      rw [List.filter_cons_of_pos (by simp [hk, StreakEventKind.isTransition])]
      refine ⟨?_, ?_, fun v => ?_⟩
      · rw [List.getLast?_cons, Option.map_some, Option.getD_some, ← hlast]
        cases (post.filter (·.event.isTransition)).getLast? <;> rfl
      · rw [hcount, hshape, hfrom]
        simp
        omega
      · simp only [replayed, hk, hreplay, List.length_cons]
        omega
    | reset => exact absurd hk (hreset e (by simp))
    | repaired => exact absurd hk (hrep e (by simp))
    | freezeUsed =>
      rw [hk] at hshape
      obtain ⟨h₁, h₂⟩ := hstill (by rw [hk]; rfl) hshape
      refine ⟨h₁, h₂, fun v => ?_⟩
      rw [List.filter_cons_of_neg (by simp [hk, StreakEventKind.isTransition])]
      simp only [replayed, hk, hreplay]
    | adjusted =>
      rw [hk] at hshape
      obtain ⟨h₁, h₂⟩ := hstill (by rw [hk]; rfl) hshape
      refine ⟨h₁, h₂, fun v => ?_⟩
      rw [List.filter_cons_of_neg (by simp [hk, StreakEventKind.isTransition])]
      simp only [replayed, hk, hreplay]

/-- Over days counted in their order, the transition rows from a row's day on are that row and those after it. -/
theorem filter_since {pre post : List StreakEvent} {R : StreakEvent} (hR : R.event.isTransition = true)
    (hdays : (transitionDays (pre ++ R :: post)).Pairwise (· < ·)) :
    ((pre ++ R :: post).filter fun e => e.event.isTransition && decide (R.localDate ≤ e.localDate)) =
      R :: post.filter (·.event.isTransition) := by
  rw [transitionDays, List.filter_append,
    List.filter_cons_of_pos (p := fun e : StreakEvent => e.event.isTransition) hR, List.map_append, List.map_cons,
    List.pairwise_append, List.pairwise_cons] at hdays
  obtain ⟨-, ⟨hafter, -⟩, hbefore⟩ := hdays
  have hpre : pre.filter (fun e => e.event.isTransition && decide (R.localDate ≤ e.localDate)) = [] := by
    rw [List.filter_eq_nil_iff]
    intro e he hp
    rw [Bool.and_eq_true, decide_eq_true_eq] at hp
    have hlt := hbefore e.localDate (List.mem_map_of_mem (List.mem_filter.mpr ⟨he, hp.1⟩)) R.localDate (by simp)
    omega
  have hpost : post.filter (fun e => e.event.isTransition && decide (R.localDate ≤ e.localDate)) =
      post.filter (·.event.isTransition) := by
    refine List.filter_congr fun e he => ?_
    cases hk : e.event.isTransition with
    | false => rfl
    | true =>
      have hlt := hafter e.localDate (List.mem_map_of_mem (List.mem_filter.mpr ⟨he, hk⟩))
      simp
      omega
  rw [List.filter_append, hpre, List.filter_cons_of_pos (by simp [hR]), hpost]
  rfl

/-! ## Runs -/

section Runs

variable {D : Deployment} {timezone : String} {calls : List Call} {rows : UserRows}

theorem Run.anchored (h : Run D (fun _ c => Stays c) (.created timezone) calls rows)
    (hd : OnDates D timezone calls) : Anchored rows.events := by
  induction h with
  | nil =>
    intro pre p post he
    simp [UserRows.created] at he
  | call hrun _ _ hstay ih =>
    have hpre : OnDates D timezone _ := (List.pairwise_append.mp hd).1
    have hzone := hrun.zoneInv (fun _ _ hs => hs) hpre
    exact (ih hpre).step hstay hzone.created (hrun.ledgerInv (.created timezone)).ids

/-- What a restorable reset is, in a ledger of such a run. -/
theorem Run.restores (h : Run D (fun _ c => Stays c) (.created timezone) calls rows)
    (hd : OnDates D timezone calls) {cutoff : Int} {r : RestorableReset}
    (hr : restorable cutoff rows.events = some r) :
    ∃ pre R post, rows.events = pre ++ R :: post ∧ R.event = .reset ∧ R.id = r.resetId ∧
      r.restoresTo = R.fromValue + (daysSince R.localDate rows.events).length ∧
      r.restoresTo = replayed (R.fromValue + 1) post := by
  have hzone := h.zoneInv (fun _ _ hs => hs) hd
  have hledger := h.ledgerInv (.created timezone)
  obtain ⟨R, hlast, hno, rfl⟩ := restorable_eq_some.mp hr
  obtain ⟨pre, post, hev, hR, hreset⟩ :=
    latestReset_eq_some (latestReset_of_lastReset hzone.created hledger.ids hlast)
  have hanch := h.anchored hd
  have hdays := hzone.days
  have hlinks := hledger.links
  have hshaped := h.shaped
  rw [hev] at hno hanch hdays hlinks hshaped
  have hrep := hanch.no_repair hR hreset hno
  have htr : R.event.isTransition = true := by rw [hR]; rfl
  have hsince := filter_since htr hdays
  -- the reset leads to 1, and from there only extensions count
  rw [List.map_append, links_append] at hlinks
  obtain ⟨m, -, -, hpost⟩ := hlinks
  have hone : R.toValue = 1 := by
    have hs := hshaped R (by simp)
    rw [hR] at hs
    exact hs
  change Links R.toValue _ _ at hpost
  obtain ⟨hrun, hcount, hreplay⟩ := run_since hpost (fun e he => hshaped e (by simp [he])) hreset hrep
  have hordered : (R :: post.filter (·.event.isTransition)).Pairwise fun x y => x.localDate < y.localDate := by
    rw [transitionDays, List.pairwise_map, List.filter_append,
      List.filter_cons_of_pos (p := fun e : StreakEvent => e.event.isTransition) htr, List.pairwise_append] at hdays
    exact hdays.2.1
  have hvalue : runSince R.localDate rows.events = some (currentStreak rows.stats) := by
    rw [runSince, hev, hsince, firstDesc_eq_getLast? (hordered.imp fun hlt => .inl hlt), List.getLast?_cons,
      Option.map_some, Option.some.injEq, ← hrun]
    cases (post.filter (·.event.isTransition)).getLast? <;> rfl
  have hdistinct : (daysSince R.localDate rows.events).length = 1 + (post.filter (·.event.isTransition)).length := by
    have hnodup : ((R :: post.filter (·.event.isTransition)).map (·.localDate)).Nodup := by
      rw [List.nodup_iff_pairwise_ne, List.pairwise_map]
      exact hordered.imp fun hlt => Int.ne_of_lt hlt
    rw [daysSince, hev, hsince, hnodup.dedup]
    simp
    omega
  have hto : (⟨R.id, R.fromValue, R.localDate, (runSince R.localDate rows.events).getD 0⟩ :
      RestorableReset).restoresTo = R.fromValue + currentStreak rows.stats := by
    rw [RestorableReset.restoresTo, hvalue]
    rfl
  refine ⟨pre, R, post, hev, hR, rfl, ?_, ?_⟩
  · rw [hto, hcount, hdistinct, hone]
    omega
  · rw [hto, hcount, hreplay, hone]
    omega

/-- Calls only append to the ledger. -/
theorem Run.events_append {P : UserRows → Call → Prop} {start : UserRows} (h : Run D P start calls rows) :
    ∃ new, rows.events = start.events ++ new := by
  induction h with
  | nil => exact ⟨[], by simp⟩
  | @call calls rows c _ _ _ _ ih =>
    obtain ⟨new, hnew⟩ := ih
    obtain ⟨evs, hev, -⟩ := c.ledgerStep D rows
    exact ⟨new ++ NewEvent.toRows c.tx evs, by rw [hev, hnew, List.append_assoc]⟩

/-- After a repair its reset is repaired for good. -/
theorem Run.alreadyRepaired {P : UserRows → Call → Prop} {c : Call} {r : RestorableReset} {st : UserStats}
    {rows' : UserRows} (hop : c.op = .repair) (hr : repairable D.cfg c.time rows = some (r, st))
    (h : Run D P (c.after D rows) calls rows') : alreadyRepaired r.resetId rows'.events = true := by
  have hafter := after_repair (D := D) rows hop
  rw [hr] at hafter
  obtain ⟨new, hnew⟩ := h.events_append
  rw [hnew, hafter.1, CodeReader.alreadyRepaired, List.any_eq_true]
  refine ⟨(repairRow D.cfg r st.currentStreak (localDateFor D.tz rows.timezone c.time)).toRow c.tx 0, ?_, ?_⟩
  · simp [repairedRows, NewEvent.toRows]
  · rw [Bool.and_eq_true]
    exact ⟨rfl, noteContains_repairRow D.cfg r st.currentStreak (localDateFor D.tz rows.timezone c.time)⟩

end Runs

theorem exec_loadRestorable (cfg : Settings) (now : Int) (rows : UserRows) (kv : Redis) :
    (loadRestorable cfg now).exec rows ⟨rows, kv⟩ =
      ⟨.ok (restorable (now - hours cfg.streakRepairWindowH) rows.events), rows, ⟨rows, kv⟩⟩ := rfl

/-- **Repair restores the unbroken streak.**  In every run from the creation of a user who stays in one zone:
the reset that `_load_restorable` returns restores to what it lost plus the number of the days counted from its own
on, which is the streak had it been an extension; what `restorable_value` offers is what a repair writes, and when it
offers nothing a repair fails and changes nothing; a repair raises the streak and keeps `longest_streak` above it; and
after a successful repair no later one finds the same reset. -/
theorem repair_restores (D : Deployment) (timezone : String) {calls : List Call} {rows : UserRows}
    (h : Run D (fun _ c => Stays c) (.created timezone) calls rows) (hd : OnDates D timezone calls) :
    (∀ now kv r, ((loadRestorable D.cfg now).exec rows ⟨rows, kv⟩).res = .ok (some r) →
      ∃ pre R post, rows.events = pre ++ R :: post ∧ R.event = .reset ∧ R.id = r.resetId ∧
        r.restoresTo = R.fromValue + (daysSince R.localDate rows.events).length ∧
        r.restoresTo = replayed (R.fromValue + 1) post) ∧
    (∀ now kv v, ((restorableValue D.cfg now).exec rows ⟨rows, kv⟩).res = .ok (some v) → ∀ tx,
      let run := (repairStreak D.cfg D.tz tx rows.timezone now).exec rows ⟨rows, kv⟩
      run.res = .ok (.repair v) ∧ currentStreak run.cur.stats = v ∧
        ∃ row, run.cur.events = rows.events ++ [row] ∧ row.event = .repaired ∧
          row.fromValue = currentStreak rows.stats ∧ row.toValue = v) ∧
    (∀ now kv, ((restorableValue D.cfg now).exec rows ⟨rows, kv⟩).res = .ok none → ∀ tx,
      (repairStreak D.cfg D.tz tx rows.timezone now).exec rows ⟨rows, kv⟩ =
        ⟨.error notRepairable, rows, ⟨rows, kv⟩⟩) ∧
    (∀ now kv tx body, ((repairStreak D.cfg D.tz tx rows.timezone now).exec rows ⟨rows, kv⟩).res = .ok body →
      let cur := ((repairStreak D.cfg D.tz tx rows.timezone now).exec rows ⟨rows, kv⟩).cur
      currentStreak rows.stats < currentStreak cur.stats ∧ currentStreak cur.stats ≤ longestStreak cur.stats) ∧
    (∀ c : Call, c.op = .repair → c.result D rows = .ok none → ∀ r,
      ((loadRestorable D.cfg c.time).exec rows ⟨rows, c.redis⟩).res = .ok (some r) →
      ∀ calls' rows', Run D (fun _ _ => True) (c.after D rows) calls' rows' → ∀ now kv r',
        ((loadRestorable D.cfg now).exec rows' ⟨rows', kv⟩).res = .ok (some r') → r'.resetId ≠ r.resetId) := by
  have hoffer : ∀ now kv, ((restorableValue D.cfg now).exec rows ⟨rows, kv⟩).res =
      .ok ((repairable D.cfg now rows).map fun p => p.1.restoresTo) := by
    intro now kv
    cases hst : rows.stats with
    | some st => rw [exec_restorableValue now (by rw [hst]; rfl)]
    | none =>
      -- no stats, no ledger: nothing to restore
      have hev : rows.events = [] := (h.zoneInv (fun _ _ hs => hs) hd).stats hst
      simp [restorableValue, loadRestorable, repairable, restorable, lastReset, hev, hst, firstDesc]
  refine ⟨?_, ?_, ?_, ?_, ?_⟩
  · intro now kv r hr
    rw [exec_loadRestorable, Except.ok.injEq] at hr
    exact h.restores hd hr
  · intro now kv v hv tx run
    rw [hoffer, Except.ok.injEq, Option.map_eq_some_iff] at hv
    obtain ⟨p, hp, rfl⟩ := hv
    obtain ⟨-, hst, -⟩ := repairable_eq_some.mp hp
    have hrun : run = ⟨.ok (.repair p.1.restoresTo), repairedRows D.cfg D.tz tx now rows p.2 p.1, ⟨rows, kv⟩⟩ := by
      simp only [run]
      rw [exec_repairStreak, hp]
    rw [hrun]
    refine ⟨rfl, rfl, _, rfl, rfl, ?_, rfl⟩
    rw [hst]
    rfl
  · intro now kv hn tx
    rw [hoffer, Except.ok.injEq, Option.map_eq_none_iff] at hn
    rw [exec_repairStreak, hn]
  · intro now kv tx body
    rw [exec_repairStreak]
    cases hp : repairable D.cfg now rows with
    | none =>
      intro hb
      cases hb
    | some p =>
      intro _
      obtain ⟨-, hst, hlt⟩ := repairable_eq_some.mp hp
      rw [hst]
      exact ⟨hlt, Int.le_max_right _ _⟩
  · intro c hop hres r hr calls' rows' hrun now kv r' hr'
    have hafter := after_repair (D := D) rows hop
    cases hp : repairable D.cfg c.time rows with
    | none =>
      rw [hp] at hafter
      rw [hafter.2] at hres
      cases hres
    | some p =>
      obtain ⟨hres', -, -⟩ := repairable_eq_some.mp hp
      rw [exec_loadRestorable, Except.ok.injEq, hres', Option.some.injEq] at hr
      subst hr
      have hdone := hrun.alreadyRepaired hop hp
      rw [exec_loadRestorable, Except.ok.injEq] at hr'
      obtain ⟨R, -, hno, rfl⟩ := restorable_eq_some.mp hr'
      intro he
      change R.id = p.1.resetId at he
      rw [he, hdone] at hno
      cases hno

/-! ### A reset repaired -/

/-- A streak of one day, lost over a gap of four days that two freezes cannot cover. -/
def lostRun : List Call := [Call.smallSubmit 1 0, Call.smallSubmit 2 (5 * microsPerDay)]

def lostRows : UserRows := lostRun.foldl (fun rows c => c.after (.small fun _ => 0) rows) (.created "UTC")

/-- The day lost and the day of the return: a streak of two is offered and written. -/
theorem repair_restores_lost_day :
    let run := (repairStreak .default (.fixed fun _ => 0) ⟨6 * microsPerDay, fun k => 300 + k, 3⟩ "UTC"
      (6 * microsPerDay)).exec lostRows ⟨lostRows, (Call.smallSubmit 3 0).redis⟩
    run.res = .ok (.repair 2) ∧ currentStreak run.cur.stats = 2 := by
  have hstays : ∀ c ∈ lostRun, (∀ j k, j < k → c.eventId j < c.eventId k) ∧ ∀ _ : UserRows, Stays c := by
    simp only [lostRun, List.forall_mem_cons]
    exact ⟨⟨Call.small_increasing _ _ _, fun _ name hop => (by cases hop)⟩,
      ⟨Call.small_increasing _ _ _, fun _ name hop => (by cases hop)⟩, by simp⟩
  have hrun : Run (.small fun _ => 0) (fun _ c => Stays c) (.created "UTC") lostRun lostRows :=
    Run.of_runnable .nil hstays (by decide +kernel)
  obtain ⟨-, hwrites, -⟩ := repair_restores (.small fun _ => 0) "UTC" hrun
    (hrun.onDates (TzDb.forward_fixed _ _))
  obtain ⟨hres, hcur, -⟩ := hwrites (6 * microsPerDay) (Call.smallSubmit 3 0).redis 2 (by decide +kernel)
    ⟨6 * microsPerDay, fun k => 300 + k, 3⟩
  exact ⟨hres, hcur⟩

end CodeReader
