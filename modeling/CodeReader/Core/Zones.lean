import CodeReader.Core.Bisect
import CodeReader.Core.Calendar
import Mathlib.Data.Int.Order.Basic

/-!
# Time zones

A zone is a piecewise constant offset.  An instant has one local time in it; what instant a local time is, is looked up
in the list of the local times at which the offset changes, as `zoneinfo` does it.

* `Zone`, `Zone.changes` — a zone, and what changes at its transitions;
* `Zone.wallOffset` — the offset at a local time, with `fold = 0`;
* `localDayEndUtc` — the end of a day;
* `Change.Crosses` — the clock is set from one side of a local time to the other;
* `Zone.splits_iff` — the lookup splits the instants by their local times exactly if no change crosses the local time.
-/

namespace CodeReader

/-! ## Zones -/

/-- From `instant` on the offset is `offset`. -/
structure Transition where
  instant : Int
  offset : Int
  deriving DecidableEq

/-- The offset before all transitions, and the transitions in their order. -/
structure Zone where
  before : Int
  transitions : List Transition
  ordered : transitions.Pairwise fun a b => a.instant < b.instant

/-- The offset at an instant. -/
def offsetAt (before : Int) : List Transition → Int → Int
  | [], _ => before
  | c :: cs, t => if t < c.instant then before else offsetAt c.offset cs t

def Zone.utcoffset (z : Zone) (t : Int) : Int := offsetAt z.before z.transitions t

/-- A transition, with the offsets before and after it. -/
structure Change where
  instant : Int
  before : Int
  after : Int
  deriving DecidableEq

def changesFrom (before : Int) : List Transition → List Change
  | [] => []
  | c :: cs => ⟨c.instant, before, c.offset⟩ :: changesFrom c.offset cs

def Zone.changes (z : Zone) : List Change := changesFrom z.before z.transitions

/-! ## Local times -/

/-- The local time from which on the offset after the change counts, with `fold = 0`. -/
def Change.wall (c : Change) : Int := c.instant + max c.before c.after

/-- `_trans_local[0]`. -/
def Zone.transLocal (z : Zone) : List Int := z.changes.map Change.wall

/-- The offset after so many changes: `_ttinfo_before`, or `_ttinfos[n - 1]`. -/
def offsetAfter (before : Int) : List Change → Nat → Int
  | c :: cs, n + 1 => offsetAfter c.after cs n
  | _, _ => before

/-- `utcoffset` of a local time, with `fold = 0`. -/
def Zone.wallOffset (z : Zone) (w : Int) : Int :=
  match z.transLocal.head?, z.transLocal.getLast? with
  | some first, some last =>
    if w < first then offsetAfter z.before z.changes 0
    else if last < w then offsetAfter z.before z.changes z.changes.length
    else offsetAfter z.before z.changes (bisectRight z.transLocal w)
  | _, _ => z.before

/-- UTC instant of the start of the day after `localDate`. -/
def localDayEndUtc (zones : String → Zone) (tzName : String) (localDate : Int) : Int :=
  let nextLocalMidnight := (localDate + 1) * microsPerDay
  nextLocalMidnight - (zones tzName).wallOffset nextLocalMidnight

/-- The zone database of these zones. -/
def tzDb (zones : String → Zone) : TzDb := ⟨fun tzName => (zones tzName).utcoffset⟩

/-- The clock is set from one side of the local time to the other. -/
def Change.Crosses (c : Change) (w : Int) : Prop :=
  min (c.instant + c.before) (c.instant + c.after) < w ∧ w < max (c.instant + c.before) (c.instant + c.after)

instance (c : Change) (w : Int) : Decidable (c.Crosses w) :=
  inferInstanceAs (Decidable (min (c.instant + c.before) (c.instant + c.after) < w ∧
    w < max (c.instant + c.before) (c.instant + c.after)))

/-! ## The changes of a zone -/

section Changes

variable {before : Int} {cs : List Transition}

theorem offsetAt_of_lt {t : Int} (h : ∀ c ∈ cs, t < c.instant) : offsetAt before cs t = before := by
  cases cs with
  | nil => rfl
  | cons c cs => exact if_pos (h c List.mem_cons_self)

theorem mem_changesFrom_instant {c : Change} (h : c ∈ changesFrom before cs) : ∃ d ∈ cs, d.instant = c.instant := by
  induction cs generalizing before with
  | nil => exact absurd h List.not_mem_nil
  | cons d cs ih =>
    obtain rfl | h := List.mem_cons.mp h
    · exact ⟨d, List.mem_cons_self, rfl⟩
    · obtain ⟨d', hd', he⟩ := ih h
      exact ⟨d', List.mem_cons_of_mem _ hd', he⟩

/-- The offsets right before and at a change. -/
theorem offsetAt_change (hcs : cs.Pairwise fun a b => a.instant < b.instant) {c : Change}
    (h : c ∈ changesFrom before cs) :
    offsetAt before cs (c.instant - 1) = c.before ∧ offsetAt before cs c.instant = c.after := by
  induction cs generalizing before with
  | nil => exact absurd h List.not_mem_nil
  | cons d cs ih =>
    obtain ⟨hd, hcs⟩ := List.pairwise_cons.mp hcs
    obtain rfl | h := List.mem_cons.mp h
    · refine ⟨if_pos (Int.sub_one_lt_of_le (Int.le_refl _)), ?_⟩
      rw [offsetAt, if_neg (lt_irrefl _)]
      exact offsetAt_of_lt hd
    · obtain ⟨d', hd', he⟩ := mem_changesFrom_instant h
      have hlt := hd d' hd'
      have hih := ih hcs h
      rw [offsetAt, offsetAt, if_neg (by omega), if_neg (by omega)]
      exact hih

/-- The offset at an instant is the one after the changes up to it. -/
theorem offsetAt_eq (s : Int) : offsetAt before cs s = offsetAfter before (changesFrom before cs)
    ((changesFrom before cs).takeWhile fun c => c.instant ≤ s).length := by
  induction cs generalizing before with
  | nil => rfl
  | cons d cs ih =>
    by_cases hs : s < d.instant
    · have hnot : ¬ d.instant ≤ s := not_le.mpr hs
      simp [offsetAt, hs, changesFrom, hnot, offsetAfter]
    · have hle : d.instant ≤ s := not_lt.mp hs
      simp only [offsetAt, hs, if_false, changesFrom, List.takeWhile_cons, hle, decide_true, if_true, List.length_cons, ih,
        offsetAfter]

/-- The first changes are those up to an instant. -/
theorem lt_takeWhile_iff (hcs : cs.Pairwise fun a b => a.instant < b.instant) (s : Int) {k : Nat}
    (hk : k < (changesFrom before cs).length) : (changesFrom before cs)[k].instant ≤ s ↔
      k < ((changesFrom before cs).takeWhile fun c => c.instant ≤ s).length := by
  induction cs generalizing before k with
  | nil => exact absurd hk (Nat.not_lt_zero k)
  | cons d cs ih =>
    obtain ⟨hd, hcs⟩ := List.pairwise_cons.mp hcs
    by_cases hs : d.instant ≤ s
    · cases k with
      | zero => simp [changesFrom, hs]
      | succ k => simpa [changesFrom, hs] using ih hcs (Nat.lt_of_succ_lt_succ hk)
    · -- the others come later still
      have hlater : d.instant ≤ (changesFrom before (d :: cs))[k].instant := by
        obtain he | hmem := List.mem_cons.mp (List.getElem_mem hk)
        · rw [he]
        · obtain ⟨d', hd', he⟩ := mem_changesFrom_instant hmem
          exact he ▸ (hd d' hd').le
      have hnone : ((changesFrom before (d :: cs)).takeWhile fun c => decide (c.instant ≤ s)) = [] := by
        simp [changesFrom, hs]
      rw [hnone]
      exact iff_of_false (fun hle => hs (hlater.trans hle)) (Nat.not_lt_zero k)

end Changes

/-- The offset at a local time is the one at an instant, if both come after the same changes. -/
theorem Zone.wallOffset_eq (z : Zone) {w s : Int} (h : ∀ c ∈ z.changes, c.wall ≤ w ↔ c.instant ≤ s) :
    z.wallOffset w = z.utcoffset s := by
  have hcount : z.utcoffset s = offsetAfter z.before z.changes (z.changes.takeWhile fun c => c.instant ≤ s).length :=
    offsetAt_eq s
  have hle : (z.changes.takeWhile fun c => decide (c.instant ≤ s)).length ≤ z.changes.length :=
    (List.takeWhile_prefix _).length_le
  have hfirst : ∀ k (hk : k < z.transLocal.length), z.transLocal[k] ≤ w ↔
      k < (z.changes.takeWhile fun c => decide (c.instant ≤ s)).length := by
    intro k hk
    have hk' : k < z.changes.length := by simpa [Zone.transLocal] using hk
    have hwall : z.transLocal[k] = z.changes[k].wall := by simp [Zone.transLocal]
    rw [hwall, h _ (List.getElem_mem hk')]
    exact lt_takeWhile_iff z.ordered s hk'
  have hlength : z.transLocal.length = z.changes.length := List.length_map _
  rw [hcount, Zone.wallOffset]
  generalize (z.changes.takeWhile fun c => decide (c.instant ≤ s)).length = n at hle hfirst
  split
  · rename_i first last hhead hlast
    have hpos : 0 < z.transLocal.length := List.length_pos_of_mem (List.mem_of_mem_head? hhead)
    have hhead' : z.transLocal[0] = first := by
      rw [List.head?_eq_getElem?, List.getElem?_eq_getElem hpos] at hhead
      exact Option.some.inj hhead
    have hlast' : z.transLocal[z.transLocal.length - 1] = last := by
      rw [List.getLast?_eq_getElem?, List.getElem?_eq_getElem (by omega)] at hlast
      exact Option.some.inj hlast
    split
    · rename_i hbefore
      have hn : ¬ 0 < n := fun hn => not_le.mpr hbefore (hhead' ▸ (hfirst 0 hpos).mpr hn)
      rw [Nat.eq_zero_of_not_pos hn]
    · split
      · rename_i hafter
        have hn := (hfirst _ (by omega)).mp (hlast' ▸ hafter.le)
        rw [show n = z.changes.length by omega]
      · rw [bisectRight_eq (hlength ▸ hle) hfirst]
  · rename_i hnone
    have hnil : z.transLocal = [] := by
      cases hl : z.transLocal with
      | nil => rfl
      | cons first rest =>
        obtain ⟨last, hlast⟩ : ∃ last, (first :: rest).getLast? = some last := ⟨_, List.getLast?_cons⟩
        exact absurd hlast (hl ▸ hnone first last (hl ▸ rfl))
    have hchanges : z.changes = [] := List.map_eq_nil_iff.mp hnil
    rw [hchanges]
    rfl

/-! ## Midnight -/

section Midnight

variable {before w : Int} {cs : List Transition}

/-- Past a local time the clock stays past it, if it is not set over it. -/
theorem past_of_not_crosses {u : Int} (hu : ∀ d ∈ cs, u < d.instant) (hcs : cs.Pairwise fun a b => a.instant < b.instant)
    (hw : w ≤ u + before) (h : ∀ c ∈ changesFrom before cs, ¬ c.Crosses w) :
    (∀ c ∈ changesFrom before cs, w < c.wall) ∧ ∀ t, u ≤ t → w ≤ t + offsetAt before cs t := by
  induction cs generalizing before u with
  | nil =>
    refine ⟨fun c hc => absurd hc List.not_mem_nil, fun t ht => ?_⟩
    rw [offsetAt]
    omega
  | cons d cs ih =>
    obtain ⟨hd, hcs⟩ := List.pairwise_cons.mp hcs
    have hud := hu d List.mem_cons_self
    have hnot := h _ List.mem_cons_self
    simp only [Change.Crosses] at hnot
    obtain ⟨hwalls, htimes⟩ := ih (u := d.instant) hd hcs (by omega) fun c hc => h c (List.mem_cons_of_mem _ hc)
    refine ⟨fun c hc => ?_, fun t ht => ?_⟩
    · obtain rfl | hc := List.mem_cons.mp hc
      · simp only [Change.wall]
        omega
      · exact hwalls c hc
    · rw [offsetAt]
      split
      · omega
      · exact htimes t (by omega)

/-- **No change over a local time**: the clock passes it once, and the lookup finds the offset there. -/
theorem exists_pass (hcs : cs.Pairwise fun a b => a.instant < b.instant)
    (h : ∀ c ∈ changesFrom before cs, ¬ c.Crosses w) :
    ∃ s, (∀ c ∈ changesFrom before cs, c.wall ≤ w ↔ c.instant ≤ s) ∧
      ∀ t, t < w - offsetAt before cs s ↔ t + offsetAt before cs t < w := by
  induction cs generalizing before with
  | nil =>
    refine ⟨0, fun c hc => absurd hc List.not_mem_nil, fun t => ?_⟩
    simp only [offsetAt]
    omega
  | cons d cs ih =>
    obtain ⟨hd, hcs⟩ := List.pairwise_cons.mp hcs
    have hnot := h _ List.mem_cons_self
    have htail : ∀ c ∈ changesFrom d.offset cs, ¬ c.Crosses w := fun c hc => h c (List.mem_cons_of_mem _ hc)
    have hlater : ∀ c ∈ changesFrom d.offset cs, d.instant < c.instant := by
      intro c hc
      obtain ⟨d', hd', he⟩ := mem_changesFrom_instant hc
      exact he ▸ hd d' hd'
    simp only [Change.Crosses] at hnot
    by_cases hle : d.instant + max before d.offset ≤ w
    · -- the clock passes it after this change
      obtain ⟨s, hwalls, htimes⟩ := ih hcs htail
      have hoffset : offsetAt before (d :: cs) (max d.instant s) = offsetAt d.offset cs s := by
        rw [offsetAt, if_neg (by omega)]
        by_cases hs : d.instant ≤ s
        · rw [max_eq_right hs]
        · rw [max_eq_left (by omega), offsetAt_of_lt hd, offsetAt_of_lt fun c hc => (not_le.mp hs).trans (hd c hc)]
      refine ⟨max d.instant s, fun c hc => ?_, fun t => ?_⟩
      · obtain rfl | hc := List.mem_cons.mp hc
        · exact iff_of_true hle (le_max_left _ _)
        · have hi := hlater c hc
          rw [hwalls c hc]
          omega
      · rw [hoffset, offsetAt]
        split
        · have hlast := htimes (d.instant - 1)
          rw [offsetAt_of_lt fun c hc => (Int.sub_one_lt_of_le (Int.le_refl _)).trans (hd c hc)] at hlast
          omega
        · exact htimes t
    · -- the clock passes it before this change, or with it
      obtain ⟨hwalls, htimes⟩ := past_of_not_crosses hd hcs (by omega) htail
      refine ⟨d.instant - 1, fun c hc => ?_, fun t => ?_⟩
      · obtain rfl | hc := List.mem_cons.mp hc
        · simp only [Change.wall]
          omega
        · have hw := hwalls c hc
          have hi := hlater c hc
          omega
      · have hbefore : offsetAt before (d :: cs) (d.instant - 1) = before := if_pos (by omega)
        rw [hbefore, offsetAt]
        split
        · omega
        · have ht := htimes t (by omega)
          omega

end Midnight

/-- The lookup of a local time splits the instants by their local times exactly if no change crosses it. -/
theorem Zone.splits_iff (z : Zone) (w : Int) :
    (∀ t, t < w - z.wallOffset w ↔ t + z.utcoffset t < w) ↔ ∀ c ∈ z.changes, ¬ c.Crosses w := by
  constructor
  · intro h c hc hcross
    have hchange : ∀ c ∈ z.changes, (c.instant - 1 < w - z.wallOffset w ↔ c.instant - 1 + c.before < w) ∧
        (c.instant < w - z.wallOffset w ↔ c.instant + c.after < w) := by
      intro c hc
      obtain ⟨hb, ha⟩ := offsetAt_change z.ordered hc
      exact ⟨hb ▸ h (c.instant - 1), ha ▸ h c.instant⟩
    obtain ⟨hlo, hhi⟩ := hcross
    obtain ⟨hb, ha⟩ := hchange c hc
    by_cases hback : c.after < c.before
    · -- the clock goes back over it: it is passed twice
      omega
    · -- the clock skips it: the day ends at the change, but the lookup takes the offset before
      have hend : w - z.wallOffset w = c.instant := by omega
      have hbefore : z.wallOffset w = c.before := by
        refine (z.wallOffset_eq fun c' hc' => ?_).trans (offsetAt_change z.ordered hc).1
        obtain ⟨hb', ha'⟩ := hchange c' hc'
        have hsame : c'.instant = c.instant → c'.after = c.after := fun he =>
          (offsetAt_change z.ordered hc').2.symm.trans (he ▸ (offsetAt_change z.ordered hc).2)
        rw [hend] at hb' ha'
        simp only [Change.wall]
        omega
      omega
  · intro h t
    obtain ⟨s, hwalls, htimes⟩ := exists_pass z.ordered h
    rw [z.wallOffset_eq hwalls]
    exact htimes t

theorem localDateFor_le_iff (tz : TzDb) (tzName : String) (t d : Int) :
    localDateFor tz tzName t ≤ d ↔ t + tz.utcoffset tzName t < (d + 1) * microsPerDay := by
  unfold localDateFor microsPerDay
  omega

end CodeReader
