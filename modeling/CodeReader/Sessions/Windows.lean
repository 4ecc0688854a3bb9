import CodeReader.Core.Zones
import CodeReader.Sessions.Service
import Mathlib.Data.Set.Basic

/-!
# What is due today, and what is teased for tomorrow

* `dueWindow`, `teaserWindow` — the instants of a review that is due today, and of one that is teased;
* `mem_dueConcepts`, `teased_window` — the queries take the concepts of these windows;
* `local_day_end_exact_iff` — **the result**: the end of a day is exact in its zone exactly if the clock is not set over
  that midnight, and the windows that are computed from it are disjoint and adjacent;
* `midnight_crossed` — what happens otherwise.
-/

namespace CodeReader.Sessions

open Txn Prog Grading

/-! ## The windows -/

/-- The review times that are due on the date of the request. -/
def dueWindow (env : SessionEnv) : Set Int := {t | t < env.localDayEndUtc env.today}

/-- The review times that are teased for the day after. -/
def teaserWindow (env : SessionEnv) : Set Int :=
  {t | env.localDayEndUtc env.today ≤ t ∧ t < env.localDayEndUtc (env.today + 1)}

/-- The request of a user in a zone, on a date. -/
def SessionEnv.inZone (env : SessionEnv) (zones : String → Zone) (tzName : String) (today : Int) : SessionEnv :=
  { env with today := today, localDayEndUtc := CodeReader.localDayEndUtc zones tzName }

theorem mem_dueWindow {env : SessionEnv} {t : Int} : t ∈ dueWindow env ↔ t < env.localDayEndUtc env.today := Iff.rfl

theorem mem_teaserWindow {env : SessionEnv} {t : Int} : t ∈ teaserWindow env ↔
    env.localDayEndUtc env.today ≤ t ∧ t < env.localDayEndUtc (env.today + 1) := Iff.rfl

section Queries

variable {env : SessionEnv} {rows : SessionTables} {concept : String}

theorem mem_dueConcepts : concept ∈ dueConcepts env rows ↔
    ∃ row ∈ rows.grading.conceptStates, row.concept = concept ∧ ∃ t, row.nextReviewAt = some t ∧ t ∈ dueWindow env := by
  simp only [dueConcepts, List.mem_map, List.mem_insertionSort, (env.conceptOrder.perm _).mem_iff, List.mem_filter]
  constructor
  · rintro ⟨row, ⟨hrow, hdue⟩, hconcept⟩
    refine ⟨row, hrow, hconcept, ?_⟩
    cases hreview : row.nextReviewAt with
    | none => simp [hreview] at hdue
    | some t => exact ⟨t, rfl, mem_dueWindow.mpr (by simpa [hreview] using hdue)⟩
  · rintro ⟨row, hrow, hconcept, t, ht, hdue⟩
    exact ⟨row, ⟨hrow, by simpa [ht] using mem_dueWindow.mp hdue⟩, hconcept⟩

theorem mem_of_weakestConcept {states : List ConceptState} (h : weakestConcept states = some concept) :
    ∃ row ∈ states, row.concept = concept := by
  obtain ⟨row, hrow, hconcept⟩ := Option.map_eq_some_iff.mp h
  exact ⟨row, (List.mem_insertionSort _).mp (List.mem_of_mem_head? hrow), hconcept⟩

/-- A teaser that is no fallback is of a concept with a review in the window. -/
theorem teased_window {first : Bool} {s : Store SessionApp}
    (h : ((tomorrowTeaser env first).exec rows s).res = .ok (some ⟨concept, false⟩)) :
    ∃ row ∈ rows.grading.conceptStates, row.concept = concept ∧
      ∃ t, row.nextReviewAt = some t ∧ t ∈ teaserWindow env := by
  simp only [tomorrowTeaser, query_bind, exec_select] at h
  split at h
  · rename_i scheduled hscheduled
    obtain ⟨row, hrow, hconcept⟩ := mem_of_weakestConcept hscheduled
    obtain ⟨hmem, hteased⟩ := List.mem_filter.mp hrow
    cases h
    refine ⟨row, hmem, hconcept, ?_⟩
    cases hreview : row.nextReviewAt with
    | none => simp [hreview] at hteased
    | some t => exact ⟨t, rfl, mem_teaserWindow.mpr (by simpa [hreview] using hteased)⟩
  · split at h
    · simp only [exec_select, exec_ret] at h
      have hmap : (weakestConcept rows.grading.conceptStates).map (TomorrowTeaser.mk · true) =
          some ⟨concept, false⟩ :=
        Except.ok.inj h
      obtain ⟨c, -, hc⟩ := Option.map_eq_some_iff.mp hmap
      cases hc
    · cases h

/-- What is due today is not teased for tomorrow: a concept has one row. -/
theorem due_not_teased {first : Bool} {s : Store SessionApp}
    (hdistinct : (rows.grading.conceptStates.map ConceptState.concept).Nodup)
    (h : ((tomorrowTeaser env first).exec rows s).res = .ok (some ⟨concept, false⟩)) : concept ∉ dueConcepts env rows := by
  intro hdue
  obtain ⟨row, hrow, hconcept, t, ht, hlt⟩ := mem_dueConcepts.mp hdue
  obtain ⟨row', hrow', hconcept', t', ht', hle, -⟩ := teased_window h
  obtain rfl := List.inj_on_of_nodup_map hdistinct hrow hrow' (hconcept.trans hconcept'.symm)
  rw [ht] at ht'
  obtain rfl := Option.some.inj ht'
  exact absurd hlt (not_lt.mpr hle)

end Queries

/-! ## The end of a day -/

/-- The clock is not set over the end of the date. -/
def Unbroken (z : Zone) (d : Int) : Prop := ∀ c ∈ z.changes, ¬ c.Crosses ((d + 1) * microsPerDay)

instance (z : Zone) (d : Int) : Decidable (Unbroken z d) :=
  inferInstanceAs (Decidable (∀ c ∈ z.changes, ¬ c.Crosses ((d + 1) * microsPerDay)))

/-- The end of the date is where the next one begins. -/
def ExactEnd (zones : String → Zone) (tzName : String) (d : Int) : Prop :=
  ∀ t, t < localDayEndUtc zones tzName d ↔ localDateFor (tzDb zones) tzName t ≤ d

section Ends

variable {zones : String → Zone} {tzName : String} {d today : Int}

theorem exactEnd_iff : ExactEnd zones tzName d ↔ Unbroken (zones tzName) d := by
  simp only [ExactEnd, localDateFor_le_iff]
  exact (zones tzName).splits_iff _

theorem disjoint_windows (env : SessionEnv) : dueWindow env ∩ teaserWindow env = ∅ :=
  Set.eq_empty_of_forall_notMem fun _ ⟨hdue, hteased⟩ =>
    absurd (mem_dueWindow.mp hdue) (not_lt.mpr (mem_teaserWindow.mp hteased).1)

/-- Of exact days the windows are the instants up to today and those of tomorrow. -/
theorem windows_of_exact (h : ExactEnd zones tzName today) (h' : ExactEnd zones tzName (today + 1))
    (env : SessionEnv) :
    dueWindow (env.inZone zones tzName today) = {t | localDateFor (tzDb zones) tzName t ≤ today} ∧
      teaserWindow (env.inZone zones tzName today) = {t | localDateFor (tzDb zones) tzName t = today + 1} := by
  refine ⟨Set.ext fun t => mem_dueWindow.trans (h t), Set.ext fun t => mem_teaserWindow.trans ?_⟩
  have hend : localDayEndUtc zones tzName today ≤ t ↔ ¬ localDateFor (tzDb zones) tzName t ≤ today := by
    rw [← h t, not_lt]
  have hend' : t < localDayEndUtc zones tzName (today + 1) ↔ localDateFor (tzDb zones) tzName t ≤ today + 1 := h' t
  change localDayEndUtc zones tzName today ≤ t ∧ t < localDayEndUtc zones tzName (today + 1) ↔
    localDateFor (tzDb zones) tzName t = today + 1
  rw [hend, hend']
  omega

/-- **The end of a local day**: it splits the instants by their dates exactly if the clock of the zone is not set over that
midnight.  The windows computed from it are disjoint; and if both ends are exact they are adjacent, the instants up to
today and those of tomorrow. -/
theorem local_day_end_exact_iff (zones : String → Zone) (tzName : String) (env : SessionEnv) (today : Int) :
    (ExactEnd zones tzName today ↔ Unbroken (zones tzName) today) ∧
    dueWindow (env.inZone zones tzName today) ∩ teaserWindow (env.inZone zones tzName today) = ∅ ∧
    (Unbroken (zones tzName) today ∧ Unbroken (zones tzName) (today + 1) →
      dueWindow (env.inZone zones tzName today) ∪ teaserWindow (env.inZone zones tzName today) =
        dueWindow (env.inZone zones tzName (today + 1)) ∧
      teaserWindow (env.inZone zones tzName today) = {t | localDateFor (tzDb zones) tzName t = today + 1}) := by
  refine ⟨exactEnd_iff, disjoint_windows _, fun ⟨h, h'⟩ => ?_⟩
  have hexact' := exactEnd_iff.mpr h'
  obtain ⟨hdue, hteased⟩ := windows_of_exact (exactEnd_iff.mpr h) hexact' env
  refine ⟨Set.ext fun t => ?_, hteased⟩
  rw [hdue, hteased]
  calc t ∈ {t | localDateFor (tzDb zones) tzName t ≤ today} ∪ {t | localDateFor (tzDb zones) tzName t = today + 1}
    _ ↔ localDateFor (tzDb zones) tzName t ≤ today ∨ localDateFor (tzDb zones) tzName t = today + 1 := Iff.rfl
    _ ↔ localDateFor (tzDb zones) tzName t ≤ today + 1 := by omega
    _ ↔ t ∈ dueWindow (env.inZone zones tzName (today + 1)) := (hexact' t).symm

end Ends

/-! ### Zones -/

def minutes (n : Int) : Int := n * (60 * 1000000)

/-- 2026: the clock is set from 2:00 to 3:00 on 8 March, and from 2:00 to 1:00 on 1 November. -/
def newYork : Zone where
  before := hours (-5)
  transitions := [⟨20520 * microsPerDay + hours 7, hours (-4)⟩, ⟨20758 * microsPerDay + hours 6, hours (-5)⟩]
  ordered := List.pairwise_cons.mpr ⟨by decide, List.pairwise_singleton _ _⟩

theorem local_day_end_newYork (env : SessionEnv) :
    dueWindow (env.inZone (fun _ => newYork) "America/New_York" 20520) ∪
        teaserWindow (env.inZone (fun _ => newYork) "America/New_York" 20520) =
      dueWindow (env.inZone (fun _ => newYork) "America/New_York" 20521) :=
  ((local_day_end_exact_iff (fun _ => newYork) "America/New_York" env 20520).2.2 ⟨by decide, by decide⟩).1

/-- 1919: the clock is set from 23:30 on 30 March to 0:30 on 31 March. -/
def toronto : Zone where
  before := hours (-5)
  transitions := [⟨-18539 * microsPerDay + minutes 270, hours (-4)⟩]
  ordered := List.pairwise_singleton _ _

/-- 2010: the clock is set from 0:01 on 7 November to 23:01 on 6 November. -/
def stJohns : Zone where
  before := minutes (-150)
  transitions := [⟨14920 * microsPerDay + minutes 151, minutes (-210)⟩]
  ordered := List.pairwise_singleton _ _

/-- **Midnights that are crossed**: in Toronto an instant before the end of 30 March 1919 is on 31 March, and in St. John's
one after the end of 6 November 2010 is on 6 November. -/
theorem midnight_crossed :
    (∃ t, t < localDayEndUtc (fun _ => toronto) "America/Toronto" (-18540) ∧
      localDateFor (tzDb fun _ => toronto) "America/Toronto" t = -18539) ∧
    (∃ t, localDayEndUtc (fun _ => stJohns) "America/St_Johns" 14919 ≤ t ∧
      localDateFor (tzDb fun _ => stJohns) "America/St_Johns" t = 14919) ∧
    ¬ ExactEnd (fun _ => toronto) "America/Toronto" (-18540) ∧ ¬ ExactEnd (fun _ => stJohns) "America/St_Johns" 14919 := by
  have hskip : -18539 * microsPerDay + minutes 270 < localDayEndUtc (fun _ => toronto) "America/Toronto" (-18540) ∧
      localDateFor (tzDb fun _ => toronto) "America/Toronto" (-18539 * microsPerDay + minutes 270) = -18539 := by decide
  have hrepeat : localDayEndUtc (fun _ => stJohns) "America/St_Johns" 14919 ≤ 14920 * microsPerDay + minutes 151 ∧
      localDateFor (tzDb fun _ => stJohns) "America/St_Johns" (14920 * microsPerDay + minutes 151) = 14919 := by decide
  refine ⟨⟨_, hskip⟩, ⟨_, hrepeat⟩, fun h => ?_, fun h => ?_⟩
  · have hle := (h _).mp hskip.1
    rw [hskip.2] at hle
    exact absurd hle (by decide)
  · exact absurd ((h _).mpr hrepeat.2.le) (not_lt.mpr hrepeat.1)

end CodeReader.Sessions
