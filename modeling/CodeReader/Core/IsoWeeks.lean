import CodeReader.Core.Calendar
import Mathlib.Tactic.Linarith

/-!
# ISO weeks

* `civil_year`, `newYear_succ` — the years of the calendar, and how long they are;
* `mondayOf`, `SameWeek` — the weeks from Monday to Sunday;
* `week1monday`, `fromisocalendar` — the date of a year, a week and a weekday, where there is one;
* `fromisocalendar_isocalendar` — **the Monday of the week of a date** is the first day of its ISO year and week;
* `isocalendar_eq_iff` — the ISO years and weeks tell the weeks apart.

A `Date` is a day number that Python has a date for.
-/

namespace CodeReader

/-! ## Years -/

section Years

/-- `calendar.isleap`. -/
def isLeap (year : Int) : Bool := year % 4 == 0 && (year % 100 != 0 || year % 400 == 0)

/-- The year, from 0 to 399 and beginning in March, of a day of an era of 400 years. -/
def yearOfEra (doe : Int) : Int := (doe - doe / 1460 + doe / 36524 - doe / 146096) / 365

/-- The first day of a year of an era. -/
def eraStart (yoe : Int) : Int := 365 * yoe + yoe / 4 - yoe / 100

theorem yearOfEra_succ (doe : Int) (h0 : 0 ≤ doe) (h1 : doe < 146096) : yearOfEra doe ≤ yearOfEra (doe + 1) := by
  have hquad : (doe + 1) / 1460 ≤ doe / 1460 + 1 := by omega
  have hera : (doe + 1) / 146096 - doe / 146096 ≤ (doe + 1) / 36524 - doe / 36524 := by
    rcases (by omega : doe + 1 < 146096 ∨ doe = 146095) with h | rfl
    · omega
    · decide
  refine Int.ediv_le_ediv (by decide) ?_
  linarith

theorem yearOfEra_mono {a b : Int} (h0 : 0 ≤ a) (hab : a ≤ b) (h1 : b ≤ 146096) : yearOfEra a ≤ yearOfEra b := by
  obtain ⟨n, rfl⟩ : ∃ n : Nat, b = a + n := ⟨(b - a).toNat, by omega⟩
  induction n with
  | zero => simp
  | succ n ih =>
    have hstep := yearOfEra_succ (a + n) (by omega) (by omega)
    have hrest := ih (by omega) (by omega)
    rw [Int.natCast_succ, ← Int.add_assoc]
    exact hrest.trans hstep

/-- The first and the last day of each year of an era. -/
theorem yearOfEra_ends : ∀ yoe : Fin 400, yearOfEra (eraStart yoe.val) = yoe.val ∧
    yearOfEra (eraStart (yoe.val + 1) - 1) = yoe.val := by
  decide +kernel

/-- A day of an era lies in its year; the last day of the era is one more than the years have by the formula. -/
theorem eraStart_le {doe : Int} (h0 : 0 ≤ doe) (h1 : doe < 146097) :
    0 ≤ yearOfEra doe ∧ yearOfEra doe ≤ 399 ∧ eraStart (yearOfEra doe) ≤ doe ∧
      (doe < eraStart (yearOfEra doe + 1) ∨ doe = 146096 ∧ yearOfEra doe = 399) := by
  have hlow : 0 ≤ yearOfEra doe := yearOfEra_mono (Int.le_refl 0) h0 (by omega)
  have hhigh : yearOfEra doe ≤ 399 := yearOfEra_mono h0 (by omega : doe ≤ 146096) (Int.le_refl _)
  obtain ⟨yoe, hyoe⟩ : ∃ yoe : Fin 400, (yoe.val : Int) = yearOfEra doe :=
    ⟨⟨(yearOfEra doe).toNat, by omega⟩, Int.toNat_of_nonneg hlow⟩
  rw [← hyoe] at hlow hhigh ⊢
  refine ⟨hlow, hhigh, ?_, ?_⟩
  · -- a day before the first one is of an earlier year
    by_contra hbefore
    obtain ⟨m, hm⟩ : ∃ m : Fin 400, (m.val : Int) + 1 = yoe.val := by
      refine ⟨⟨yoe.val - 1, by omega⟩, ?_⟩
      have hpos : yoe.val ≠ 0 := by
        intro hz
        rw [hz] at hbefore
        exact hbefore h0
      change ((yoe.val - 1 : Nat) : Int) + 1 = _
      omega
    have hlast := (yearOfEra_ends m).2
    rw [hm] at hlast
    have hmono := yearOfEra_mono h0 (by omega : doe ≤ eraStart yoe.val - 1) (by unfold eraStart; omega)
    omega
  · -- a day behind the last one is of a later year
    by_contra hbehind
    rw [not_or] at hbehind
    by_cases hsmall : yoe.val + 1 < 400
    · have hfirst := (yearOfEra_ends ⟨yoe.val + 1, hsmall⟩).1
      simp only [Nat.cast_add, Nat.cast_one] at hfirst
      have hmono := yearOfEra_mono (by unfold eraStart; omega) (by omega : eraStart (yoe.val + 1) ≤ doe) (by omega)
      omega
    · have hyear : (yoe.val : Int) = 399 := by omega
      have hstart : eraStart (399 + 1) = 146096 := by decide
      rw [hyear, hstart] at hbehind
      omega

theorem newYear_of_era (era : Int) {yoe : Int} (h0 : 0 ≤ yoe) (h1 : yoe < 400) :
    newYear (era * 400 + yoe + 1) = era * 146097 + eraStart yoe + 306 - 719468 := by
  have hera : (era * 400 + yoe + 1 - 1) / 400 = era := by omega
  have hyoe : (era * 400 + yoe + 1 - 1) % 400 = yoe := by omega
  unfold newYear eraStart
  simp only [hera, hyoe]
  omega

theorem newYear_succ (year : Int) : newYear (year + 1) = newYear year + (if isLeap year then 366 else 365) := by
  unfold newYear isLeap
  simp only [Bool.and_eq_true, Bool.or_eq_true, beq_iff_eq, bne_iff_ne]
  split <;> omega

theorem newYear_lt (year : Int) : newYear year + 365 ≤ newYear (year + 1) := by
  rw [newYear_succ]
  split <;> omega

theorem newYear_mono {a b : Int} (h : a ≤ b) : newYear a ≤ newYear b := by
  obtain ⟨n, rfl⟩ : ∃ n : Nat, b = a + n := ⟨(b - a).toNat, by omega⟩
  induction n with
  | zero => simp
  | succ n ih =>
    have hrest := ih (by omega)
    have hstep := newYear_lt (a + n)
    rw [Int.natCast_succ, ← Int.add_assoc]
    omega

/-- The year that the calendar gives a day begins no later, and the next one later. -/
theorem newYear_civil (d : Int) : newYear (civil d).1 ≤ d ∧ d < newYear ((civil d).1 + 1) := by
  have hdoe : 0 ≤ (d + 719468) % 146097 ∧ (d + 719468) % 146097 < 146097 := by omega
  have hd : d = (d + 719468) / 146097 * 146097 + (d + 719468) % 146097 - 719468 := by omega
  generalize hera : (d + 719468) / 146097 = era at hd
  generalize hday : (d + 719468) % 146097 = doe at hd hdoe
  obtain ⟨hlow, hhigh, hfirst, hlast⟩ := eraStart_le hdoe.1 hdoe.2
  generalize hyoe : yearOfEra doe = yoe at hlow hhigh hfirst hlast
  have hcivil : (civil d).1 = yoe + era * 400 +
      (if (if (5 * (doe - eraStart yoe) + 2) / 153 < 10 then (5 * (doe - eraStart yoe) + 2) / 153 + 3
        else (5 * (doe - eraStart yoe) + 2) / 153 - 9) ≤ 2 then 1 else 0) := by
    subst hyoe hera hday
    rfl
  have hlength : doe - eraStart yoe ≤ 365 := by
    unfold eraStart at hlast ⊢
    omega
  by_cases hspring : doe - eraStart yoe < 306
  · -- from March to December
    have hyear : (civil d).1 = era * 400 + yoe := by
      rw [hcivil]
      split <;> split at * <;> omega
    have hnext := newYear_of_era era hlow (by omega : yoe < 400)
    have hthis := newYear_lt (era * 400 + yoe)
    rw [hyear]
    omega
  · -- January and February
    have hyear : (civil d).1 = era * 400 + yoe + 1 := by
      rw [hcivil]
      split <;> split at * <;> omega
    have hthis := newYear_of_era era hlow (by omega : yoe < 400)
    have hnext := newYear_lt (era * 400 + yoe + 1)
    rw [hyear]
    refine ⟨by omega, ?_⟩
    by_cases hwrap : yoe < 399
    · have hafter := newYear_of_era era (by omega : 0 ≤ yoe + 1) (by omega : yoe + 1 < 400)
      rw [← Int.add_assoc] at hafter
      omega
    · have hafter := newYear_of_era (era + 1) (Int.le_refl 0) (by decide)
      have hyears : (era + 1) * 400 + 0 + 1 = era * 400 + yoe + 1 + 1 := by omega
      have hstart : eraStart 0 = 0 := by decide
      rw [hyears, hstart] at hafter
      omega

/-- The year of a day is the one that it lies in. -/
theorem civil_year {d year : Int} (h : newYear year ≤ d) (h' : d < newYear (year + 1)) : (civil d).1 = year := by
  obtain ⟨hfirst, hnext⟩ := newYear_civil d
  rcases Int.lt_trichotomy (civil d).1 year with hlt | heq | hgt
  · have hmono := newYear_mono (by omega : (civil d).1 + 1 ≤ year)
    omega
  · exact heq
  · have hmono := newYear_mono (by omega : year + 1 ≤ (civil d).1)
    omega

end Years

/-! ## Dates and weeks -/

/-- `date.min`. -/
def minDate : Int := newYear 1

/-- `date.max`, the last day of the year 9999. -/
def maxDate : Int := newYear 10000 - 1

/-- The day number of a date; the arithmetic of dates raises an `OverflowError` at the others. -/
def dateOf (d : Int) : Option Int := if minDate ≤ d ∧ d ≤ maxDate then some d else none

structure Date where
  day : Int
  valid : minDate ≤ day ∧ day ≤ maxDate

/-- The Monday of the week. -/
def mondayOf (d : Int) : Int := d - weekday d

/-- Both days lie between one Monday and its Sunday. -/
def SameWeek (a b : Int) : Prop := ∃ m, weekday m = 0 ∧ (m ≤ a ∧ a ≤ m + 6) ∧ (m ≤ b ∧ b ≤ m + 6)

theorem mondayOf_le (d : Int) : mondayOf d ≤ d ∧ d ≤ mondayOf d + 6 := by
  unfold mondayOf weekday
  omega

theorem weekday_mondayOf (d : Int) : weekday (mondayOf d) = 0 := by
  unfold mondayOf weekday
  omega

theorem mondayOf_eq_of_le {m d : Int} (hm : weekday m = 0) (h : m ≤ d) (h' : d ≤ m + 6) : mondayOf d = m := by
  unfold mondayOf weekday at *
  omega

theorem sameWeek_iff {a b : Int} : SameWeek a b ↔ mondayOf a = mondayOf b := by
  constructor
  · rintro ⟨m, hm, ha, hb⟩
    rw [mondayOf_eq_of_le hm ha.1 ha.2, mondayOf_eq_of_le hm hb.1 hb.2]
  · intro h
    exact ⟨mondayOf a, weekday_mondayOf a, mondayOf_le a, h ▸ mondayOf_le b⟩

/-! ## ISO years and weeks -/

/-- `_isoweek1monday`: the Monday of the week with the first Thursday of the year. -/
def week1monday (year : Int) : Int :=
  let firstday := newYear year
  let firstweekday := weekday firstday
  if 3 < firstweekday then firstday - firstweekday + 7 else firstday - firstweekday

/-- A year of 53 weeks begins on a Thursday, or is a leap year that begins on a Wednesday. -/
def isLong (year : Int) : Bool :=
  weekday (newYear year) == 3 || (weekday (newYear year) == 2 && isLeap year)

/-- `date.fromisocalendar`; the values out of range raise a `ValueError`. -/
def fromisocalendar (year week day : Int) : Option Int :=
  if ¬ (1 ≤ year ∧ year ≤ 9999) then none
  else if ¬ (0 < week ∧ week < 53) ∧ ¬ (week = 53 ∧ isLong year) then none
  else if ¬ (0 < day ∧ day < 8) then none
  else dateOf (week1monday year + ((week - 1) * 7 + (day - 1)))

/-- The Thursday of a week lies in the ISO year of the week. -/
theorem isocalendar_thursday (d : Int) :
    newYear (isocalendar d).1 ≤ mondayOf d + 3 ∧ mondayOf d + 3 < newYear ((isocalendar d).1 + 1) :=
  newYear_civil (d - weekday d + 3)

/-- The Thursday of the first week is the first of the year. -/
theorem week1monday_thursday (year : Int) : weekday (week1monday year) = 0 ∧
    newYear year ≤ week1monday year + 3 ∧ week1monday year + 3 < newYear year + 7 := by
  unfold week1monday weekday
  dsimp only
  split <;> omega

/-- Weeks are counted from the one with the first Thursday. -/
theorem week1monday_isocalendar (d : Int) : week1monday (isocalendar d).1 + ((isocalendar d).2 - 1) * 7 = mondayOf d := by
  have hyear := (isocalendar_thursday d).1
  have hweek : (isocalendar d).2 = (mondayOf d + 3 - newYear (isocalendar d).1) / 7 + 1 := rfl
  obtain ⟨hfirst, hlow, hhigh⟩ := week1monday_thursday (isocalendar d).1
  have hday := weekday_mondayOf d
  rw [hweek]
  unfold weekday at hfirst hday
  omega

/-- A fifty-third week is one of a long year. -/
theorem isocalendar_week (d : Int) : 0 < (isocalendar d).2 ∧
    ((isocalendar d).2 < 53 ∨ (isocalendar d).2 = 53 ∧ isLong (isocalendar d).1 = true) := by
  obtain ⟨hlow, hhigh⟩ := isocalendar_thursday d
  have hweek : (isocalendar d).2 = (mondayOf d + 3 - newYear (isocalendar d).1) / 7 + 1 := rfl
  have hday := weekday_mondayOf d
  have hlength := newYear_succ (isocalendar d).1
  rw [hweek]
  unfold isLong weekday at *
  simp only [Bool.or_eq_true, Bool.and_eq_true, beq_iff_eq]
  cases hleap : isLeap (isocalendar d).1 with
  | true =>
    simp only [hleap, if_true, and_true] at hlength ⊢
    omega
  | false =>
    simp only [hleap, Bool.false_eq_true, if_false, and_false, or_false] at hlength ⊢
    omega

theorem weekday_ends : weekday minDate = 0 ∧ weekday maxDate = 4 := by decide

/-- The Monday of the week of a date is a date. -/
theorem Date.mondayOf_valid (d : Date) : minDate ≤ mondayOf d.day ∧ mondayOf d.day ≤ maxDate := by
  have hvalid := d.valid
  have hends := weekday_ends.1
  unfold mondayOf weekday at *
  omega

/-- The ISO year of a date is one of the calendar. -/
theorem Date.isocalendar_valid (d : Date) : 1 ≤ (isocalendar d.day).1 ∧ (isocalendar d.day).1 ≤ 9999 := by
  obtain ⟨hlow, hhigh⟩ := isocalendar_thursday d.day
  have hvalid := d.valid
  obtain ⟨hmin, hmax⟩ := weekday_ends
  have hfirst : minDate ≤ mondayOf d.day := d.mondayOf_valid.1
  have hlast : mondayOf d.day + 3 ≤ maxDate := by
    unfold mondayOf weekday at *
    omega
  constructor
  · by_contra hearly
    have hmono := newYear_mono (by omega : (isocalendar d.day).1 + 1 ≤ 1)
    unfold minDate at hfirst
    omega
  · by_contra hlate
    have hmono := newYear_mono (by omega : 10000 ≤ (isocalendar d.day).1)
    unfold maxDate at hlast
    omega

/-- **Back from the ISO week.** -/
theorem fromisocalendar_isocalendar (d : Date) :
    fromisocalendar (isocalendar d.day).1 (isocalendar d.day).2 1 = some (mondayOf d.day) := by
  obtain ⟨hweek, hlast⟩ := isocalendar_week d.day
  have hday : week1monday (isocalendar d.day).1 + (((isocalendar d.day).2 - 1) * 7 + (1 - 1)) = mondayOf d.day := by
    rw [Int.sub_self, Int.add_zero, week1monday_isocalendar]
  have hrange : ¬ (¬ (0 < (isocalendar d.day).2 ∧ (isocalendar d.day).2 < 53) ∧
      ¬ ((isocalendar d.day).2 = 53 ∧ isLong (isocalendar d.day).1 = true)) := by
    rintro ⟨hshort, hlong⟩
    rcases hlast with hlt | h53
    · exact hshort ⟨hweek, hlt⟩
    · exact hlong h53
  rw [fromisocalendar, if_neg (not_not.mpr d.isocalendar_valid), if_neg hrange, if_neg (by decide), hday, dateOf,
    if_pos d.mondayOf_valid]

/-- The ISO year and week of two dates are the same exactly when the week is. -/
theorem isocalendar_eq_iff {a b : Int} : isocalendar a = isocalendar b ↔ SameWeek a b := by
  rw [sameWeek_iff]
  constructor
  · intro h
    rw [← week1monday_isocalendar a, ← week1monday_isocalendar b, h]
  · intro h
    have hthursday : a - weekday a + 3 = b - weekday b + 3 := congrArg (· + 3) h
    unfold isocalendar
    rw [hthursday]

end CodeReader
