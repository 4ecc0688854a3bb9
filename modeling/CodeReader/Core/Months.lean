import CodeReader.Core.IsoWeeks
import CodeReader.Text.Integers
import Mathlib.Order.Monotone.Basic
import Mathlib.Tactic.IntervalCases

/-!
# Months

A month is the first day of it; counted through, the months of all years are consecutive numbers.

* `firstDayOfNextMonth` — the next month, where there is one: `datetime.date` ends with the year 9999;
* `Midnights` — the instants at which the months begin, in some time zone;
* `monthStamp` — a month in a name (`2026_07`), read back by `monthOfStamp`.
-/

namespace CodeReader

open Text

structure Month where
  year : Nat
  month : Nat
  valid : (1 ≤ year ∧ year ≤ 9999) ∧ 1 ≤ month ∧ month ≤ 12
  deriving DecidableEq

/-- `dt.date(year, month, 1)`; `none` is its `ValueError`. -/
def monthDate (year month : Nat) : Option Month :=
  if h : (1 ≤ year ∧ year ≤ 9999) ∧ 1 ≤ month ∧ month ≤ 12 then some ⟨year, month, h⟩ else none

namespace Month

/-- The number of the month. -/
def index (m : Month) : Nat := 12 * m.year + (m.month - 1)

theorem index_injective : Function.Injective index := by
  intro a b h
  have ha := a.valid
  have hb := b.valid
  cases a
  cases b
  simp only [index] at h ha hb
  simp only [mk.injEq]
  omega

@[simp] theorem index_inj {a b : Month} : a.index = b.index ↔ a = b := index_injective.eq_iff

end Month

/-- `_first_day_of_next_month`, and `_first_day_after_month`. -/
def firstDayOfNextMonth (m : Month) : Option Month :=
  if m.month = 12 then monthDate (m.year + 1) 1 else monthDate m.year (m.month + 1)

theorem firstDayOfNextMonth_eq_some {m next : Month} :
    firstDayOfNextMonth m = some next ↔ next.index = m.index + 1 := by
  have hm := m.valid
  have hnext := next.valid
  have hsome : ∀ {year month : Nat}, (h : (1 ≤ year ∧ year ≤ 9999) ∧ 1 ≤ month ∧ month ≤ 12) →
      monthDate year month = some ⟨year, month, h⟩ := fun h => dif_pos h
  unfold firstDayOfNextMonth
  split
  · by_cases hyear : m.year = 9999
    · have hnone : monthDate (m.year + 1) 1 = none := dif_neg (by omega)
      rw [hnone]
      simp only [Month.index, reduceCtorEq, false_iff]
      omega
    · rw [hsome (by omega), Option.some.injEq, ← Month.index_inj, eq_comm]
      simp only [Month.index]
      omega
  · rw [hsome (by omega), Option.some.injEq, ← Month.index_inj, eq_comm]
    simp only [Month.index]
    omega

/-- December 9999 is the last month. -/
theorem Month.index_le (m : Month) : m.index ≤ 119999 := by
  have hm := m.valid
  unfold index
  omega

theorem exists_firstDayOfNextMonth {m : Month} (h : m.index < 119999) : ∃ next, firstDayOfNextMonth m = some next := by
  have hm := m.valid
  unfold Month.index at h
  unfold firstDayOfNextMonth
  split
  · exact ⟨_, dif_pos (by omega)⟩
  · exact ⟨_, dif_pos (by omega)⟩

/-- The instants at which the months begin, in the time zone of the database. -/
structure Midnights where
  start : Nat → Int
  mono : ∀ {i j : Nat}, i < j → start i < start j

theorem Midnights.start_lt_iff (midnights : Midnights) {i j : Nat} : midnights.start i < midnights.start j ↔ i < j := by
  refine ⟨fun h => ?_, midnights.mono⟩
  rcases Nat.lt_trichotomy i j with hlt | rfl | hgt
  · exact hlt
  · exact absurd h (Int.lt_irrefl _)
  · exact absurd (h.trans (midnights.mono hgt)) (Int.lt_irrefl _)

theorem Midnights.start_le (midnights : Midnights) {i j : Nat} (h : i ≤ j) : midnights.start i ≤ midnights.start j :=
  Int.not_lt.mp fun hlt => Nat.not_lt.mpr h (midnights.start_lt_iff.mp hlt)

/-- The days of the year before its `month`-th month, counted from zero. -/
def daysBefore (year : Int) (month : Nat) : Int :=
  [0, 31, 59, 90, 120, 151, 181, 212, 243, 273, 304, 334].getD month 0 + (if 2 ≤ month ∧ isLeap year then 1 else 0)

/-- Where a month begins in UTC. -/
def utcStart (i : Nat) : Int := (newYear (i / 12 : Nat) + daysBefore (i / 12 : Nat) (i % 12)) * microsPerDay

theorem utcStart_succ (i : Nat) : utcStart i < utcStart (i + 1) := by
  refine (Int.mul_lt_mul_right (by decide)).mpr ?_
  have hyear := newYear_succ (i / 12 : Nat)
  rcases Nat.lt_or_ge (i % 12) 11 with hmonth | hmonth
  · have hsame : (i + 1) / 12 = i / 12 := by omega
    have hnext : (i + 1) % 12 = i % 12 + 1 := by omega
    rw [hsame, hnext]
    generalize i % 12 = month at hmonth
    refine Int.add_lt_add_left ?_ _
    interval_cases month <;> unfold daysBefore <;> cases isLeap (i / 12 : Nat) <;> decide
  · -- over the end of the year
    have hnextYear : (((i + 1) / 12 : Nat) : Int) = (i / 12 : Nat) + 1 := by omega
    have hmonths : i % 12 = 11 ∧ (i + 1) % 12 = 0 := by omega
    rw [hnextYear, hmonths.1, hmonths.2, hyear]
    unfold daysBefore
    cases isLeap (i / 12 : Nat) <;> simp

def utcMidnights : Midnights where
  start := utcStart
  mono h := strictMono_nat_of_lt_succ utcStart_succ h

/-! ## In a name -/

/-- `f"{month:%Y_%m}"`. -/
def monthStamp (m : Month) : String := zeroPad 4 m.year ++ "_" ++ zeroPad 2 m.month

/-- Four digits, an underscore and two digits; `some none` where they are no date. -/
def monthOfStamp : List Char → Option (Option Month)
  | [a, b, c, d, '_', e, f] =>
    if [a, b, c, d, e, f].all Char.isDigit then
      some (monthDate (Nat.ofDigitChars 10 [a, b, c, d] 0) (Nat.ofDigitChars 10 [e, f] 0))
    else none
  | _ => none

/-- A number in so many digits. -/
theorem zeroPad_digits (width n : Nat) (h : n < 10 ^ width) (hwidth : 0 < width) :
    (zeroPad width n).toList.length = width ∧ (∀ c ∈ (zeroPad width n).toList, c.isDigit = true) ∧
      Nat.ofDigitChars 10 (zeroPad width n).toList 0 = n := by
  have hlength : (Nat.toDigits 10 n).length ≤ width := (Nat.length_toDigits_le_iff (by decide) hwidth).mpr h
  rw [toList_zeroPad]
  refine ⟨?_, fun c hc => ?_, ?_⟩
  · rw [List.length_append, List.length_replicate]
    omega
  · rcases List.mem_append.mp hc with hc | hc
    · rw [List.eq_of_mem_replicate hc]
      decide
    · exact isDigit_toDigits hc
  · rw [Nat.ofDigitChars_append, Nat.ofDigitChars_replicate_zero, Nat.mul_zero, Nat.ofDigitChars_ten_toDigits]

/-- **A month is read back.** -/
theorem monthOfStamp_monthStamp (m : Month) : monthOfStamp (monthStamp m).toList = some (some m) := by
  have hm := m.valid
  obtain ⟨hyear, hyears, hyearRead⟩ := zeroPad_digits 4 m.year (by omega) (by decide)
  obtain ⟨hmonth, hmonths, hmonthRead⟩ := zeroPad_digits 2 m.month (by omega) (by decide)
  obtain ⟨a, b, c, d, habcd⟩ := List.length_eq_four.mp hyear
  obtain ⟨e, f, hef⟩ := List.length_eq_two.mp hmonth
  have hstamp : (monthStamp m).toList = [a, b, c, d, '_', e, f] := by
    rw [monthStamp, String.toList_append, String.toList_append, habcd, hef]
    rfl
  rw [habcd] at hyears hyearRead
  rw [hef] at hmonths hmonthRead
  have hdigits : [a, b, c, d, e, f].all Char.isDigit = true := by
    rw [List.all_eq_true]
    intro x hx
    rcases List.mem_append.mp (show x ∈ [a, b, c, d] ++ [e, f] from hx) with h | h
    · exact hyears x h
    · exact hmonths x h
  have hdate : monthDate m.year m.month = some m := dif_pos hm
  rw [hstamp, monthOfStamp, if_pos hdigits, hyearRead, hmonthRead, hdate]

theorem monthStamp_injective : Function.Injective monthStamp := by
  intro a b h
  have hread := monthOfStamp_monthStamp a
  rw [h, monthOfStamp_monthStamp b] at hread
  exact (Option.some.inj (Option.some.inj hread)).symm

end CodeReader
