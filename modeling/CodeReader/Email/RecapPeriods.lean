import CodeReader.Core.IsoWeeks
import CodeReader.Email.Candidates
import CodeReader.Text.Integers

/-!
# The period key of a recap, and the week that it reports

* `weekBounds` — the week that ended before a date; `build` reads a key back and asks for the week before it;
* `mondayOfSendWeek_recapPeriodKey` — **a key is read back** as the Monday of its week;
* `recapPeriodKey_eq_iff` — one key for each week;
* `recap_weeks` — **the result**: keys and reported weeks go together, with no gap and no overlap.
-/

namespace CodeReader.Email

open Text

/-- `week_bounds`: the Monday and the Sunday of the week before; `none` where they are no dates. -/
def weekBounds (localDate : Int) : Option (Int × Int) := do
  let thisMonday ← dateOf (localDate - weekday localDate)
  let lastMonday ← dateOf (thisMonday - 7)
  let lastSunday ← dateOf (lastMonday + 6)
  return (lastMonday, lastSunday)

/-- The Monday of the week in which a recap is sent, from its key. -/
def mondayOfSendWeek (periodKey : String) : Option Int := do
  let (year, _, week) := partition "-W".toList periodKey.toList
  let year ← intOfText 10 year
  let week ← intOfText 10 week
  fromisocalendar year week 1

/-- The week that `_build` reports under a key. -/
def reportedWeek (periodKey : String) : Option (Int × Int) := (mondayOfSendWeek periodKey).bind weekBounds

/-! ## The key -/

/-- The year, and the week in at least two digits. -/
theorem toList_recapPeriodKey {d : Int} {year week : Nat} (h : isocalendar d = ((year : Int), (week : Int))) :
    (recapPeriodKey d).toList = Nat.toDigits 10 year ++
      ("-W".toList ++ (List.replicate (2 - (Nat.toDigits 10 week).length) '0' ++ Nat.toDigits 10 week)) := by
  have hkey : recapPeriodKey d = toString (year : Int) ++ "-W" ++ zeroPad 2 week := by
    unfold recapPeriodKey
    rw [h]
    rfl
  rw [hkey, String.toList_append, String.toList_append, toList_toString_natCast, toList_zeroPad, List.append_assoc]

/-- **A key is read back.** -/
theorem mondayOfSendWeek_recapPeriodKey (d : Date) : mondayOfSendWeek (recapPeriodKey d.day) = some (mondayOf d.day) := by
  have hyears := d.isocalendar_valid
  obtain ⟨hweek, hlong⟩ := isocalendar_week d.day
  obtain ⟨year, hyear⟩ : ∃ year : Nat, (year : Int) = (isocalendar d.day).1 :=
    ⟨(isocalendar d.day).1.toNat, Int.toNat_of_nonneg (by omega)⟩
  obtain ⟨week, hweek⟩ : ∃ week : Nat, (week : Int) = (isocalendar d.day).2 :=
    ⟨(isocalendar d.day).2.toNat, Int.toNat_of_nonneg (by omega)⟩
  have hyear4 : (Nat.toDigits 10 year).length ≤ 4 :=
    (Nat.length_toDigits_le_iff (by decide) (by decide)).mpr (by omega)
  have hweek4 : (Nat.toDigits 10 week).length ≤ 4 :=
    (Nat.length_toDigits_le_iff (by decide) (by decide)).mpr (by omega)
  have hdash : '-' ∉ Nat.toDigits 10 year := fun hc => absurd (isDigit_toDigits hc) (by decide)
  have hcalendar : isocalendar d.day = ((year : Int), (week : Int)) := Prod.ext hyear.symm hweek.symm
  have hkey := toList_recapPeriodKey hcalendar
  have hparts : partition "-W".toList (recapPeriodKey d.day).toList = (Nat.toDigits 10 year, "-W".toList,
      List.replicate (2 - (Nat.toDigits 10 week).length) '0' ++ Nat.toDigits 10 week) := by
    rw [hkey]
    exact partition_append ['W'] hdash _
  have hyearRead : intOfText 10 (Nat.toDigits 10 year) = some (year : Int) :=
    intOfText_toDigits hyear4 0 (by decide)
  have hweekRead := intOfText_toDigits hweek4 (2 - (Nat.toDigits 10 week).length) (by omega)
  have hdate := fromisocalendar_isocalendar d
  rw [← hyear, ← hweek] at hdate
  rw [mondayOfSendWeek, hparts]
  simp only [hyearRead, hweekRead, Option.bind_eq_bind, Option.bind_some]
  exact hdate

/-- **One key for each week.** -/
theorem recapPeriodKey_eq_iff (d d' : Date) :
    recapPeriodKey d.day = recapPeriodKey d'.day ↔ SameWeek d.day d'.day := by
  constructor
  · intro h
    have hmonday := mondayOfSendWeek_recapPeriodKey d'
    rw [← h, mondayOfSendWeek_recapPeriodKey, Option.some.injEq] at hmonday
    exact sameWeek_iff.mpr hmonday
  · intro h
    unfold recapPeriodKey
    rw [isocalendar_eq_iff.mpr h]

/-! ## The reported week -/

theorem dateOf_eq_some {d : Int} (h : minDate ≤ d ∧ d ≤ maxDate) : dateOf d = some d := by rw [dateOf, if_pos h]

/-- The seven dates before the Monday, where the week before has dates. -/
theorem weekBounds_eq (d : Date) :
    weekBounds d.day = if minDate ≤ mondayOf d.day - 7 then some (mondayOf d.day - 7, mondayOf d.day - 1) else none := by
  obtain ⟨hlow, hhigh⟩ := d.mondayOf_valid
  have hthis : dateOf (d.day - weekday d.day) = some (mondayOf d.day) := dateOf_eq_some ⟨hlow, hhigh⟩
  unfold weekBounds
  simp only [hthis, Option.bind_eq_bind, Option.bind_some]
  split
  · rename_i hbefore
    have hlast : dateOf (mondayOf d.day - 7) = some (mondayOf d.day - 7) := dateOf_eq_some ⟨hbefore, by omega⟩
    have hsunday : dateOf (mondayOf d.day - 7 + 6) = some (mondayOf d.day - 7 + 6) := dateOf_eq_some ⟨by omega, by omega⟩
    rw [hlast, Option.bind_some, hsunday, Option.bind_some]
    refine congrArg some (Prod.ext rfl ?_)
    change mondayOf d.day - 7 + 6 = mondayOf d.day - 1
    omega
  · rename_i hnone
    rw [dateOf, if_neg fun h => hnone h.1]
    rfl

/-- On 0001-01-01 there is no week before. -/
theorem weekBounds_first : weekBounds minDate = none ∧
    ¬ ∀ d : Date, weekBounds d.day = some (mondayOf d.day - 7, mondayOf d.day - 1) := by
  refine ⟨by decide, fun h => ?_⟩
  exact absurd (h ⟨minDate, by decide⟩) (by decide)

/-- **Keys and weeks.**  The key of a date is read back as the Monday of its week; two dates have one key exactly when
they lie in one week from Monday to Sunday; the recap under the key reports what `week_bounds` says of the date, which
is one result for all dates of the key: the seven dates before the Monday, except in the first week of the calendar; and
the week that the next key reports begins where this one ends. -/
theorem recap_weeks (d : Date) :
    mondayOfSendWeek (recapPeriodKey d.day) = some (mondayOf d.day) ∧
      reportedWeek (recapPeriodKey d.day) = weekBounds d.day ∧
      weekBounds d.day =
        (if minDate ≤ mondayOf d.day - 7 then some (mondayOf d.day - 7, mondayOf d.day - 1) else none) ∧
      ∀ d' : Date,
        (recapPeriodKey d.day = recapPeriodKey d'.day ↔ SameWeek d.day d'.day) ∧
        (recapPeriodKey d.day = recapPeriodKey d'.day → weekBounds d.day = weekBounds d'.day) ∧
        (SameWeek (d.day + 7) d'.day → ∀ first last, weekBounds d.day = some (first, last) →
          weekBounds d'.day = some (last + 1, last + 7)) := by
  have hbounds : ∀ d d' : Date, SameWeek d.day d'.day → weekBounds d.day = weekBounds d'.day := by
    intro d d' h
    rw [weekBounds_eq, weekBounds_eq, sameWeek_iff.mp h]
  refine ⟨mondayOfSendWeek_recapPeriodKey d, ?_, weekBounds_eq d, fun d' => ⟨recapPeriodKey_eq_iff d d', ?_, ?_⟩⟩
  · -- the Monday is a date of the same week
    rw [reportedWeek, mondayOfSendWeek_recapPeriodKey, Option.bind_some]
    refine hbounds ⟨mondayOf d.day, d.mondayOf_valid⟩ d (sameWeek_iff.mpr ?_)
    exact mondayOf_eq_of_le (weekday_mondayOf d.day) (Int.le_refl _) (Int.le.intro 6 rfl)
  · exact fun h => hbounds d d' ((recapPeriodKey_eq_iff d d').mp h)
  · intro h first last hfirst
    have hnext : mondayOf d'.day = mondayOf d.day + 7 := by
      rw [← sameWeek_iff.mp h]
      unfold mondayOf weekday
      omega
    rw [weekBounds_eq] at hfirst
    split at hfirst
    · rename_i hbefore
      cases hfirst
      rw [weekBounds_eq, hnext, if_pos (by omega)]
      refine congrArg some (Prod.ext ?_ ?_)
      · change mondayOf d.day + 7 - 7 = mondayOf d.day - 1 + 1
        omega
      · change mondayOf d.day + 7 - 1 = mondayOf d.day - 1 + 7
        omega
    · exact nomatch hfirst

end CodeReader.Email
