import Mathlib.Tactic.Common

/-!
# Dates and instants

A date is its day number (an `Int`), 1970-01-01 being day 0; an instant is a number of microseconds (an `Int`)
since that day began in UTC.  The zone database is a parameter: it gives the offset from UTC at every instant.
-/

namespace CodeReader

/-- `timedelta(days=1)`. -/
def microsPerDay : Int := 86400 * 1000000

/-- `timedelta(hours=n)`. -/
def hours (n : Int) : Int := n * (3600 * 1000000)

/-- The zone database: the offset from UTC, in microseconds, of a zone at an instant. -/
structure TzDb where
  utcoffset : String → Int → Int

/-- The user-local calendar date `now` falls on, per their IANA timezone. -/
def localDateFor (tz : TzDb) (tzName : String) (now : Int) : Int :=
  (now + tz.utcoffset tzName now) / microsPerDay

/-- The clock of the zone never runs back over a midnight: later instants are not on earlier dates. -/
def TzDb.Forward (tz : TzDb) (tzName : String) : Prop :=
  ∀ a b, a ≤ b → localDateFor tz tzName a ≤ localDateFor tz tzName b

theorem TzDb.forward_of_const {tz : TzDb} {tzName : String} {offset : Int}
    (h : ∀ t, tz.utcoffset tzName t = offset) : tz.Forward tzName := by
  intro a b hab
  unfold localDateFor microsPerDay
  rw [h, h]
  omega

/-- A zone database of fixed offsets. -/
def TzDb.fixed (offset : String → Int) : TzDb := ⟨fun tzName _ => offset tzName⟩

theorem TzDb.forward_fixed (offset : String → Int) (tzName : String) : (TzDb.fixed offset).Forward tzName :=
  TzDb.forward_of_const fun _ => rfl

/-- `local_now.time()`, in microseconds since midnight. -/
def localTimeFor (tz : TzDb) (tzName : String) (now : Int) : Int :=
  (now + tz.utcoffset tzName now) % microsPerDay

/-! ## ISO dates -/

/-- Year, month and day of a date, in the proleptic Gregorian calendar. -/
def civil (d : Int) : Int × Int × Int :=
  let z := d + 719468
  let era := z / 146097
  let doe := z % 146097
  let yoe := (doe - doe / 1460 + doe / 36524 - doe / 146096) / 365
  let doy := doe - (365 * yoe + yoe / 4 - yoe / 100)
  let mp := (5 * doy + 2) / 153
  let day := doy - (153 * mp + 2) / 5 + 1
  let month := if mp < 10 then mp + 3 else mp - 9
  (yoe + era * 400 + (if month ≤ 2 then 1 else 0), month, day)

/-- A number in decimal, padded with zeros to `width` digits. -/
def zeroPad (width : Nat) (n : Int) : String :=
  let digits := toString n
  String.ofList (List.replicate (width - digits.length) '0') ++ digits

/-- `date.isoformat()`. -/
def isoformat (d : Int) : String :=
  let (year, month, day) := civil d
  zeroPad 4 year ++ "-" ++ zeroPad 2 month ++ "-" ++ zeroPad 2 day

example : isoformat 20652 = "2026-07-18" := by decide

/-- `date.weekday()`: 0 is Monday. -/
def weekday (d : Int) : Int := (d + 3) % 7

/-- The first of January of a year. -/
def newYear (year : Int) : Int :=
  let y := year - 1
  let yoe := y % 400
  y / 400 * 146097 + (yoe * 365 + yoe / 4 - yoe / 100 + 306) - 719468

/-- `date.isocalendar()`, without the weekday: a week belongs to the year of its Thursday. -/
def isocalendar (d : Int) : Int × Int :=
  let thursday := d - weekday d + 3
  let year := (civil thursday).1
  (year, (thursday - newYear year) / 7 + 1)

example : isocalendar 20652 = (2026, 29) := by decide

end CodeReader
