/-
# Moments

A moment is a date of the Gregorian calendar, extended to all years, and a
time of day in milliseconds. A leap second is told by the milliseconds of the
second before it, which then go on from 1000 to 1999. Names of months and
weekdays are English.

Key definitions: `Moment`, `Moment.weekday`, `Moment.hour12`,
`Moment.clockSecond`, `Moment.ofEpochSeconds`.
-/
namespace Compositor

structure Moment where
  year : Int
  month : Nat
  day : Nat
  hour : Nat
  minute : Nat
  second : Nat
  millisecond : Nat
  deriving Repr, DecidableEq, Inhabited

namespace Moment

def monthNames : List String :=
  ["January", "February", "March", "April", "May", "June", "July", "August", "September",
   "October", "November", "December"]

def weekdayNames : List String :=
  ["Sunday", "Monday", "Tuesday", "Wednesday", "Thursday", "Friday", "Saturday"]

/-- The name of the month. -/
def monthName (m : Moment) : String := monthNames.getD (m.month - 1) ""

/-- The days from 1 March of year 0 to the date. Years are counted from
March here, so that the leap day ends one. -/
def dayNumber (m : Moment) : Int :=
  let year := if m.month ≤ 2 then m.year - 1 else m.year
  let month : Int := (m.month + 9) % 12
  365 * year + year / 4 - year / 100 + year / 400 + (153 * month + 2) / 5 + (m.day - 1)

/-- The day of the week, from 0 for Sunday on. 1 March of year 0 was a
Wednesday. -/
def weekday (m : Moment) : Nat := ((m.dayNumber + 3) % 7).toNat

/-- The name of the weekday. -/
def weekdayName (m : Moment) : String := weekdayNames.getD m.weekday ""

/-- The hour on a clock of twelve, from 1 to 12. -/
def hour12 (m : Moment) : Nat := if m.hour % 12 = 0 then 12 else m.hour % 12

/-- Is it noon or later? -/
def isAfternoon (m : Moment) : Bool := 12 ≤ m.hour

/-- The second that a clock shows: 60 in a leap second. -/
def clockSecond (m : Moment) : Nat := m.second + m.millisecond / 1000

/-- The milliseconds since the second that a clock shows. -/
def clockMillisecond (m : Moment) : Nat := m.millisecond % 1000

/-- The date that is so many days after 1 March of year 0, at midnight. The
days are split into spans of 400, 100, 4 and 1 years and then into months,
all counted from March. -/
def ofDayNumber (days : Nat) : Moment :=
  let inEra := days % 146097
  let centuries := min (inEra / 36524) 3
  let inCentury := inEra - centuries * 36524
  let fours := inCentury / 1461
  let inFour := inCentury - fours * 1461
  let years := min (inFour / 365) 3
  let inYear := inFour - years * 365
  let month := (5 * inYear + 2) / 153
  let year : Int := 400 * (days / 146097) + 100 * centuries + 4 * fours + years
  { year := if month < 10 then year else year + 1
    month := (month + 2) % 12 + 1
    day := inYear - (153 * month + 2) / 5 + 1
    hour := 0
    minute := 0
    second := 0
    millisecond := 0 }

/-- The days from 1 March of year 0 to 1 January 1970. -/
def epochDay : Nat := 719468

/-- The moment that is so many seconds after the start of 1970. -/
def ofEpochSeconds (seconds : Nat) : Moment :=
  let inDay := seconds % 86400
  { ofDayNumber (epochDay + seconds / 86400) with
    hour := inDay / 3600
    minute := inDay / 60 % 60
    second := inDay % 60 }

example : weekdayName ⟨2024, 3, 5, 0, 0, 0, 0⟩ = "Tuesday" := by decide

example : clockSecond ⟨2016, 12, 31, 23, 59, 59, 1250⟩ = 60 := by decide

example : ofEpochSeconds 1709215629 = ⟨2024, 2, 29, 14, 7, 9, 0⟩ := by decide

example : (ofDayNumber epochDay).dayNumber = epochDay := by decide

end Moment
end Compositor
