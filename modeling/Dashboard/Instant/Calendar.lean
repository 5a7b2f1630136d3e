/-!
# The Calendar

The Gregorian calendar, extended to all years, as a numbering of days. Day zero is the
first of January 1970.

Years are counted from March, so that a leap day is the last day of its year. Four hundred
such years are a cycle of 146097 days; a cycle falls into centuries of 36524 days, these
into spans of four years of 1461 days, and these into years of 365 days, where the last
century of a cycle and the last year of a span are one day longer.
-/

namespace Dashboard.Calendar

/-- A day of the calendar. -/
structure Date where
  year : Int
  month : Int
  day : Int
  deriving DecidableEq, Repr

/-- Whether February has 29 days. -/
def isLeapYear (year : Int) : Bool :=
  year % 4 == 0 && (year % 100 != 0 || year % 400 == 0)

/-- The number of days of a month. -/
def daysInMonth (year month : Int) : Int :=
  if month = 2 then (if isLeapYear year then 29 else 28)
  else if month = 4 ∨ month = 6 ∨ month = 9 ∨ month = 11 then 30
  else 31

/-- Whether a day exists. -/
def Date.exists (d : Date) : Bool :=
  1 ≤ d.month && d.month ≤ 12 && 1 ≤ d.day && d.day ≤ daysInMonth d.year d.month

/-- The number of the first of March of year zero. -/
def origin : Int := -719468

/-- The days before a month, in a year that begins with March as its month zero. -/
def daysBefore (month : Int) : Int :=
  (153 * month + 2) / 5

/-- The number of a day. -/
def Date.dayNumber (d : Date) : Int :=
  let year := if d.month ≤ 2 then d.year - 1 else d.year
  let month := if d.month ≤ 2 then d.month + 9 else d.month - 3
  origin + 146097 * (year / 400) + 36524 * (year % 400 / 100) + 1461 * (year % 100 / 4) +
    365 * (year % 4) + daysBefore month + (d.day - 1)

/-- The day with a number. -/
def Date.ofDayNumber (n : Int) : Date :=
  let cycle := (n - origin) / 146097
  let inCycle := (n - origin) % 146097
  let century := min (inCycle / 36524) 3
  let inCentury := inCycle - 36524 * century
  let span := inCentury / 1461
  let inSpan := inCentury % 1461
  let yearOfSpan := min (inSpan / 365) 3
  let dayOfYear := inSpan - 365 * yearOfSpan
  let month := (5 * dayOfYear + 2) / 153
  let year := 400 * cycle + 100 * century + 4 * span + yearOfSpan
  { year := if month < 10 then year else year + 1
    month := if month < 10 then month + 3 else month - 9
    day := dayOfYear - daysBefore month + 1 }

end Dashboard.Calendar
