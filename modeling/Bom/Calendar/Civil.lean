/-!
# Dates of the Gregorian calendar

A date is a year, a month and a day, in the Gregorian calendar carried back before its introduction,
with a year zero. Days are counted from the first of January 1970.

Years are taken to begin in March, so that the leap day is their last day. Four hundred years, an
era, have 146097 days.

* `dayNumber`: the count of a date.
* `Civil.ofDayNumber`: the date with a given count.
* `daysInMonth`: how many days a month has.
-/

namespace Bom

/-- A date. -/
structure Civil where
  year : Int
  month : Nat
  day : Nat
  deriving DecidableEq, Repr

/-- Every fourth year is a leap year, but of the full centuries only every fourth. -/
def isLeapYear (year : Int) : Bool :=
  year % 4 == 0 && (year % 100 != 0 || year % 400 == 0)

/-- The number of days in a month, none for a number that is no month. -/
def daysInMonth (year : Int) (month : Nat) : Nat :=
  if month = 2 then (if isLeapYear year then 29 else 28)
  else if month ∈ [4, 6, 9, 11] then 30
  else if 1 ≤ month ∧ month ≤ 12 then 31
  else 0

namespace Civil

/-- The month and the day exist in the year. -/
def isValid (c : Civil) : Bool :=
  1 ≤ c.day && c.day ≤ daysInMonth c.year c.month

/-- The days from the first of March to the first day of the month that is `shifted` months later.
-/
def daysBeforeMonth (shifted : Int) : Int :=
  (153 * shifted + 2) / 5

/-- The days from the first of January 1970 to the date. -/
def dayNumber (c : Civil) : Int :=
  let year := if c.month ≤ 2 then c.year - 1 else c.year
  let shifted : Int := if c.month ≤ 2 then c.month + 9 else c.month - 3
  let era := year / 400
  let yearOfEra := year % 400
  let dayOfYear := daysBeforeMonth shifted + c.day - 1
  let dayOfEra := yearOfEra * 365 + yearOfEra / 4 - yearOfEra / 100 + dayOfYear
  era * 146097 + dayOfEra - 719468

/-- The date that is the given number of days after the first of January 1970. -/
def ofDayNumber (n : Int) : Civil :=
  let shiftedDay := n + 719468
  let era := shiftedDay / 146097
  let dayOfEra := shiftedDay % 146097
  let yearOfEra := (dayOfEra - dayOfEra / 1460 + dayOfEra / 36524 - dayOfEra / 146096) / 365
  let dayOfYear := dayOfEra - (365 * yearOfEra + yearOfEra / 4 - yearOfEra / 100)
  let shifted := (5 * dayOfYear + 2) / 153
  let day := dayOfYear - daysBeforeMonth shifted + 1
  let month := if shifted < 10 then shifted + 3 else shifted - 9
  let year := yearOfEra + era * 400
  ⟨if month ≤ 2 then year + 1 else year, month.toNat, day.toNat⟩

end Civil

end Bom
