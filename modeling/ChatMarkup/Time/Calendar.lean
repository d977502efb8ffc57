/-!
# The calendar

Days of the Gregorian calendar, extended to all years, and the number of days from 1970-01-01.
-/

namespace ChatMarkup

/-- A day of the Gregorian calendar. -/
structure Day where
  year : Int
  month : Nat
  day : Nat
deriving DecidableEq, Repr

namespace Day

/-- Whether a year has a 29th of February. -/
def isLeapYear (year : Int) : Bool :=
  year % 4 = 0 && (year % 100 ≠ 0 || year % 400 = 0)

/-- The number of days of a month. -/
def monthLength (year : Int) (month : Nat) : Nat :=
  if month = 2 then if isLeapYear year then 29 else 28
  else if month = 4 || month = 6 || month = 9 || month = 11 then 30
  else 31

/-- Whether the calendar has the day. -/
def isValid (day : Day) : Bool :=
  1 ≤ day.month && day.month ≤ 12 && 1 ≤ day.day && day.day ≤ monthLength day.year day.month

/-- The number of days in 400 years. -/
def eraLength : Int := 146097

/-- The days from the 1st of March of the year 0 to 1970-01-01. -/
def epoch : Int := 719468

/-- The days from the 1st of March of a year to the first of a month, counted from March. -/
def daysBeforeMonth (monthFromMarch : Int) : Int :=
  (153 * monthFromMarch + 2) / 5

/-- The days from the 1st of March of the year 0 to that of another year, within 400 years. -/
def daysBeforeYear (yearOfEra : Int) : Int :=
  365 * yearOfEra + yearOfEra / 4 - yearOfEra / 100

/-- The number of days from 1970-01-01 to a day. -/
def toNumber (day : Day) : Int :=
  let year := if day.month ≤ 2 then day.year - 1 else day.year
  let monthFromMarch : Int := ((day.month + 9) % 12 : Nat)
  year / 400 * eraLength + daysBeforeYear (year % 400) + daysBeforeMonth monthFromMarch
    + (day.day - 1) - epoch

/-- The day that comes a number of days after 1970-01-01. -/
def ofNumber (number : Int) : Day :=
  let fromMarch := number + epoch
  let era := fromMarch / eraLength
  let dayOfEra := fromMarch % eraLength
  let yearOfEra :=
    (dayOfEra - dayOfEra / 1460 + dayOfEra / 36524 - dayOfEra / 146096) / 365
  let dayOfYear := dayOfEra - daysBeforeYear yearOfEra
  let monthFromMarch := (5 * dayOfYear + 2) / 153
  let month := if monthFromMarch < 10 then monthFromMarch + 3 else monthFromMarch - 9
  { year := yearOfEra + era * 400 + (if month ≤ 2 then 1 else 0)
    month := month.toNat
    day := (dayOfYear - daysBeforeMonth monthFromMarch + 1).toNat }

end Day

end ChatMarkup
