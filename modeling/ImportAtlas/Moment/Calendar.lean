/-!
# The calendar

Dates of the Gregorian calendar as numbers of days since 1 January of year 1. A number of days is
turned back into a date by walking through the years of a 400-year cycle and then its months.
-/

namespace ImportAtlas

/-- A date. Months and days count from one. -/
structure Date where
  year : Nat
  month : Nat
  day : Nat
  deriving DecidableEq, Repr

namespace Date

def isLeap (year : Nat) : Bool := year % 4 == 0 && (year % 100 != 0 || year % 400 == 0)

def yearLength (year : Nat) : Nat := if isLeap year then 366 else 365

def monthLengths (year : Nat) : List Nat :=
  [31, if isLeap year then 29 else 28, 31, 30, 31, 30, 31, 31, 30, 31, 30, 31]

def monthLength (year month : Nat) : Nat := ((monthLengths year)[month - 1]?).getD 0

/-- Whether the date exists, in the years 1 to 9999. -/
def exists? (d : Date) : Bool :=
  1 ≤ d.year && d.year ≤ 9999 && 1 ≤ d.month && d.month ≤ 12 && 1 ≤ d.day &&
    d.day ≤ monthLength d.year d.month

def daysBeforeYear (year : Nat) : Nat :=
  let y := year - 1
  365 * y + y / 4 - y / 100 + y / 400

/-- The number of days before a date since 1 January of year 1. -/
def dayNumber (d : Date) : Nat :=
  daysBeforeYear d.year + ((monthLengths d.year).take (d.month - 1)).foldr (· + ·) 0 + (d.day - 1)

/-- Walks through whole years as long as the days last. -/
def walkYears : Nat → Nat → Nat → Nat × Nat
  | 0, year, days => (year, days)
  | fuel + 1, year, days =>
    if days < yearLength year then (year, days)
    else walkYears fuel (year + 1) (days - yearLength year)

def walkMonths : List Nat → Nat → Nat → Nat × Nat
  | [], month, days => (month, days)
  | n :: ns, month, days =>
    if days < n then (month, days) else walkMonths ns (month + 1) (days - n)

/-- The days of 400 years. -/
def cycleDays : Nat := 146097

/-- The date with the given number of days before it. -/
def ofDayNumber (n : Nat) : Date :=
  let (year, days) := walkYears 400 (400 * (n / cycleDays) + 1) (n % cycleDays)
  let (month, day) := walkMonths (monthLengths year) 1 days
  ⟨year, month, day + 1⟩

/-- The day of the week; Monday is zero. -/
def weekday (d : Date) : Nat := d.dayNumber % 7

/-- The Monday of the first week of a year: the week with its first Thursday. It may lie in the
last days of the year before. -/
def firstMonday (year : Nat) : Int :=
  let first := dayNumber ⟨year, 1, 1⟩
  let w : Int := first % 7
  if w ≤ 3 then first - w else first - w + 7

/-- Whether the year has 53 weeks. -/
def hasLongWeeks (year : Nat) : Bool :=
  let w := weekday ⟨year, 1, 1⟩
  w == 3 || (w == 2 && isLeap year)

def ofWeek? (year week day : Nat) : Option Date :=
  if 1 ≤ year && year ≤ 9999 && 1 ≤ week && 1 ≤ day && day ≤ 7 &&
      (week ≤ 52 || (week == 53 && hasLongWeeks year)) then
    some (ofDayNumber (firstMonday year + ((week - 1) * 7 + day - 1 : Nat)).toNat)
  else none

end Date

end ImportAtlas
