namespace ReadingBench

namespace Calendar

/-- Every fourth year is a leap year, of the centuries every fourth. -/
def isLeap (year : Int) : Bool := year % 4 = 0 ∧ (year % 100 ≠ 0 ∨ year % 400 = 0)

def daysInMonth (year : Int) (month : Nat) : Nat :=
  if month = 2 then if isLeap year then 29 else 28
  else if month = 4 ∨ month = 6 ∨ month = 9 ∨ month = 11 then 30
  else 31

/-- Days from 1 January of year 1 to 1 January of `year`. -/
def daysBeforeYear (year : Int) : Int :=
  let past := year - 1
  365 * past + past / 4 - past / 100 + past / 400

/-- Days from 1 January to the first of `month`. -/
def daysBeforeMonth (year : Int) : Nat → Nat
  | 0 | 1 => 0
  | month + 1 => daysBeforeMonth year month + daysInMonth year month

def firstYear : Int := -262143

def lastYear : Int := 262142

end Calendar

open Calendar

/-- A day of the proleptic Gregorian calendar that exists, in a year of the calendar's range. -/
structure Date where
  year : Int
  month : Nat
  day : Nat
  year_ge : firstYear ≤ year
  year_le : year ≤ lastYear
  month_pos : 1 ≤ month
  month_le : month ≤ 12
  day_pos : 1 ≤ day
  day_le : day ≤ daysInMonth year month
  deriving DecidableEq

namespace Date

def ofParts? (year : Int) (month day : Nat) : Option Date :=
  if h : (firstYear ≤ year ∧ year ≤ lastYear) ∧ (1 ≤ month ∧ month ≤ 12) ∧
      1 ≤ day ∧ day ≤ daysInMonth year month then
    some ⟨year, month, day, h.1.1, h.1.2, h.2.1.1, h.2.1.2, h.2.2.1, h.2.2.2⟩
  else none

def dayOfYear (d : Date) : Nat := daysBeforeMonth d.year d.month + d.day

/-- Days since 1 January of year 1, which was a Monday. -/
def dayNumber (d : Date) : Int := daysBeforeYear d.year + (d.dayOfYear - 1 : Nat)

/-- Dates are ordered in time. -/
instance : LE Date := ⟨fun a b => a.dayNumber ≤ b.dayNumber⟩

instance : LT Date := ⟨fun a b => a.dayNumber < b.dayNumber⟩

instance (a b : Date) : Decidable (a ≤ b) := inferInstanceAs (Decidable (a.dayNumber ≤ b.dayNumber))

instance (a b : Date) : Decidable (a < b) := inferInstanceAs (Decidable (a.dayNumber < b.dayNumber))

/-- The year that holds day number `n`. The quotient by the mean length of a year is off by at most
one. -/
def yearOf (n : Int) : Int :=
  let guess := n * 400 / 146097 + 1
  if n < daysBeforeYear guess then guess - 1
  else if daysBeforeYear (guess + 1) ≤ n then guess + 1
  else guess

/-- The month that holds the day with `past` days of the year before it. -/
def monthOf (year : Int) (past : Nat) : Nat :=
  1 + [2, 3, 4, 5, 6, 7, 8, 9, 10, 11, 12].countP fun month => daysBeforeMonth year month ≤ past

/-- The date of a day number, when it is in the calendar's range. -/
def ofDayNumber? (n : Int) : Option Date :=
  let year := yearOf n
  let past := (n - daysBeforeYear year).toNat
  let month := monthOf year past
  ofParts? year month (past - daysBeforeMonth year month + 1)

/-- The date `days` later, or earlier when negative. -/
def addDays? (d : Date) (days : Int) : Option Date := ofDayNumber? (d.dayNumber + days)

/-- Days since Monday. -/
def weekday (d : Date) : Nat := (d.dayNumber % 7).toNat

end Date
end ReadingBench
