/-!
# Calendar dates

Dates of the Gregorian calendar, extended without limit before its introduction, in the range of
years that timestamps can hold. A date is its year, month and day and carries the proof that they
name a day, so comparing dates is comparing the three in turn. Moving by days goes through the
count of days since 1970-01-01.
-/

namespace FactorStudy

/-- Whether a year has a 29th of February. -/
def isLeapYear (year : Int) : Bool := year % 4 == 0 && (year % 100 != 0 || year % 400 == 0)

/-- The number of days in a month. -/
def daysInMonth (year : Int) (month : Nat) : Nat :=
  match month with
  | 2 => if isLeapYear year then 29 else 28
  | 4 | 6 | 9 | 11 => 30
  | _ => 31

/-- The first and the last year a date can have. -/
def firstYear : Int := -262143
def lastYear : Int := 262142

/-- A day of the calendar. -/
structure Date where
  year : Int
  month : Nat
  day : Nat
  year_mem : firstYear ≤ year ∧ year ≤ lastYear
  month_mem : 1 ≤ month ∧ month ≤ 12
  day_mem : 1 ≤ day ∧ day ≤ daysInMonth year month
deriving DecidableEq

theorem daysInMonth_le (year : Int) (month : Nat) : daysInMonth year month ≤ 31 := by
  unfold daysInMonth
  split
  · split <;> decide
  all_goals decide

namespace Date

/-- The day with the given year, month and day of the month, if there is one. -/
def of? (year : Int) (month day : Nat) : Option Date :=
  if h : (firstYear ≤ year ∧ year ≤ lastYear) ∧ (1 ≤ month ∧ month ≤ 12)
      ∧ (1 ≤ day ∧ day ≤ daysInMonth year month) then
    some ⟨year, month, day, h.1, h.2.1, h.2.2⟩
  else none

/-- The days from 1970-01-01 to a date. Years are counted from March, so that the leap day is the
last day of its year. -/
def dayNumber (d : Date) : Int :=
  let y := if d.month ≤ 2 then d.year - 1 else d.year
  let m : Int := if d.month ≤ 2 then d.month + 9 else (d.month : Int) - 3
  let inYear := (153 * m + 2) / 5 + (d.day : Int) - 1
  365 * y + y.fdiv 4 - y.fdiv 100 + y.fdiv 400 + inYear - 719468

/-- The date that many days after 1970-01-01, if it is in range. A cycle of 400 years has 146097
days. -/
def ofDayNumber? (n : Int) : Option Date :=
  let z := n + 719468
  let cycle := z.fdiv 146097
  let inCycle := (z.fmod 146097).toNat
  let yearOfCycle := (inCycle - inCycle / 1460 + inCycle / 36524 - inCycle / 146096) / 365
  let inYear := inCycle - (365 * yearOfCycle + yearOfCycle / 4 - yearOfCycle / 100)
  let m := (5 * inYear + 2) / 153
  let day := inYear - (153 * m + 2) / 5 + 1
  let month := if m < 10 then m + 3 else m - 9
  let year := cycle * 400 + (yearOfCycle : Int) + (if month ≤ 2 then 1 else 0)
  of? year month day

/-- The date that many days later. -/
def addDays? (d : Date) (days : Int) : Option Date := ofDayNumber? (d.dayNumber + days)

/-- A number that grows with the date: year, month and day in turn. -/
def key (d : Date) : Int := (d.year * 16 + (d.month : Int)) * 32 + (d.day : Int)

end Date

end FactorStudy
