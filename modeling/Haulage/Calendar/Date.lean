/-
# Dates

A date of the Gregorian calendar between the years 1 and 9999, and the facts a formula asks of it:
its weekday, its month and its quarter. Dates are counted by their **ordinal**, which is 1 for the
first of January of the year 1, a Monday.
-/

namespace Haulage

/-- Has the year a 29th of February? -/
def isLeapYear (year : Nat) : Bool := year % 4 == 0 && (year % 100 != 0 || year % 400 == 0)

/-- The number of days of a month; none for a number that is no month. -/
def daysInMonth (year month : Nat) : Nat :=
  match month with
  | 2 => if isLeapYear year then 29 else 28
  | 4 | 6 | 9 | 11 => 30
  | 1 | 3 | 5 | 7 | 8 | 10 | 12 => 31
  | _ => 0

/-- The number of days in the years before a year. -/
def daysBeforeYear (year : Nat) : Nat :=
  let y := year - 1
  y * 365 + y / 4 - y / 100 + y / 400

/-- The number of days of a year in the months before a month. -/
def daysBeforeMonth (year : Nat) : Nat → Nat
  | 0 => 0
  | 1 => 0
  | month + 1 => daysBeforeMonth year month + daysInMonth year month

/-- A date. -/
structure Date where
  year : Nat
  month : Nat
  day : Nat
  year_pos : 1 ≤ year
  year_le : year ≤ 9999
  month_pos : 1 ≤ month
  month_le : month ≤ 12
  day_pos : 1 ≤ day
  day_le : day ≤ daysInMonth year month
deriving DecidableEq

namespace Date

/-- The date with these numbers, if there is one. -/
def ofParts? (year month day : Nat) : Option Date :=
  if h : 1 ≤ year ∧ year ≤ 9999 ∧ 1 ≤ month ∧ month ≤ 12 ∧
      1 ≤ day ∧ day ≤ daysInMonth year month then
    some ⟨year, month, day, h.1, h.2.1, h.2.2.1, h.2.2.2.1, h.2.2.2.2.1, h.2.2.2.2.2⟩
  else none

/-- The number of days from the first of January of the year 1 to the date, both counted. -/
def ordinal (d : Date) : Nat := daysBeforeYear d.year + daysBeforeMonth d.year d.month + d.day

/-- The month of a year that a day of the year falls in, and its day there, looking from `month`
on. -/
def findMonth? (year : Nat) : (months month day : Nat) → Option Date
  | 0, _, _ => none
  | months + 1, month, day =>
    if day ≤ daysInMonth year month then ofParts? year month day
    else findMonth? year months (month + 1) (day - daysInMonth year month)

/-- The date with an ordinal, if there is one. -/
def ofOrdinal? (n : Nat) : Option Date :=
  let guess := n * 400 / 146097 + 1
  let year :=
    if n ≤ daysBeforeYear guess then guess - 1
    else if n ≤ daysBeforeYear (guess + 1) then guess
    else guess + 1
  findMonth? year 12 1 (n - daysBeforeYear year)

/-- The day after, if the calendar goes on. -/
def next? (d : Date) : Option Date := ofOrdinal? (d.ordinal + 1)

/-- The day before, if the calendar goes back. -/
def previous? (d : Date) : Option Date := ofOrdinal? (d.ordinal - 1)

/-- The day of the week, from 0 for Sunday to 6 for Saturday. -/
def weekday (d : Date) : Nat := d.ordinal % 7

/-- The quarter of the year, from 1 to 4. -/
def quarter (d : Date) : Nat := (d.month + 2) / 3

/-- Does the date fall on a Saturday or a Sunday? -/
def isWeekend (d : Date) : Bool := d.weekday == 0 || d.weekday == 6

/-- A weekday is one of seven. -/
theorem weekday_lt (d : Date) : d.weekday < 7 := Nat.mod_lt _ (by decide)

/-- A quarter is one of four. -/
theorem quarter_bounds (d : Date) : 1 ≤ d.quarter ∧ d.quarter ≤ 4 := by
  have h₁ := d.month_pos
  have h₂ := d.month_le
  simp only [quarter]
  omega

end Date

end Haulage
