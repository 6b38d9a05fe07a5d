/-! # The calendar

Dates of the proleptic Gregorian calendar, counted in days from the first of January of year one. A year
has 366 days if it is divisible by four, unless it is divisible by a hundred but not by four hundred. -/

namespace PodPlacement

/-- A day of the calendar; years, months and days of a month count from one. -/
structure Date where
  /-- The year. -/
  year : Nat
  /-- The month of the year. -/
  month : Nat
  /-- The day of the month. -/
  day : Nat
deriving DecidableEq

namespace Calendar

/-- The year has 366 days. -/
def isLeapYear (year : Nat) : Bool := year % 4 == 0 && (year % 100 != 0 || year % 400 == 0)

/-- How many days lie before the first day of a year. -/
def daysBefore (year : Nat) : Nat :=
  365 * (year - 1) + (year - 1) / 4 - (year - 1) / 100 + (year - 1) / 400

/-- How many days the months of a year have. -/
def monthLengths (year : Nat) : List Nat :=
  [31, if isLeapYear year then 29 else 28, 31, 30, 31, 30, 31, 31, 30, 31, 30, 31]

/-- The year of a day. Four hundred years have 146097 days, and a year counted by their mean length is
off by one at most. -/
def yearOf (day : Nat) : Nat :=
  let guess := day * 400 / 146097 + 1
  if day < daysBefore guess then guess - 1
  else if daysBefore (guess + 1) ≤ day then guess + 1
  else guess

/-- The month a day of a year falls in, from a month on whose first day is counted zero, and the days of
that month before it. -/
def splitMonths (month : Nat) : (lengths : List Nat) → (day : Nat) → Nat × Nat
  | [], day => (month, day)
  | length :: lengths, day =>
    if day < length then (month, day) else splitMonths (month + 1) lengths (day - length)

/-- The year of a day begins on or before it. -/
theorem daysBefore_yearOf_le (day : Nat) : daysBefore (yearOf day) ≤ day := by
  unfold yearOf daysBefore
  grind

/-- The year after that of a day begins after it. -/
theorem lt_daysBefore_yearOf_succ (day : Nat) : day < daysBefore (yearOf day + 1) := by
  unfold yearOf daysBefore
  grind

end Calendar

/-- The date that is `day` days after the first one. -/
def Date.ofDay (day : Nat) : Date :=
  let year := Calendar.yearOf day
  let (month, before) := Calendar.splitMonths 1 (Calendar.monthLengths year) (day - Calendar.daysBefore year)
  ⟨year, month, before + 1⟩

end PodPlacement
