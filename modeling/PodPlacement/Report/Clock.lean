import PodPlacement.Calendar
import PodPlacement.Ledger
import PodPlacement.Number.Style

/-! # Instants in reports

An instant is shown as the date and time of day it would be if the simulation had started with the first
day of year one. Fractions of a second are dropped. An instant beyond the last date is shown in
seconds. -/

namespace PodPlacement.Report

/-- The last year that is shown. -/
def lastYear : Nat := 262142

/-- The most milliseconds that are counted. -/
def mostMilliseconds : Nat := 2 ^ 63 - 1

/-- The whole seconds of an instant, taken from its milliseconds; an instant before the start is at
the start. -/
def wholeSeconds (t : Seconds) : Nat := (t.maxNum 0 * 1000).toNatUpTo mostMilliseconds / 1000

/-- The digits of a number, with zeros in front of it up to a width. -/
def zeroPadded (width n : Nat) : String :=
  let digits := Nat.toDigits 10 n
  String.ofList (List.replicate (width - digits.length) '0' ++ digits)

/-- A year; one of more than four digits has a sign. -/
def year (n : Nat) : String := if n ≤ 9999 then zeroPadded 4 n else "+" ++ toString n

/-- A date. -/
def date (d : Date) : String := year d.year ++ "-" ++ zeroPadded 2 d.month ++ "-" ++ zeroPadded 2 d.day

/-- The time of the day, so many seconds after midnight. -/
def timeOfDay (seconds : Nat) : String :=
  zeroPadded 2 (seconds / 3600) ++ ":" ++ zeroPadded 2 (seconds / 60 % 60) ++ ":" ++
    zeroPadded 2 (seconds % 60)

/-- An instant as a date and a time of day. -/
def clock (t : Seconds) : String :=
  let seconds := wholeSeconds t
  -- A day has 86400 seconds; there are no leap seconds.
  let d := Date.ofDay (seconds / 86400)
  if d.year ≤ lastYear then date d ++ " " ++ timeOfDay (seconds % 86400) else t.fixed 0 ++ "s"

end PodPlacement.Report
