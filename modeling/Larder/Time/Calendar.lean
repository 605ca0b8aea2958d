import Larder.Time.Instant

/-! Points in time as calendar dates: years of the proleptic Gregorian calendar, in UTC. A date
is found from its day number by years that begin in March, which puts the leap day last, in
periods of 400 years, all of the same length. -/

namespace Larder

structure Date where
  year : Int
  month : Nat
  day : Nat
  deriving DecidableEq, Repr

namespace Date

/-- Days in 400 years. -/
def period : Nat := 146097

/-- The year within a period that a day of the period falls into, and the day within it. -/
def yearOfPeriod (day : Nat) : Nat × Nat :=
  let year := (day - day / 1460 + day / 36524 - day / 146096) / 365
  (year, day - (365 * year + year / 4 - year / 100))

/-- Months are counted from March; five of them in a row always have 153 days. -/
def ofDayOfYear (year : Int) (day : Nat) : Date :=
  let month := (5 * day + 2) / 153
  let dayOfMonth := day - (153 * month + 2) / 5 + 1
  if month < 10 then ⟨year, month + 3, dayOfMonth⟩ else ⟨year + 1, month - 9, dayOfMonth⟩

/-- The date that lies this many days after the first of January 1970. -/
def ofDays (days : Int) : Date :=
  let shifted := days + 719468
  let (year, day) := yearOfPeriod (shifted % period).toNat
  ofDayOfYear (year + 400 * (shifted / period)) day

end Date

namespace Calendar

/-- A number with zeros in front up to a width. -/
def padded (width n : Nat) : List Char :=
  let digits := Nat.toDigits 10 n
  List.replicate (width - digits.length) '0' ++ digits

/-- Four digits; a year that needs more has a sign. -/
def yearText (year : Int) : List Char :=
  if 0 ≤ year then (if 9999 < year then ['+'] else []) ++ padded 4 year.toNat
  else '-' :: padded 4 (-year).toNat

/-- The fewest of 0, 3, 6 and 9 digits that show the nanoseconds of a second. -/
def fractionText (nanos : Nat) : List Char :=
  if nanos = 0 then []
  else if nanos % 1000000 = 0 then '.' :: padded 3 (nanos / 1000000)
  else if nanos % 1000 = 0 then '.' :: padded 6 (nanos / 1000)
  else '.' :: padded 9 nanos

end Calendar

/-- Date, time of day and the offset zero. -/
def Instant.text (t : Instant) : String :=
  let seconds := t.nanos / 1000000000
  let nanos := (t.nanos % 1000000000).toNat
  let date := Date.ofDays (seconds / 86400)
  let s := (seconds % 86400).toNat
  String.ofList <|
    Calendar.yearText date.year ++ '-' :: Calendar.padded 2 date.month
      ++ '-' :: Calendar.padded 2 date.day
      ++ 'T' :: Calendar.padded 2 (s / 3600)
      ++ ':' :: Calendar.padded 2 (s / 60 % 60)
      ++ ':' :: Calendar.padded 2 (s % 60)
      ++ Calendar.fractionText nanos
      ++ "+00:00".toList

end Larder
