/-!
# Instants

Moments in universal time by the Gregorian calendar, which is continued to the years before it was
in use. Days are counted from 1970-01-01.
-/

namespace WereraChess

structure Date where
  year : Int
  month : Nat
  day : Nat
  deriving DecidableEq

namespace Date

def isLeapYear (year : Int) : Bool := year % 4 = 0 && (year % 100 ≠ 0 || year % 400 = 0)

def daysIn (year : Int) (month : Nat) : Nat :=
  match month with
  | 2 => if isLeapYear year then 29 else 28
  | 4 | 6 | 9 | 11 => 30
  | 1 | 3 | 5 | 7 | 8 | 10 | 12 => 31
  | _ => 0

def isValid (d : Date) : Bool := 1 ≤ d.day && d.day ≤ daysIn d.year d.month

/-- The day's number. The year is taken to begin in March, so that the leap day comes last; 719468
days separate March of the year 0 from January 1970. -/
def toDays (d : Date) : Int :=
  let year := if d.month ≤ 2 then d.year - 1 else d.year
  let month : Int := if d.month ≤ 2 then d.month + 9 else d.month - 3
  365 * year + year / 4 - year / 100 + year / 400 + (153 * month + 2) / 5 + d.day - 1 - 719468

/-- The date of the day with the given number. 146097 days make 400 years. -/
def ofDays (days : Int) : Date :=
  let era := (days + 719468) / 146097
  let dayOfEra := (days + 719468) % 146097
  let yearOfEra := (dayOfEra - dayOfEra / 1460 + dayOfEra / 36524 - dayOfEra / 146096) / 365
  let dayOfYear := dayOfEra - (365 * yearOfEra + yearOfEra / 4 - yearOfEra / 100)
  let month := (5 * dayOfYear + 2) / 153
  let day := dayOfYear - (153 * month + 2) / 5 + 1
  let year := 400 * era + yearOfEra
  if month < 10 then ⟨year, (month + 3).toNat, day.toNat⟩
  else ⟨year + 1, (month - 9).toNat, day.toNat⟩

end Date

/-- Seconds since the beginning of 1970, leap seconds not counted, and nanoseconds within the
second; from a thousand million on they lie in the leap second that follows it. -/
structure Instant where
  seconds : Int
  nanos : Nat
  deriving DecidableEq

namespace Instant

def ofMillis (millis : Nat) : Instant := ⟨(millis / 1000 : Nat), millis % 1000 * 1000000⟩

/-- The milliseconds since the beginning of 1970; none before it. -/
def millis (t : Instant) : UInt64 :=
  (t.seconds * 1000 + (t.nanos / 1000000 : Nat)).toNat.toUInt64

def date (t : Instant) : Date := Date.ofDays (t.seconds / 86400)

def secondOfDay (t : Instant) : Nat := (t.seconds % 86400).toNat

end Instant

end WereraChess
