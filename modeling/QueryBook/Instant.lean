import QueryBook.Text.Decimal

/-!
Points in time, and the database's own measure of them: microseconds since the start of the year
2000. Times are printed by the proleptic Gregorian calendar in UTC.
-/

namespace QueryBook

/-- A point in time: seconds since the start of 1970 in UTC, and the nanoseconds after them, which
count forward also before 1970. -/
structure Instant where
  seconds : Int
  nanos : Nat
  nanos_lt : nanos < 1000000000
  deriving DecidableEq, Repr

namespace Instant

/-- The start of 2000, in seconds since the start of 1970. -/
def epoch2000 : Int := 946684800

/-- The start of 1970. -/
def unixEpoch : Instant := ⟨0, 0, by decide⟩

instance : Inhabited Instant := ⟨unixEpoch⟩

/-- The point in time with the given seconds and nanoseconds; whole seconds among the nanoseconds
are carried over. -/
def ofParts (seconds : Int) (nanos : Nat) : Instant where
  seconds := seconds + (nanos / 1000000000 : Nat)
  nanos := nanos % 1000000000
  nanos_lt := Nat.mod_lt _ (by decide)

/-- Nanoseconds since the start of 2000. -/
def nanosSince2000 (t : Instant) : Int :=
  (t.seconds - epoch2000) * 1000000000 + t.nanos

/-- Microseconds since the start of 2000; what is left over is cut off towards the year 2000. -/
def micros (t : Instant) : Int :=
  t.nanosSince2000.tdiv 1000

/-- The first and the last second that a calendar date can be given for: the years from -262143 to
262142. -/
def firstSecond : Int := -8334601228800

def lastSecond : Int := 8210266876799

def inRange (t : Instant) : Bool :=
  firstSecond ≤ t.seconds && t.seconds ≤ lastSecond

/-- The point in time so many microseconds after the start of 2000. -/
def ofMicros (n : Int) : Instant where
  seconds := epoch2000 + n.fdiv 1000000
  nanos := (n.fmod 1000000).toNat * 1000
  nanos_lt := by
    have h := Int.fmod_lt_of_pos n (show (0 : Int) < 1000000 by decide)
    omega

/-- The point in time so many microseconds after the start of 2000, if a date can be given for
it. -/
def ofMicros? (n : Int) : Option Instant :=
  if (ofMicros n).inRange then some (ofMicros n) else none

end Instant

/-! ## Calendar -/

/-- A day of the proleptic Gregorian calendar. -/
structure CalendarDay where
  year : Int
  month : Nat
  day : Nat
  deriving DecidableEq, Repr

/-- The day so many days after the first of January 1970. Years are counted from the first of
March, so that the leap day is the last day of its year, and in eras of 400 years, which all have
146097 days. -/
def CalendarDay.ofDays (days : Int) : CalendarDay :=
  let shifted := days + 719468
  let era := shifted.fdiv 146097
  let dayOfEra := (shifted.fmod 146097).toNat
  let yearOfEra := (dayOfEra - dayOfEra / 1460 + dayOfEra / 36524 - dayOfEra / 146096) / 365
  let dayOfYear := dayOfEra - (365 * yearOfEra + yearOfEra / 4 - yearOfEra / 100)
  let monthFromMarch := (5 * dayOfYear + 2) / 153
  let month := if monthFromMarch < 10 then monthFromMarch + 3 else monthFromMarch - 9
  { year := era * 400 + yearOfEra + (if month ≤ 2 then 1 else 0)
    month := month
    day := dayOfYear - (153 * monthFromMarch + 2) / 5 + 1 }

open Text.Decimal (padded)

/-- A year has at least four digits, and a sign unless it has just four. -/
def yearText (year : Int) : String :=
  if year < 0 then "-" ++ padded 4 year.natAbs
  else if year ≤ 9999 then padded 4 year.natAbs
  else "+" ++ padded 4 year.natAbs

/-- A point in time to the second, such as `2024-02-29 23:59:59 UTC`. -/
def Instant.text (t : Instant) : String :=
  let date := CalendarDay.ofDays (t.seconds.fdiv 86400)
  let second := (t.seconds.fmod 86400).toNat
  yearText date.year ++ "-" ++ padded 2 date.month ++ "-" ++ padded 2 date.day ++ " " ++
    padded 2 (second / 3600) ++ ":" ++ padded 2 (second / 60 % 60) ++ ":" ++
    padded 2 (second % 60) ++ " UTC"

end QueryBook
