/-
  Dates and moments in the proleptic Gregorian calendar, and their text.

  * A `Date` is a count of days and a `Moment` a count of seconds with
    nanoseconds, both from the start of 1970, so every value is a valid one and
    the order is that of the counts.  `Date.civil` and `Date.ofCivil` convert to
    year, month and day.
  * A moment inside a leap second has a billion or more nanoseconds past the
    second before it.
-/
namespace RecordGraph

/-! ## Dates -/

/-- A day, as the number of days since 1970-01-01. -/
structure Date where
  days : Int
  deriving DecidableEq

/-- Year, month from 1 and day from 1.  The year before year 1 is year 0. -/
structure Civil where
  year : Int
  month : Nat
  day : Nat
  deriving DecidableEq

namespace Date

/-- The first day of 1970. -/
def epoch : Date := ⟨0⟩

/-- The days between the first of March of year 0 and the first day of 1970.
    Years are counted from March, so that the leap day is the last of its year. -/
def marchOffset : Int := 719468

/-- The days in 400 years. -/
def daysPerEra : Int := 146097

/-- The day with the given year, month and day. -/
def ofCivil (c : Civil) : Date :=
  let year := if c.month ≤ 2 then c.year - 1 else c.year
  let era := year.fdiv 400
  let yearOfEra := year - era * 400
  let month : Int := if c.month ≤ 2 then c.month + 9 else c.month - 3
  let dayOfYear := (153 * month + 2).fdiv 5 + c.day - 1
  let dayOfEra := yearOfEra * 365 + yearOfEra.fdiv 4 - yearOfEra.fdiv 100 + dayOfYear
  ⟨era * daysPerEra + dayOfEra - marchOffset⟩

/-- The year, month and day of a day. -/
def civil (d : Date) : Civil :=
  let z := d.days + marchOffset
  let era := z.fdiv daysPerEra
  let dayOfEra := z - era * daysPerEra
  let yearOfEra :=
    (dayOfEra - dayOfEra.fdiv 1460 + dayOfEra.fdiv 36524 - dayOfEra.fdiv 146096).fdiv 365
  let dayOfYear := dayOfEra - (365 * yearOfEra + yearOfEra.fdiv 4 - yearOfEra.fdiv 100)
  let month := (5 * dayOfYear + 2).fdiv 153
  let day := dayOfYear - (153 * month + 2).fdiv 5 + 1
  let year := yearOfEra + era * 400
  if month < 10 then ⟨year, (month + 3).toNat, day.toNat⟩
  else ⟨year + 1, (month - 9).toNat, day.toNat⟩

end Date

/-! ## Moments -/

/-- Seconds since the start of 1970 and nanoseconds past them. -/
structure Moment where
  seconds : Int
  nanos : Nat
  deriving DecidableEq

namespace Moment

/-- The start of 1970. -/
def epoch : Moment := ⟨0, 0⟩

/-- The nanoseconds of a second. -/
def perSecond : Nat := 1000000000

def date (m : Moment) : Date := ⟨m.seconds.fdiv 86400⟩

/-- The second of the day. -/
def secondOfDay (m : Moment) : Nat := (m.seconds.fmod 86400).toNat

/-- Earlier by seconds, then by nanoseconds. -/
def before (a b : Moment) : Bool :=
  a.seconds < b.seconds || (a.seconds == b.seconds && a.nanos < b.nanos)

/-- The moment `window` seconds earlier.  Leaving a leap second backwards ends
    in the second after it, forwards in the second before it. -/
def minusSeconds (m : Moment) (window : Int) : Moment :=
  if m.nanos < perSecond ∨ window = 0 then ⟨m.seconds - window, m.nanos⟩
  else if window < 0 then ⟨m.seconds - window, m.nanos - perSecond⟩
  else ⟨m.seconds + 1 - window, m.nanos - perSecond⟩

end Moment

/-! ## Text -/

/-- A natural number with zeros in front up to `width` digits. -/
def zeroPadded (width n : Nat) : String :=
  let digits := Nat.toDigits 10 n
  String.ofList (List.replicate (width - digits.length) '0' ++ digits)

/-- Four digits, and a sign outside the years 0 to 9999. -/
def yearText (year : Int) : String :=
  if 0 ≤ year ∧ year ≤ 9999 then zeroPadded 4 year.natAbs
  else (if year < 0 then "-" else "+") ++ zeroPadded 4 year.natAbs

def Date.text (d : Date) : String :=
  let c := d.civil
  yearText c.year ++ "-" ++ zeroPadded 2 c.month ++ "-" ++ zeroPadded 2 c.day

/-- The fraction of a second in as few of 0, 3, 6 or 9 digits as hold it. -/
def fractionText (nanos : Nat) : String :=
  if nanos = 0 then ""
  else if nanos % 1000000 = 0 then "." ++ zeroPadded 3 (nanos / 1000000)
  else if nanos % 1000 = 0 then "." ++ zeroPadded 6 (nanos / 1000)
  else "." ++ zeroPadded 9 nanos

namespace Moment

/-- Hours, minutes, seconds and fraction; a leap second is second 60. -/
def timeText (m : Moment) : String :=
  let s := m.secondOfDay
  let leap := perSecond ≤ m.nanos
  let second := s % 60 + (if leap then 1 else 0)
  let nanos := if leap then m.nanos - perSecond else m.nanos
  zeroPadded 2 (s / 3600) ++ ":" ++ zeroPadded 2 (s / 60 % 60) ++ ":" ++ zeroPadded 2 second ++
    fractionText nanos

/-- Date and time with a blank between them. -/
def localText (m : Moment) : String := m.date.text ++ " " ++ m.timeText

/-- Date, `T`, time and the offset zero. -/
def zonedText (m : Moment) : String := m.date.text ++ "T" ++ m.timeText ++ "+00:00"

end Moment

end RecordGraph
