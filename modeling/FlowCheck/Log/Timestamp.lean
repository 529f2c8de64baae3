/-!
# Timestamps

A point in time as text: the civil date and the time of day, in the universal time zone, with
microseconds unless they are zero.
-/

namespace FlowCheck.Log

/-- A civil date. -/
structure Date where
  /-- The year. -/
  year : Int
  /-- The month, from one on. -/
  month : Nat
  /-- The day of the month, from one on. -/
  day : Nat
  deriving DecidableEq, Repr

/-- The civil date so many days behind the first of January 1970.  Years are counted from March, so
that a leap day ends its year, in eras of four hundred years. -/
def Date.ofDays (days : Int) : Date :=
  let shifted := days + 719468
  let era := Int.fdiv shifted 146097
  let dayOfEra := (shifted - era * 146097).toNat
  let yearOfEra := (dayOfEra - dayOfEra / 1460 + dayOfEra / 36524 - dayOfEra / 146096) / 365
  let dayOfYear := dayOfEra - (365 * yearOfEra + yearOfEra / 4 - yearOfEra / 100)
  let shiftedMonth := (5 * dayOfYear + 2) / 153
  let month := if shiftedMonth < 10 then shiftedMonth + 3 else shiftedMonth - 9
  { year := (yearOfEra : Int) + era * 400 + (if month ≤ 2 then 1 else 0)
    month := month
    day := dayOfYear - (153 * shiftedMonth + 2) / 5 + 1 }

/-- A number with zeros in front to a width. -/
def zeroPadded (width n : Nat) : String :=
  let digits := Nat.toDigits 10 n
  String.ofList (List.replicate (width - digits.length) '0' ++ digits)

/-- The text of a point in time, given in microseconds since the start of 1970. -/
def timestamp (microseconds : Int) : String :=
  let seconds := Int.fdiv microseconds 1000000
  let fraction := (microseconds - seconds * 1000000).toNat
  let days := Int.fdiv seconds 86400
  let second := (seconds - days * 86400).toNat
  let date := Date.ofDays days
  zeroPadded 4 date.year.toNat ++ "-" ++ zeroPadded 2 date.month ++ "-" ++ zeroPadded 2 date.day
    ++ "T" ++ zeroPadded 2 (second / 3600) ++ ":" ++ zeroPadded 2 (second / 60 % 60)
    ++ ":" ++ zeroPadded 2 (second % 60)
    ++ (if fraction = 0 then "" else "." ++ zeroPadded 6 fraction) ++ "+00:00"

end FlowCheck.Log
