/-!
# Days and points in time

A day of the calendar, alone or with a time of day and the distance of its clock from the common one.
Days and times that no calendar or clock shows are refused.
-/

namespace FlowCheck

/-- A day of the calendar. -/
structure Day where
  year : Nat
  month : Nat
  day : Nat
  deriving DecidableEq

/-- A time of day. -/
structure DayTime where
  hour : Nat
  minute : Nat
  second : Nat
  microsecond : Nat
  /-- How many seconds the clock is ahead of the common one, if that is known. -/
  ahead : Option Int
  deriving DecidableEq

/-- A day, or a point in time. -/
structure Moment where
  day : Day
  clock : Option DayTime
  deriving DecidableEq

/-- Why there is no such moment. -/
inductive MomentError where
  | year
  | month
  | day
  | hour
  | minute
  | second
  /-- A clock that is a day or more away from the common one, by so many seconds. -/
  | zone (ahead : Int)
  deriving DecidableEq

namespace Moment

/-- The seconds of a day. -/
def daySeconds : Nat := 86400

/-- Whether a year has a leap day. -/
def isLeap (year : Nat) : Bool :=
  year % 4 == 0 && (year % 100 != 0 || year % 400 == 0)

/-- The number of days of a month. -/
def daysIn (year month : Nat) : Nat :=
  if month == 2 then (if isLeap year then 29 else 28)
  else if [4, 6, 9, 11].contains month then 30
  else 31

/-- What is wrong with a day, if anything. -/
def dayError? (d : Day) : Option MomentError :=
  if d.year == 0 then some .year
  else if d.month == 0 || 12 < d.month then some .month
  else if d.day == 0 || daysIn d.year d.month < d.day then some .day
  else none

/-- What is wrong with the distance of a clock, if anything. -/
def zoneError? (c : DayTime) : Option MomentError :=
  match c.ahead with
  | some s => if daySeconds ≤ s.natAbs then some (.zone s) else none
  | none => none

/-- What is wrong with a time of day, if anything. -/
def clockError? (c : DayTime) : Option MomentError :=
  if 23 < c.hour then some .hour
  else if 59 < c.minute then some .minute
  else if 59 < c.second then some .second
  else none

/-- What is wrong with a moment, if anything: the distance of the clock is looked at first. -/
def error? (m : Moment) : Option MomentError :=
  ((m.clock.bind zoneError?).or (dayError? m.day)).or (m.clock.bind clockError?)

/-- A span of seconds as it is written inside a message: whole days, which may be negative, and the
seconds beyond them. -/
def spanText (seconds : Int) : String :=
  let days := Int.fdiv seconds daySeconds
  let rest := Int.fmod seconds daySeconds
  let parts := (if days == 0 then [] else [s!"days={days}"])
    ++ (if rest == 0 then [] else [s!"seconds={rest}"])
  "datetime.timedelta(" ++ (if parts.isEmpty then "0" else ", ".intercalate parts) ++ ")"

/-- The distance of a clock as it is written inside a message. -/
def zoneText (seconds : Int) : String :=
  if seconds == 0 then "datetime.timezone.utc" else "datetime.timezone(" ++ spanText seconds ++ ")"

/-- A moment as it is written inside a message.  Zeros at the end of the time of day are left out. -/
def quoted (m : Moment) : String :=
  let day := [m.day.year, m.day.month, m.day.day]
  match m.clock with
  | none => "datetime.date(" ++ ", ".intercalate (day.map toString) ++ ")"
  | some c =>
      let tail := if c.microsecond != 0 then [c.second, c.microsecond]
        else if c.second != 0 then [c.second]
        else []
      let zone := match c.ahead with
        | some s => ["tzinfo=" ++ zoneText s]
        | none => []
      "datetime.datetime(" ++
        ", ".intercalate ((day ++ [c.hour, c.minute] ++ tail).map toString ++ zone) ++ ")"

/-- A number with zeros in front. -/
def zeros (width n : Nat) : String :=
  let digits := toString n
  String.ofList (List.replicate (width - digits.length) '0') ++ digits

/-- A moment as it is printed on its own. -/
def display (m : Moment) : String :=
  let day := zeros 4 m.day.year ++ "-" ++ zeros 2 m.day.month ++ "-" ++ zeros 2 m.day.day
  match m.clock with
  | none => day
  | some c =>
      let fraction := if c.microsecond == 0 then "" else "." ++ zeros 6 c.microsecond
      let zone := match c.ahead with
        | some s =>
            let minutes := s.natAbs / 60
            (if s < 0 then "-" else "+") ++ zeros 2 (minutes / 60) ++ ":" ++ zeros 2 (minutes % 60)
        | none => ""
      day ++ " " ++ zeros 2 c.hour ++ ":" ++ zeros 2 c.minute ++ ":" ++ zeros 2 c.second
        ++ fraction ++ zone

/-- The name of the kind of a moment, as messages give it. -/
def kindName (m : Moment) : String :=
  if m.clock.isSome then "datetime" else "date"

end Moment

/-- The wording of a refused moment. -/
def MomentError.message : MomentError → String
  | year => "year 0 is out of range"
  | month => "month must be in 1..12"
  | day => "day is out of range for month"
  | hour => "hour must be in 0..23"
  | minute => "minute must be in 0..59"
  | second => "second must be in 0..59"
  | zone s =>
      "offset must be a timedelta strictly between -timedelta(hours=24) and timedelta(hours=24), not "
        ++ Moment.spanText s ++ "."

end FlowCheck
