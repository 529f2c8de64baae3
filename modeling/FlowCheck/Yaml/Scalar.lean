import FlowCheck.Decimal.Reading
import FlowCheck.Value.Basic
import FlowCheck.Yaml.Fault

/-!
# Plain scalars

What an unquoted scalar stands for: nothing, a truth value, an integer in one of four bases or in
sexagesimal notation, a real number, a point in time, one of two reserved marks, or text.
-/

namespace FlowCheck.Yaml

/-- The kinds of plain scalars. -/
inductive ScalarKind where
  | null | bool | int | float | timestamp | merge | default | text
  deriving DecidableEq

namespace Scalar

/-- Whether a list is not empty and all its characters pass a test. -/
def all1 (test : Char → Bool) (cs : List Char) : Bool :=
  !cs.isEmpty && cs.all test

/-- The text behind an optional sign. -/
def unsigned : List Char → List Char
  | '-' :: cs | '+' :: cs => cs
  | cs => cs

/-- A digit or an underscore. -/
def isDigitMark (c : Char) : Bool :=
  c.isDigit || c == '_'

/-- Whether a text is one or more groups of a colon and a number below sixty. -/
def isSixtieths : List Char → Bool
  | [':', a] => a.isDigit
  | [':', a, b] => ('0' ≤ a && a ≤ '5') && b.isDigit
  | ':' :: a :: ':' :: rest => a.isDigit && isSixtieths (':' :: rest)
  | ':' :: a :: b :: rest => ('0' ≤ a && a ≤ '5') && b.isDigit && isSixtieths rest
  | _ => false

/-- Whether an unsigned text is an integer. -/
def isUnsignedInt (cs : List Char) : Bool :=
  match cs with
  | ['0'] => true
  | '0' :: 'b' :: rest => all1 (fun c => c == '0' || c == '1' || c == '_') rest
  | '0' :: 'x' :: rest => all1 (fun c => (Text.Hex.digit? c).isSome || c == '_') rest
  | '0' :: rest => all1 (fun c => ('0' ≤ c && c ≤ '7') || c == '_') rest
  | c :: rest =>
      if '1' ≤ c && c ≤ '9' then
        let tail := rest.dropWhile isDigitMark
        tail.isEmpty || isSixtieths tail
      else false
  | [] => false

/-- Whether a text is empty or an exponent with a sign. -/
def isExponent : List Char → Bool
  | [] => true
  | c :: s :: rest => (c == 'e' || c == 'E') && (s == '-' || s == '+') && all1 Char.isDigit rest
  | _ => false

/-- Whether a text is a real number. -/
def isFloat (cs : List Char) : Bool :=
  let body := unsigned cs
  let tail := body.dropWhile isDigitMark
  let named (names : List String) : Bool := names.contains (String.ofList body)
  let fraction (rest : List Char) : Bool := isExponent (rest.dropWhile isDigitMark)
  let sixtieths := tail.takeWhile (· != '.')
  named [".inf", ".Inf", ".INF"] || (body == cs && named [".nan", ".NaN", ".NAN"]) ||
    match body with
    | '.' :: d :: rest => body == cs && d.isDigit && fraction rest
    | d :: _ =>
        d.isDigit &&
          match tail with
          | '.' :: rest => fraction rest
          | ':' :: _ =>
              isSixtieths sixtieths &&
                match tail.dropWhile (· != '.') with
                | '.' :: rest => rest.all isDigitMark
                | _ => false
          | _ => false
    | [] => false

/-- Between `least` and `most` digits, then the rest. -/
def digits? (least most : Nat) (cs : List Char) : Option (List Char) :=
  let run := (cs.takeWhile Char.isDigit).length
  if least ≤ run && run ≤ most then some (cs.drop run) else none

/-- Whether a text is a time zone behind optional blanks. -/
def isZone (cs : List Char) : Bool :=
  match cs.dropWhile (fun c => c == ' ' || c == '\t') with
  | ['Z'] => true
  | s :: rest =>
      (s == '-' || s == '+') &&
        match digits? 1 2 rest with
        | some [] => true
        | some (':' :: more) => digits? 2 2 more == some []
        | _ => false
  | [] => cs.isEmpty

/-- Whether a text is a time of day with an optional time zone. -/
def isTime (cs : List Char) : Bool :=
  match digits? 1 2 cs with
  | some (':' :: minutes) =>
      match digits? 2 2 minutes with
      | some (':' :: seconds) =>
          match digits? 2 2 seconds with
          | some ('.' :: rest) => isZone (rest.dropWhile Char.isDigit)
          | some rest => isZone rest
          | none => false
      | _ => false
  | _ => false

/-- Whether a text is a date, alone or with a time of day. -/
def isTimestamp (cs : List Char) : Bool :=
  match digits? 4 4 cs with
  | some ('-' :: month) =>
      match digits? 1 2 month with
      | some ('-' :: day) =>
          match digits? 1 2 day with
          | some [] => cs.length == 10
          | some (c :: rest) =>
              if c == 'T' || c == 't' then isTime rest
              else (c == ' ' || c == '\t') &&
                isTime (rest.dropWhile (fun c => c == ' ' || c == '\t'))
          | none => false
      | _ => false
  | _ => false

/-- The spellings of true. -/
def trueWords : List String := ["yes", "Yes", "YES", "true", "True", "TRUE", "on", "On", "ON"]

/-- The spellings of false. -/
def falseWords : List String := ["no", "No", "NO", "false", "False", "FALSE", "off", "Off", "OFF"]

/-- The spellings of nothing. -/
def nullWords : List String := ["", "~", "null", "Null", "NULL"]

/-- The kind of a plain scalar. -/
def kind (s : String) : ScalarKind :=
  let cs := s.toList
  if trueWords.contains s || falseWords.contains s then .bool
  else if isFloat cs then .float
  else if isUnsignedInt (unsigned cs) then .int
  else if s == "<<" then .merge
  else if nullWords.contains s then .null
  else if isTimestamp cs then .timestamp
  else if s == "=" then .default
  else .text

/-- The value of digits in a base. -/
def natIn (base : Nat) (cs : List Char) : Nat :=
  cs.foldl (fun n c => base * n + (Text.Hex.digit? c).getD 0) 0

/-- The groups between colons. -/
def groups : List Char → List Char → List (List Char)
  | [], group => [group.reverse]
  | c :: cs, group => if c == ':' then group.reverse :: groups cs [] else groups cs (c :: group)

/-- The value of a decimal, whose digits are counted. -/
def decimal (cs : List Char) : Except Fault Nat :=
  if Text.Numeral.digitLimit < cs.length then .error (.numeral (.tooManyDigits cs.length))
  else .ok (natIn 10 cs)

/-- The value of digits behind a base mark; at least one has to be there. -/
def marked (base : Nat) (cs : List Char) : Except Fault Nat :=
  if cs.isEmpty then .error (.numeral (.malformed base "")) else .ok (natIn base cs)

/-- The value of an unsigned integer without underscores. -/
def unsignedInt (cs : List Char) : Except Fault Nat :=
  match cs with
  | '0' :: 'b' :: rest => marked 2 rest
  | '0' :: 'x' :: rest => marked 16 rest
  | '0' :: rest => .ok (natIn 8 rest)
  | _ => do
      let parts ← (groups cs []).mapM decimal
      return parts.foldl (fun n part => 60 * n + part) 0

/-- The value of an integer. -/
def int (cs : List Char) : Except Fault Int := do
  let n : Int ← unsignedInt ((unsigned cs).filter (· != '_'))
  return if cs.head? == some '-' then -n else n

/-- The sum of groups, the last one first, each weighted by a power of sixty.  The sum is built up from
the lightest group on, and every weight has to be a float. -/
def sixtieths (weight : Nat) (sum : Float) : List (List Char) → Except Fault Float
  | [] => .ok sum
  | g :: rest =>
      let scale := Float.ofNat weight
      if scale.isFinite then
        let digit := (Decimal.readFloat? (String.ofList g)).getD 0.0
        sixtieths (60 * weight) (sum + digit * scale) rest
      else .error .tooLarge

/-- The value of an unsigned real number without underscores. -/
def unsignedFloat (cs : List Char) : Except Fault Float :=
  if cs == ['.', 'i', 'n', 'f'] then .ok (1.0 / 0.0)
  else if cs == ['.', 'n', 'a', 'n'] then .ok (0.0 / 0.0)
  else if cs.contains ':' then sixtieths 1 0.0 (groups cs []).reverse
  else .ok ((Decimal.readFloat? (String.ofList cs)).getD 0.0)

/-- The value of a real number. -/
def float (cs : List Char) : Except Fault Float := do
  let x ← unsignedFloat (((unsigned cs).filter (· != '_')).map Char.toLower)
  return if cs.head? == some '-' then -x else x

/-- The number at the front of a text, and the text behind it and the mark that follows. -/
def number (cs : List Char) : Nat × List Char :=
  (natIn 10 (cs.takeWhile Char.isDigit), (cs.dropWhile Char.isDigit).drop 1)

/-- How many seconds a clock is ahead of the common one. -/
def zone (cs : List Char) : Option Int :=
  match cs with
  | [] => none
  | 'Z' :: _ => some 0
  | sign :: rest =>
      let (hours, rest) := number rest
      let seconds : Int := 60 * (60 * hours + (number rest).1 : Nat)
      some (if sign == '-' then -seconds else seconds)

/-- The time of day of a text. -/
def dayTime (cs : List Char) : DayTime :=
  let (hour, cs) := number cs
  let (minute, cs) := number cs
  let second := natIn 10 (cs.take 2)
  let rest := cs.drop 2
  let fraction := match rest with
    | '.' :: digits => digits.takeWhile Char.isDigit
    | _ => []
  let tail := (rest.dropWhile (fun c => c == '.' || c.isDigit)).dropWhile
    (fun c => c == ' ' || c == '\t')
  { hour, minute, second
    microsecond := natIn 10 ((fraction ++ List.replicate 6 '0').take 6)
    ahead := zone tail }

/-- The point in time of a text. -/
def moment (cs : List Char) : Moment :=
  let (year, cs) := number cs
  let (month, cs) := number cs
  let day := natIn 10 (cs.takeWhile Char.isDigit)
  let rest := cs.dropWhile Char.isDigit
  { day := { year, month, day }
    clock := if rest.isEmpty then none
      else some (dayTime (rest.dropWhile (fun c => !c.isDigit))) }

/-- The value of a plain scalar; reserved marks have none. -/
def read (s : String) : Except Fault Value :=
  match kind s with
  | .null => .ok .null
  | .bool => .ok (.bool (trueWords.contains s))
  | .int => (int s.toList).map Value.int
  | .float => (float s.toList).map Value.float
  | .timestamp =>
      let m := moment s.toList
      match m.error? with
      | some e => .error (.moment e)
      | none => .ok (.moment m)
  | .text => .ok (.text s)
  | .merge | .default => .error (.malformed .reservedMark)

end Scalar

end FlowCheck.Yaml
