import FlowCheck.Arithmetic
import FlowCheck.Text.Digit
import FlowCheck.Text.Blank
import FlowCheck.Text.Hex
import FlowCheck.Text.Quoted

/-!
# Integer numerals

Two grammars of integers.  A decimal numeral is a sign and decimal digits.  A literal may also carry
a base mark (`0x`, `0o`, `0b`) and, without one, has no leading zero unless it is zero.  In both,
digits of every script count, single underscores may stand between digits and behind a base mark,
and surrounding blanks are dropped.  Decimal conversion is limited to a fixed number of digits.
-/

namespace FlowCheck.Text.Numeral

/-- The largest number of digits that is converted from or to decimal text. -/
def digitLimit : Nat := 4300

/-- Why a text is no integer. -/
inductive Error where
  /-- The text does not follow the grammar of the base (zero for literals). -/
  | malformed (base : Nat) (text : String)
  /-- The text has more decimal digits than are converted. -/
  | tooManyDigits (count : Nat)
  deriving DecidableEq

/-- The wording of a refused conversion to decimal text. -/
def printRefusal : String :=
  s!"Exceeds the limit ({digitLimit} digits) for integer string conversion; "
    ++ "use sys.set_int_max_str_digits() to increase the limit"

/-- The wording of an error; a long text is cut. -/
def Error.message : Error → String
  | malformed base text =>
      s!"invalid literal for int() with base {base}: " ++ String.ofList ((quoted text).toList.take 200)
  | tooManyDigits count =>
      s!"Exceeds the limit ({digitLimit} digits) for integer string conversion: "
        ++ s!"value has {count} digits; use sys.set_int_max_str_digits() to increase the limit"

/-- Whether an integer is short enough to be written in decimal. -/
def isPrintable (n : Int) : Bool :=
  n.natAbs < 10 ^ digitLimit

/-- Brings blanks and digits of every script to their ASCII forms. -/
def fold (c : Char) : Char :=
  if c.toNat < 0x7F then c
  else if isBlank c then ' '
  else
    match decimalDigit? c with
    | some d => Hex.digit d
    | none => '?'

/-- The blanks that may surround a numeral. -/
def isMargin (c : Char) : Bool :=
  c == ' ' || (9 ≤ c.toNat && c.toNat ≤ 13)

/-- The text in ASCII form without its margins. -/
def body (s : String) : List Char :=
  let cs := (s.toList.map fold).dropWhile isMargin
  (cs.reverse.dropWhile isMargin).reverse

/-- The value of an ASCII digit in a base. -/
def digitIn? (base : Nat) (c : Char) : Option Nat :=
  (Hex.digit? c).filter (· < base)

/-- Reads digits with single underscores between them, from a value and a digit count on; `owed`
says that a digit has to follow. -/
def readDigits (base : Nat) : (value count : Nat) → (owed : Bool) → List Char → Option (Nat × Nat)
  | value, count, owed, [] => if owed then none else some (value, count)
  | value, count, owed, c :: cs =>
      if c == '_' then
        if owed then none else readDigits base value count true cs
      else
        match digitIn? base c with
        | some d => readDigits base (base * value + d) (count + 1) false cs
        | none => none

/-- Reads the digits behind a base mark, where one underscore may come first. -/
def readMarked (base : Nat) : List Char → Option (Nat × Nat)
  | '_' :: cs => readDigits base 0 0 true cs
  | cs => readDigits base 0 0 true cs

/-- Whether a character may stand in the digits of a decimal. -/
def isDecimalPart (c : Char) : Bool :=
  c == '_' || (digitIn? 10 c).isSome

/-- Reads an unsigned decimal.  The digits are counted before what follows them is looked at. -/
def readDecimal (base : Nat) (text : String) (cs : List Char) : Except Error Nat :=
  match readDigits 10 0 0 true (cs.takeWhile isDecimalPart) with
  | none => .error (.malformed base text)
  | some (n, count) =>
      if digitLimit < count then .error (.tooManyDigits count)
      else if (cs.dropWhile isDecimalPart).isEmpty then .ok n
      else .error (.malformed base text)

/-- Reads an unsigned literal. -/
def readLiteral (text : String) (cs : List Char) : Except Error Nat :=
  let marked (base : Nat) (rest : List Char) : Except Error Nat :=
    match readMarked base rest with
    | some (n, _) => .ok n
    | none => .error (.malformed 0 text)
  match cs with
  | '0' :: 'x' :: rest | '0' :: 'X' :: rest => marked 16 rest
  | '0' :: 'o' :: rest | '0' :: 'O' :: rest => marked 8 rest
  | '0' :: 'b' :: rest | '0' :: 'B' :: rest => marked 2 rest
  | '0' :: _ =>
      match readDecimal 0 text cs with
      | .ok 0 => .ok 0
      | .ok _ => .error (.malformed 0 text)
      | .error e => .error e
  | _ => readDecimal 0 text cs

/-- Reads an optional sign in front of an unsigned number. -/
def signed (read : List Char → Except Error Nat) : List Char → Except Error Int
  | '-' :: cs => (read cs).map (fun n => -(n : Int))
  | '+' :: cs => (read cs).map (fun n => (n : Int))
  | cs => (read cs).map (fun n => (n : Int))

/-- The integer of a decimal numeral. -/
def decimal (s : String) : Except Error Int :=
  signed (readDecimal 10 s) (body s)

/-- The integer of a literal. -/
def literal (s : String) : Except Error Int :=
  signed (readLiteral s) (body s)

end FlowCheck.Text.Numeral
