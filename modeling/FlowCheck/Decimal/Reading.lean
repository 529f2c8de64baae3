/-!
# Reading decimals

The float nearest to a decimal numeral with optional sign, point and exponent.
-/

namespace FlowCheck.Decimal

/-- The value of a run of ASCII digits. -/
def natOfDigits (cs : List Char) : Nat :=
  cs.foldl (fun n c => 10 * n + (c.toNat - 48)) 0

/-- The float nearest to `digits · 10^exponent`; exponents far outside the range of floats need no
exact power. -/
def nearest (digits : Nat) (exponent : Int) : Float :=
  let length : Int := (Nat.toDigits 10 digits).length
  if digits = 0 then 0.0
  else if 400 < exponent + length then 1.0 / 0.0
  else if exponent + length < -400 then 0.0
  else if exponent < 0 then Float.ofScientific digits true exponent.natAbs
  else Float.ofScientific digits false exponent.natAbs

/-- Reads the exponent part of a numeral. -/
def readExponent : List Char → Option Int
  | [] => some 0
  | c :: rest =>
      if c == 'e' || c == 'E' then
        let (negative, digits) := match rest with
          | '-' :: ds => (true, ds)
          | '+' :: ds => (false, ds)
          | ds => (false, ds)
        if digits.isEmpty || !digits.all Char.isDigit then none
        else
          let n : Int := natOfDigits digits
          some (if negative then -n else n)
      else none

/-- Reads an unsigned numeral. -/
def readUnsigned (cs : List Char) : Option Float :=
  let whole := cs.takeWhile Char.isDigit
  let rest := cs.dropWhile Char.isDigit
  let (fraction, rest) := match rest with
    | '.' :: more => (more.takeWhile Char.isDigit, more.dropWhile Char.isDigit)
    | _ => ([], rest)
  if whole.isEmpty && fraction.isEmpty then none
  else
    (readExponent rest).map (fun e =>
      nearest (natOfDigits (whole ++ fraction)) (e - (fraction.length : Int)))

/-- Reads a numeral, or one of the names of the values without one. -/
def readFloat? (s : String) : Option Float :=
  let (negative, body) := match s.toList with
    | '-' :: cs => (true, cs)
    | '+' :: cs => (false, cs)
    | cs => (false, cs)
  let magnitude :=
    if body == ['i', 'n', 'f'] then some (1.0 / 0.0)
    else if body == ['n', 'a', 'n'] then some (0.0 / 0.0)
    else readUnsigned body
  magnitude.map (fun x => if negative then -x else x)

end FlowCheck.Decimal
