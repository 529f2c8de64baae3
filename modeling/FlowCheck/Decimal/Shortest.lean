import FlowCheck.Decimal.Binary

/-!
# Shortest decimal text

The fewest significant digits that read back as the same float.  For one, two, … seventeen digits
the two neighbours of the exact value on that decimal grid are tested against the interval of
numbers that round to the float; the first grid with a hit wins, and of two hits the nearer one.
-/

namespace FlowCheck.Decimal

/-- The number `digits · 10^exponent`. -/
structure Scaled where
  /-- The significant digits. -/
  digits : Nat
  /-- The power of ten of the last digit. -/
  exponent : Int

namespace Shortest

/-- The exact value, with the interval of numbers that round to it, in units of `2^unit`. -/
structure Target where
  /-- The power of two of the unit. -/
  unit : Int
  /-- The value itself. -/
  centre : Nat
  /-- The lower end of the interval. -/
  low : Nat
  /-- The upper end of the interval. -/
  high : Nat
  /-- Whether the ends belong to the interval. -/
  closed : Bool

/-- The rounding interval of `mantissa · 2^exponent`. -/
def Target.of (mantissa : Nat) (exponent : Int) (tight : Bool) : Target where
  unit := exponent - 2
  centre := 4 * mantissa
  low := 4 * mantissa - (if tight then 1 else 2)
  high := 4 * mantissa + 2
  closed := mantissa % 2 = 0

/-- The factors `(a, b)` with `10^step / 2^unit = a / b`. -/
def factors (unit step : Int) : Nat × Nat :=
  (10 ^ step.toNat * 2 ^ (-unit).toNat, 10 ^ (-step).toNat * 2 ^ unit.toNat)

/-- Whether `candidate · 10^step` rounds to the target. -/
def hits (t : Target) (step : Int) (candidate : Nat) : Bool :=
  let (a, b) := factors t.unit step
  if t.closed then t.low * b ≤ candidate * a && candidate * a ≤ t.high * b
  else t.low * b < candidate * a && candidate * a < t.high * b

/-- The nearer of the two neighbours on the grid of `10^step` that round to the target. -/
def onGrid (t : Target) (step : Int) : Option Scaled :=
  let (a, b) := factors t.unit step
  let below := t.centre * b / a
  let above := below + 1
  match hits t step below, hits t step above with
  | true, false => some ⟨below, step⟩
  | false, true => some ⟨above, step⟩
  | false, false => none
  | true, true =>
      let down := t.centre * b - below * a
      let up := above * a - t.centre * b
      if down < up || (down == up && below % 2 == 0) then some ⟨below, step⟩
      else some ⟨above, step⟩

/-- How many decimal digits stand before the point; zero or negative for values below one. -/
def magnitude (mantissa : Nat) (exponent : Int) : Int :=
  let (num, den) := Binary.ratio mantissa exponent
  if den ≤ num then ((Nat.toDigits 10 (num / den)).length : Int)
  else
    match (List.range 400).find? (fun j => den ≤ num * 10 ^ (j + 1)) with
    | some j => -(j : Int)
    | none => 0

/-- The shortest decimal that reads back as `mantissa · 2^exponent`. -/
def decimal (mantissa : Nat) (exponent : Int) (tight : Bool) : Scaled :=
  if mantissa = 0 then ⟨0, 0⟩
  else
    let t := Target.of mantissa exponent tight
    let k := magnitude mantissa exponent
    match (List.range 17).findSome? (fun n => onGrid t (k - (n + 1 : Nat))) with
    | some d => d
    | none => ⟨0, 0⟩

end Shortest

/-- How a decimal is laid out. -/
structure Layout where
  /-- The largest number of leading zeros after the point in positional form. -/
  zerosAfterPoint : Nat
  /-- The largest number of digits before the point in positional form. -/
  digitsBeforePoint : Nat
  /-- The least number of exponent digits. -/
  exponentDigits : Nat

namespace Layout

/-- Numbers in reports: positional from `0.0001` up to sixteen digits before the point, otherwise
with a signed exponent of at least two digits. -/
def report : Layout := ⟨3, 16, 2⟩

/-- A run of zeros. -/
def zeros (n : Nat) : List Char :=
  List.replicate n '0'

/-- The digits of a decimal without trailing zeros. -/
def significant (d : Scaled) : List Char :=
  let trimmed := ((Nat.toDigits 10 d.digits).reverse.dropWhile (· == '0')).reverse
  if trimmed.isEmpty then ['0'] else trimmed

/-- The layout of a decimal; a whole number keeps one zero after the point. -/
def write (l : Layout) (d : Scaled) : String :=
  let ds := significant d
  let point : Int := if d.digits = 0 then 1 else ((Nat.toDigits 10 d.digits).length : Int) + d.exponent
  if -(l.zerosAfterPoint : Int) ≤ point && point ≤ l.digitsBeforePoint then
    if point ≤ 0 then String.ofList ('0' :: '.' :: zeros (-point).toNat ++ ds)
    else
      let p := point.toNat
      if ds.length ≤ p then String.ofList (ds ++ zeros (p - ds.length) ++ ['.', '0'])
      else String.ofList (ds.take p ++ '.' :: ds.drop p)
  else
    let power := point - 1
    let digits := Nat.toDigits 10 power.natAbs
    let fill := zeros (l.exponentDigits - digits.length)
    let head := match ds with
      | [] => ['0']
      | [c] => [c]
      | c :: rest => c :: '.' :: rest
    String.ofList (head ++ 'e' :: (if power < 0 then '-' else '+') :: fill ++ digits)

end Layout

/-- The shortest text that reads back as the float. -/
def shortest (x : Float) : String :=
  match Binary.ofFloat x with
  | .nan => "nan"
  | .infinite negative => if negative then "-inf" else "inf"
  | .finite negative mantissa exponent tight =>
      (if negative then "-" else "") ++ Layout.report.write (Shortest.decimal mantissa exponent tight)

end FlowCheck.Decimal
