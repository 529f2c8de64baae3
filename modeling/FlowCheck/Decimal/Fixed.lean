import FlowCheck.Decimal.Binary

/-!
# Decimals with a fixed number of places

The exact binary value is rounded once to the wanted number of places; a tie goes to the even
neighbour.
-/

namespace FlowCheck.Decimal.Fixed

/-- The nearest integer to `num / den`; a tie goes to the even one. -/
def roundDiv (num den : Nat) : Nat :=
  let q := num / den
  let r := num % den
  if 2 * r < den || (2 * r == den && q % 2 == 0) then q else q + 1

/-- A number of units of `10^-places`, written with a point. -/
def write (places : Nat) (units : Nat) : String :=
  let digits := Nat.toDigits 10 units
  let filled := List.replicate (places + 1 - digits.length) '0' ++ digits
  let split := filled.length - places
  String.ofList (filled.take split ++ '.' :: filled.drop split)

/-- An integer with so many places. -/
def ofInt (places : Nat) (n : Int) : String :=
  (if n < 0 then "-" else "") ++ write places (n.natAbs * 10 ^ places)

/-- A float with so many places. -/
def ofFloat (places : Nat) (x : Float) : String :=
  match Binary.ofFloat x with
  | .nan => "nan"
  | .infinite negative => if negative then "-inf" else "inf"
  | .finite negative mantissa exponent _ =>
      let (num, den) := Binary.ratio mantissa exponent
      (if negative then "-" else "") ++ write places (roundDiv (num * 10 ^ places) den)

end FlowCheck.Decimal.Fixed
