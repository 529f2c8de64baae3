import FlowCheck.Arithmetic

/-!
# Exact values of binary floating-point numbers

A finite 64-bit float is `± m · 2^q` with natural `m`.  Everything that prints or compares floats
works on that exact value, so no rounding happens outside the functions that say they round.
-/

namespace FlowCheck.Decimal

/-- The exact reading of a float. -/
inductive Binary where
  /-- Not a number. -/
  | nan
  /-- An infinity, with its sign. -/
  | infinite (negative : Bool)
  /-- The number `± mantissa · 2^exponent`; `tight` says that the gap below is half the gap above. -/
  | finite (negative : Bool) (mantissa : Nat) (exponent : Int) (tight : Bool)

namespace Binary

/-- Reads the sign, exponent and fraction fields of a float. -/
def ofFloat (x : Float) : Binary :=
  let bits := x.toBits.toNat
  let negative := decide (2 ^ 63 ≤ bits)
  let field : Nat := bits / 2 ^ 52 % 2048
  let fraction : Nat := bits % 2 ^ 52
  if field = 2047 then
    if fraction = 0 then infinite negative else nan
  else if field = 0 then finite negative fraction (-1074) false
  else finite negative (2 ^ 52 + fraction) ((field : Int) - 1075) (fraction == 0 && decide (1 < field))

/-- The absolute value of a finite float as a fraction of naturals. -/
def ratio (mantissa : Nat) (exponent : Int) : Nat × Nat :=
  (mantissa * 2 ^ exponent.toNat, 2 ^ (-exponent).toNat)

/-- The greatest integer not above a finite float. -/
def floor (negative : Bool) (mantissa : Nat) (exponent : Int) : Int :=
  let (num, den) := ratio mantissa exponent
  Int.fdiv (if negative then -(num : Int) else num) den

/-- The least integer not below a finite float. -/
def ceil (negative : Bool) (mantissa : Nat) (exponent : Int) : Int :=
  let (num, den) := ratio mantissa exponent
  Int.neg (Int.fdiv (if negative then (num : Int) else -(num : Int)) den)

/-- Whether a float has an integral value, and which. -/
def integer? (x : Float) : Option Int :=
  match ofFloat x with
  | finite negative mantissa exponent _ =>
      let low := floor negative mantissa exponent
      if low = ceil negative mantissa exponent then some low else none
  | _ => none

end Binary

end FlowCheck.Decimal
