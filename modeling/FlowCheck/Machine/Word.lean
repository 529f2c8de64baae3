import FlowCheck.Bytes.BigEndian
import FlowCheck.Opcode
import FlowCheck.Text.Numeral
import FlowCheck.Value.Compare

/-!
# Machine words

Unsigned words of 256 bits, with the two's complement reading of their top half, and the functions
that the arithmetic instructions compute.  The first operand is the top of the stack.
-/

namespace FlowCheck

/-- The number of words. -/
def wordModulus : Nat := 2 ^ 256

/-- A machine word. -/
structure Word where
  /-- The unsigned value. -/
  toNat : Nat
  /-- The value fits in 256 bits. -/
  isLt : toNat < wordModulus
  deriving DecidableEq

namespace Word

/-- The word congruent to a natural number. -/
def ofNat (n : Nat) : Word where
  toNat := n % wordModulus
  isLt := Nat.mod_lt n (by decide)

/-- The word congruent to an integer. -/
def ofInt (n : Int) : Word where
  toNat := (n % (wordModulus : Int)).toNat
  isLt := by
    have h := Int.emod_lt_of_pos n (show (0 : Int) < wordModulus by decide)
    have h' := Int.emod_nonneg n (show (wordModulus : Int) ≠ 0 by decide)
    omega

/-- The word of a truth value. -/
def ofBool (b : Bool) : Word :=
  ofNat (if b then 1 else 0)

/-- The word of the last 32 bytes of a big-endian byte string. -/
def ofBytes (bs : List UInt8) : Word :=
  ofNat (Bytes.BigEndian.decode (bs.drop (bs.length - 32)))

/-- The 32 bytes of a word. -/
def toBytes (w : Word) : List UInt8 :=
  Bytes.BigEndian.encode 32 w.toNat

/-- The hexadecimal text of a word. -/
def hex (w : Word) : String :=
  "0x" ++ Text.Hex.ofNat w.toNat

/-- Whether the top bit is set. -/
def isNegative (w : Word) : Bool :=
  2 ^ 255 ≤ w.toNat

/-- The two's complement value. -/
def toInt (w : Word) : Int :=
  if w.isNegative then (w.toNat : Int) - wordModulus else w.toNat

/-- Powers by repeated squaring. -/
def powMod (base : Nat) (exponent : Nat) : Nat :=
  if exponent = 0 then 1
  else
    let half := powMod (base * base % wordModulus) (exponent / 2)
    if exponent % 2 = 0 then half else base * half % wordModulus
termination_by exponent

/-- Repeats the sign bit of the lowest `size + 1` bytes. -/
def signExtend (size value : Word) : Word :=
  if 31 ≤ size.toNat then value
  else
    let bit := 8 * size.toNat + 7
    let low := value.toNat % 2 ^ bit
    if value.toNat / 2 ^ bit % 2 = 1 then ofNat (wordModulus - 2 ^ bit + low) else ofNat low

/-- The byte at an index counted from the most significant one. -/
def byteAt (index value : Word) : Word :=
  if 32 ≤ index.toNat then ofNat 0
  else ofNat (value.toNat / 256 ^ (31 - index.toNat) % 256)

/-- The quotient truncated toward zero; division by zero gives zero. -/
def signedDiv (a b : Word) : Word :=
  ofInt (Int.tdiv a.toInt b.toInt)

/-- The remainder with the sign of the dividend; division by zero gives zero. -/
def signedMod (a b : Word) : Word :=
  if b.toNat = 0 then ofNat 0 else ofInt (Int.tmod a.toInt b.toInt)

/-- The arithmetic shift to the right. -/
def shiftArith (shift value : Word) : Word :=
  if 256 ≤ shift.toNat then (if value.isNegative then ofInt (-1) else ofNat 0)
  else ofInt (value.toInt / 2 ^ shift.toNat)

/-- What a one-operand instruction computes. -/
def unary (op : UnaryOp) (a : Word) : Word :=
  match op with
  | .iszero => ofBool (a.toNat == 0)
  | .not => ofNat (wordModulus - 1 - a.toNat)

/-- What a two-operand instruction computes. -/
def binary (op : BinaryOp) (a b : Word) : Word :=
  match op with
  | .add => ofNat (a.toNat + b.toNat)
  | .mul => ofNat (a.toNat * b.toNat)
  | .sub => ofInt ((a.toNat : Int) - b.toNat)
  | .div => ofNat (a.toNat / b.toNat)
  | .sdiv => signedDiv a b
  | .mod => if b.toNat = 0 then ofNat 0 else ofNat (a.toNat % b.toNat)
  | .smod => signedMod a b
  | .exp => ofNat (powMod a.toNat b.toNat)
  | .signextend => signExtend a b
  | .lt => ofBool (a.toNat < b.toNat)
  | .gt => ofBool (b.toNat < a.toNat)
  | .slt => ofBool (a.toInt < b.toInt)
  | .sgt => ofBool (b.toInt < a.toInt)
  | .eq => ofBool (a.toNat == b.toNat)
  | .and => ofNat (a.toNat &&& b.toNat)
  | .or => ofNat (a.toNat ||| b.toNat)
  | .xor => ofNat (a.toNat ^^^ b.toNat)
  | .byte => byteAt a b
  | .shl => if 256 ≤ a.toNat then ofNat 0 else ofNat (b.toNat * 2 ^ a.toNat)
  | .shr => if 256 ≤ a.toNat then ofNat 0 else ofNat (b.toNat / 2 ^ a.toNat)
  | .sar => shiftArith a b

/-- What a three-operand instruction computes; a zero modulus gives zero. -/
def ternary (op : TernaryOp) (a b n : Word) : Word :=
  if n.toNat = 0 then ofNat 0
  else
    match op with
    | .addmod => ofNat ((a.toNat + b.toNat) % n.toNat)
    | .mulmod => ofNat (a.toNat * b.toNat % n.toNat)

/-- Why data is no word. -/
inductive RangeError where
  /-- A number outside the range of words. -/
  | outOfRange (value : Value)
  /-- A number too long to be named in the message. -/
  | unprintable
  /-- Data that is no whole number. -/
  | notWhole

/-- The wording of a refusal. -/
def RangeError.message : RangeError → String
  | outOfRange value => s!"Word out of range: {value.display}"
  | unprintable => Text.Numeral.printRefusal
  | notWhole => "not a whole number"

/-- The word of data that has to be in range. -/
def ofValue (v : Value) : Except RangeError Word :=
  match v.order? (.int 0) with
  | none => .error .notWhole
  | some low =>
      match low, v.order? (.int ((2 : Int) ^ 256)) with
      | some .eq, some (some .lt) | some .gt, some (some .lt) =>
          match v.integer? with
          | some n => .ok (ofInt n)
          | none => .error .notWhole
      | _, _ =>
          match v with
          | .int n => if Text.Numeral.isPrintable n then .error (.outOfRange v) else .error .unprintable
          | _ => .error (.outOfRange v)

end Word

end FlowCheck
