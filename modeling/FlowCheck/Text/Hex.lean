/-!
# Hexadecimal text

Lower-case hexadecimal numerals and the two-digit form of byte strings.  Reading takes digits of
either case and refuses an odd number of digits.
-/

namespace FlowCheck.Text.Hex

/-- The hexadecimal digit of a number below sixteen. -/
def digit (n : Nat) : Char :=
  if n < 10 then Char.ofNat (48 + n) else Char.ofNat (87 + n)

/-- The value of a hexadecimal digit of either case. -/
def digit? (c : Char) : Option Nat :=
  let n := c.toNat
  if 48 ≤ n && n ≤ 57 then some (n - 48)
  else if 97 ≤ n && n ≤ 102 then some (n - 87)
  else if 65 ≤ n && n ≤ 70 then some (n - 55)
  else none

/-- The hexadecimal numeral of a number, without leading zeros. -/
def ofNat (n : Nat) : String :=
  String.ofList (Nat.toDigits 16 n)

/-- The numeral of an integer, filled with zeros after the sign up to a total width. -/
def padded (width : Nat) (n : Int) : String :=
  let sign := if n < 0 then "-" else ""
  let digits := ofNat n.natAbs
  sign ++ String.ofList (List.replicate (width - sign.length - digits.length) '0') ++ digits

/-- The two digits of a byte. -/
def ofByte (b : UInt8) : List Char :=
  [digit (b.toNat / 16), digit (b.toNat % 16)]

/-- Two digits for each byte, in order. -/
def ofBytes (bs : List UInt8) : String :=
  String.ofList (bs.flatMap ofByte)

/-- Reads pairs of digits behind the bytes read so far. -/
def bytesFrom (read : Array UInt8) : List Char → Option (Array UInt8)
  | [] => some read
  | [_] => none
  | a :: b :: rest =>
      match digit? a, digit? b with
      | some x, some y => bytesFrom (read.push (UInt8.ofNat (16 * x + y))) rest
      | _, _ => none

/-- The bytes that a text of digit pairs stands for. -/
def bytes? (cs : List Char) : Option (Array UInt8) :=
  bytesFrom #[] cs

end FlowCheck.Text.Hex
