import FlowCheck.Value.Compare

/-!
# Data of any kind

The operations of this library take numbers of the right kind.  A probe takes whatever data it is
given, shows numbers as they were given, and says how an operation fails for data that it is not
defined for.  How much memory there is for it depends on the system and is left open (`Room`).
-/

namespace FlowCheck.Probe

/-- How an operation fails for the data it is given. -/
inductive Misuse where
  /-- The operation is not defined for data of this kind. -/
  | unfit
  /-- Data of this kind has no such property. -/
  | lacking
  /-- A position lies outside of what it counts. -/
  | outside
  /-- A number is too long to be written. -/
  | unprintable
  /-- Data of a kind that has no hexadecimal form. -/
  | noHex (kind : String)
  /-- Text that is no pairs of hexadecimal digits, from a position on. -/
  | notHex (position : Nat)
  /-- A number is too large to count anything. -/
  | tooLarge
  /-- There is not enough memory. -/
  | exhausted
  deriving DecidableEq

/-- The wording of a misuse. -/
def Misuse.message : Misuse → String
  | unfit => "operation is not defined for data of this kind"
  | lacking => "data of this kind has no such property"
  | outside => "position is outside"
  | unprintable => Text.Numeral.printRefusal
  | noHex kind => s!"Unknown format code 'x' for object of type '{kind}'"
  | notHex position => s!"non-hexadecimal number found in fromhex() arg at position {position}"
  | tooLarge => "number is too large"
  | exhausted => "not enough memory"

/-- What an operation yields, or how it fails. -/
abbrev Tried (α : Type) := Except Misuse α

/-- What memory the system has. -/
structure Room where
  /-- The most bytes that it gives in one piece. -/
  bytes : Nat
  /-- The first number of bytes that it cannot even be asked for. -/
  uncounted : Nat

namespace Room

/-- The most bytes that it gives in one piece of 32-byte words. -/
def wholeWords (r : Room) : Nat :=
  r.bytes / 32 * 32

/-- Why there is no room for so many bytes. -/
def refusal (r : Room) (bytes : Nat) : Misuse :=
  if r.uncounted ≤ bytes then .tooLarge else .exhausted

end Room

/-- Whether two values are in an order; only numbers with numbers and texts with texts are. -/
def ordered (test : Ordering → Bool) (v w : Value) : Tried Bool :=
  match v.order? w with
  | none => .error .unfit
  | some o => .ok (o.any test)

/-- The integer that data counts as. -/
def whole (v : Value) : Tried Int :=
  match v.integer? with
  | some n => .ok n
  | none => .error .unfit

/-- Data as it is shown in a message. -/
def shown (v : Value) : Tried String :=
  if v.isPrintable then .ok v.display else .error .unprintable

/-- The hexadecimal form of data, filled with zeros up to a width. -/
def hexText (width : Nat) (v : Value) : Tried String :=
  match v.integer? with
  | some n => .ok (Text.Hex.padded width n)
  | none =>
      match v with
      | .float _ | .text _ | .codes _ => .error (.noHex v.kindName)
      | _ => .error .unfit

/-- The sum of two numbers, which is real if one of them is. -/
def sum (v w : Value) : Tried Value :=
  let real (u : Value) : Option Float :=
    match u with
    | .float x => some x
    | u => u.integer?.map Float.ofInt
  match v.integer?, w.integer? with
  | some m, some n => .ok (.int (m + n))
  | _, _ =>
      match real v, real w with
      | some x, some y => .ok (.float (x + y))
      | _, _ => .error .unfit

/-- The position of the first character beyond ASCII, if there is one. -/
def beyondAscii? (cs : List Char) : Option Nat :=
  cs.findIdx? (fun c => 128 ≤ c.toNat)

/-- Reads pairs of hexadecimal digits with blanks between the pairs. -/
def hexPairs (position : Nat) (read : Array UInt8) : List Char → Tried (Array UInt8)
  | [] => .ok read
  | a :: rest =>
      if a == ' ' || (9 ≤ a.toNat && a.toNat ≤ 13) then hexPairs (position + 1) read rest
      else
        match Text.Hex.digit? a, rest with
        | none, _ => .error (.notHex position)
        | some _, [] => .error (.notHex (position + 1))
        | some x, b :: rest =>
            match Text.Hex.digit? b with
            | none => .error (.notHex (position + 1))
            | some y => hexPairs (position + 2) (read.push (UInt8.ofNat (16 * x + y))) rest

/-- The bytes of hexadecimal text. -/
def hexBytes (v : Value) : Tried (Array UInt8) :=
  match v with
  | .text s =>
      match beyondAscii? s.toList with
      | some position => .error (.notHex position)
      | none => hexPairs 0 #[] s.toList
  | .codes points =>
      .error (.notHex ((points.findIdx? (fun n => decide (128 ≤ n))).getD 0))
  | _ => .error .unfit

end FlowCheck.Probe
