import FlowCheck.Bytes.BigEndian
import FlowCheck.InstructionSet
import FlowCheck.Text.Numeral
import FlowCheck.Value.Compare

/-!
# Immediates

Encoding of data as a big-endian immediate.  Data that is no number has no size to compare with the
width, and a real number that passes the comparison still has no bytes.
-/

namespace FlowCheck.Bytes

/-- Why data has no immediate of a width. -/
inductive EncodeError where
  /-- A number below zero or too large for the width. -/
  | doesNotFit (value width : Value)
  /-- A width below zero. -/
  | negativeWidth
  /-- A number too long to be named in the message. -/
  | unprintable
  /-- Data that is no number. -/
  | notNumber
  /-- A number that is not whole. -/
  | notWhole

/-- The refusal of a number that does not fit. -/
def EncodeError.ofMisfit (value width : Value) : EncodeError :=
  if value.isPrintable && width.isPrintable then doesNotFit value width else unprintable

/-- The wording of a refusal. -/
def EncodeError.message : EncodeError → String
  | doesNotFit value width => s!"{value.display} does not fit in {width.display} bytes"
  | negativeWidth => "negative shift count"
  | unprintable => Text.Numeral.printRefusal
  | notNumber => "not a number"
  | notWhole => "not a whole number"

/-- The bytes of data in a width, which messages show as it was given. -/
def encodeShown (shown : Value) (value : Value) (width : Int) : Except EncodeError (List UInt8) :=
  match value.order? (.int 0) with
  | none => .error .notNumber
  | some (some .lt) => .error (.ofMisfit value shown)
  | some _ =>
      if width < 0 then .error .negativeWidth
      else
        match value.order? (.int (256 ^ width.toNat)) with
        | some (some .eq) | some (some .gt) => .error (.ofMisfit value shown)
        | _ =>
            match value.integer? with
            | some n => .ok (BigEndian.encode width.toNat n.toNat)
            | none => .error .notWhole

/-- The bytes of data in a width. -/
def encodeValue (value : Value) (width : Int) : Except EncodeError (List UInt8) :=
  encodeShown (.int width) value width

/-- Why bytes are no offset: there are not as many as an offset has. -/
structure OffsetLength where
  /-- How many bytes there are. -/
  length : Nat

/-- The wording of a refusal. -/
def OffsetLength.message (e : OffsetLength) : String :=
  s!"offset immediates are {offsetWidth} bytes, got {e.length}"

/-- The offset of three bytes. -/
def decodeOffset (bs : List UInt8) : Except OffsetLength Nat :=
  if bs.length = offsetWidth then .ok (BigEndian.decode bs) else .error ⟨bs.length⟩

end FlowCheck.Bytes
