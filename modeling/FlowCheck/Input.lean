import FlowCheck.Arithmetic
import FlowCheck.Text.Blank
import FlowCheck.Text.Hex
import FlowCheck.Value.Basic

/-!
# Untrusted inputs

Code arrives as bytes or as hexadecimal text, offsets arrive as data of any kind.  Each is checked
once, here, and what is refused is refused with the name of the field it came from.
-/

namespace FlowCheck

/-- What is wrong with an input. -/
inductive InputFault where
  /-- Text that is not pairs of hexadecimal digits. -/
  | notHex
  /-- Data that is neither bytes nor text. -/
  | notCode (kind : String)
  /-- More code than a program may have. -/
  | codeTooLong
  /-- Data that is no integer. -/
  | notInteger
  /-- An integer that is no offset. -/
  | outOfRange

/-- A refused input. -/
structure InputError where
  /-- The field the input came from. -/
  field : String
  /-- What is wrong with it. -/
  fault : InputFault

/-- The largest offset. -/
def maxOffset : Nat := 2 ^ 24 - 1

/-- The largest number of code bytes. -/
def maxCodeSize : Nat := 2 ^ 24

namespace InputError

/-- The wording of a refusal. -/
def message (e : InputError) : String :=
  e.field ++ ": " ++ match e.fault with
    | .notHex => "not an even-length hex string"
    | .notCode kind => "expected bytes or hex, got " ++ kind
    | .codeTooLong => s!"code exceeds {maxCodeSize} bytes"
    | .notInteger => "must be an integer"
    | .outOfRange => s!"must be within [0, {maxOffset}]"

end InputError

/-- Code as it arrives. -/
inductive CodeInput where
  | bytes (bs : Array UInt8)
  | text (s : String)
  | other (v : Value)

namespace CodeInput

/-- The bytes of hexadecimal text with optional blanks and an optional `0x` in front. -/
def hexBytes? (cs : List Char) : Option (Array UInt8) :=
  match Text.withoutBlanks cs with
  | '0' :: 'x' :: rest => Text.Hex.bytes? rest
  | rest => Text.Hex.bytes? rest

/-- The bytes of an input, of any number. -/
def toBytes (field : String) : CodeInput → Except InputError (Array UInt8)
  | bytes bs => .ok bs
  | text s =>
      match hexBytes? s.toList with
      | some bs => .ok bs
      | none => .error ⟨field, .notHex⟩
  | other v => .error ⟨field, .notCode v.kindName⟩

/-- The code of an input. -/
def code (input : CodeInput) (field : String) : Except InputError (Array UInt8) :=
  match input.toBytes field with
  | .error e => .error e
  | .ok bs => if maxCodeSize < bs.size then .error ⟨field, .codeTooLong⟩ else .ok bs

end CodeInput

/-- A code offset of three bytes. -/
abbrev Offset := { n : Nat // n ≤ maxOffset }

/-- The offset that a piece of data stands for.  Truth values are not integers here. -/
def Value.offset (field : String) (v : Value) : Except InputError Offset :=
  match v with
  | .bool _ => .error ⟨field, .notInteger⟩
  | _ =>
      match v.integer? with
      | none => .error ⟨field, .notInteger⟩
      | some n =>
          if h : 0 ≤ n ∧ n ≤ maxOffset then .ok ⟨n.toNat, by omega⟩
          else .error ⟨field, .outOfRange⟩

end FlowCheck
