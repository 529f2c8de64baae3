import FlowCheck.Value.Basic

/-!
# Unknown names

Several inputs are names out of a fixed family: operand modes, log levels, layers, output formats,
reasons and fault kinds.  A name outside its family is refused with the same words everywhere.
-/

namespace FlowCheck

/-- A value that names no member of a family. -/
structure UnknownName where
  /-- What was given. -/
  value : Value
  /-- The name of the family. -/
  family : String

/-- The wording of a refusal, unless the value holds a number too long to be written. -/
def UnknownName.message (e : UnknownName) : String :=
  if e.value.isPrintable then s!"{e.value.quoted} is not a valid {e.family}"
  else Text.Numeral.printRefusal

/-- Looks a value up as a name of a family. -/
def Value.named (family : String) (ofName? : String → Option α) (v : Value) :
    Except UnknownName α :=
  match v with
  | .text s =>
      match ofName? s with
      | some a => .ok a
      | none => .error ⟨v, family⟩
  | _ => .error ⟨v, family⟩

end FlowCheck
