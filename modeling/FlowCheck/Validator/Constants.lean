import FlowCheck.InstructionSet

/-!
# Tracked constants

What is known about the top of the data stack: a list, top first, of words that are known or not.
Everything below the list is unknown.  The list is cut to a capacity after every instruction, and
forgotten at every place where control may arrive from elsewhere.
-/

namespace FlowCheck.Validator

/-- The known words at the top of the stack. -/
abbrev Constants := List (Option Nat)

namespace Constants

/-- Exchanges the top entry with the one below `n` others, adding unknown entries below if needed. -/
def swap (constants : Constants) (n : Nat) : Constants :=
  let filled := constants ++ List.replicate (n + 2 - constants.length) none
  match filled[0]?, filled[n + 1]? with
  | some a, some b => (filled.set 0 b).set (n + 1) a
  | _, _ => filled

/-- The entries after a plain instruction, before they are cut. -/
def afterPlain (d : Descriptor) (constants : Constants) : Constants :=
  match d.opcode with
  | .dup n => (constants[n.val]?).join :: constants
  | .swap n => constants.swap n.val
  | _ => List.replicate d.outputs none ++ constants.drop d.inputs

/-- The entries after a push of a known word, before they are cut. -/
def afterPush (immediate : Option Nat) (constants : Constants) : Constants :=
  immediate :: constants

/-- The word on top, if it is known. -/
def top? (constants : Constants) : Option Nat :=
  constants.head?.join

end Constants

end FlowCheck.Validator
