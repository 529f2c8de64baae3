import FlowCheck.Opcode
import FlowCheck.Text.Capital

/-!
# The instruction set

What each opcode takes from and leaves on the data stack, how many immediate bytes follow it, and
how it moves control.  A subroutine call finds its target either in three immediate bytes or on the
data stack; that choice is the operand mode, and only the call's row depends on it.
-/

namespace FlowCheck

/-- Where a subroutine call finds its target. -/
inductive OperandMode where
  | immediate | stack
  deriving DecidableEq

/-- How an instruction moves control. -/
inductive Kind where
  | plain | jump | jumpi | beginsub | jumpsub | returnsub | terminal | push
  deriving DecidableEq

/-- One row of the instruction set. -/
structure Descriptor where
  /-- The opcode the row describes. -/
  opcode : Opcode
  /-- How many immediate bytes follow the opcode. -/
  width : Nat
  /-- How many words the instruction takes. -/
  inputs : Nat
  /-- How many words the instruction leaves. -/
  outputs : Nat
  /-- How the instruction moves control. -/
  kind : Kind
  deriving DecidableEq

/-- The width of code offsets in calls and in jump tables. -/
def offsetWidth : Nat := 3

namespace OperandMode

/-- The configured name of a mode. -/
def name : OperandMode → String
  | immediate => "immediate"
  | stack => "stack"

/-- The mode of a configured name. -/
def ofName? : String → Option OperandMode
  | "immediate" => some immediate
  | "stack" => some stack
  | _ => none

/-- The row of an opcode under a mode. -/
def describe (mode : OperandMode) (op : Opcode) : Descriptor :=
  match op with
  | .stop => ⟨op, 0, 0, 0, .terminal⟩
  | .ret | .revert => ⟨op, 0, 2, 0, .terminal⟩
  | .selfdestruct => ⟨op, 0, 1, 0, .terminal⟩
  | .unary _ => ⟨op, 0, 1, 1, .plain⟩
  | .binary _ => ⟨op, 0, 2, 1, .plain⟩
  | .ternary _ => ⟨op, 0, 3, 1, .plain⟩
  | .host h => ⟨op, 0, h.inputs, h.outputs, .plain⟩
  | .callvalue | .calldatasize | .codesize | .pc | .msize => ⟨op, 0, 0, 1, .plain⟩
  | .calldataload | .mload => ⟨op, 0, 1, 1, .plain⟩
  | .pop => ⟨op, 0, 1, 0, .plain⟩
  | .mstore | .mstore8 => ⟨op, 0, 2, 0, .plain⟩
  | .jumpdest => ⟨op, 0, 0, 0, .plain⟩
  | .jump => ⟨op, 0, 1, 0, .jump⟩
  | .jumpi => ⟨op, 0, 2, 0, .jumpi⟩
  | .beginsub => ⟨op, 0, 0, 0, .beginsub⟩
  | .returnsub => ⟨op, 0, 0, 0, .returnsub⟩
  | .jumpsub =>
      match mode with
      | immediate => ⟨op, offsetWidth, 0, 0, .jumpsub⟩
      | stack => ⟨op, 0, 1, 0, .jumpsub⟩
  | .push n => ⟨op, n.val + 1, 0, 1, .push⟩
  | .dup n => ⟨op, 0, n.val + 1, n.val + 2, .plain⟩
  | .swap n => ⟨op, 0, n.val + 2, n.val + 2, .plain⟩

/-- The row of a byte, if the byte is recognised. -/
def lookup (mode : OperandMode) (b : UInt8) : Option Descriptor :=
  (Opcode.ofByte? b).map mode.describe

/-- The row at a position of the table of 256 rows; negative positions count from its end, and
positions outside the table have no row at all. -/
def rowAt? (mode : OperandMode) (n : Int) : Option (Option Descriptor) :=
  if 0 ≤ n ∧ n < 256 then some (mode.lookup (UInt8.ofNat n.toNat))
  else if -256 ≤ n ∧ n < 0 then some (mode.lookup (UInt8.ofNat (n + 256).toNat))
  else none

/-- The row of a mnemonic in any case. -/
def ofMnemonic? (mode : OperandMode) (s : String) : Option Descriptor :=
  let wanted := Text.capitals s
  (Opcode.all.find? (fun op => op.mnemonic == wanted)).map mode.describe

/-- Every row, in the order of the bytes. -/
def rows (mode : OperandMode) : List Descriptor :=
  Opcode.all.map mode.describe

end OperandMode

namespace Kind

/-- The name of a kind in reports. -/
def name : Kind → String
  | plain => "plain"
  | jump => "jump"
  | jumpi => "jumpi"
  | beginsub => "beginsub"
  | jumpsub => "jumpsub"
  | returnsub => "returnsub"
  | terminal => "terminal"
  | push => "push"

/-- Whether the control-flow executor handles the kind. -/
def isControl : Kind → Bool
  | jump | jumpi | beginsub | jumpsub | returnsub => true
  | plain | terminal | push => false

end Kind

namespace Descriptor

/-- The mnemonic of the described opcode. -/
def mnemonic (d : Descriptor) : String :=
  d.opcode.mnemonic

/-- How the instruction changes the height of the data stack. -/
def delta (d : Descriptor) : Int :=
  (d.outputs : Int) - d.inputs

end Descriptor

end FlowCheck
