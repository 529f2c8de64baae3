import FlowCheck.Rejection

/-!
# Execution faults

Why a single run ends early, where, and in which words.
-/

namespace FlowCheck

/-- The public code of a fault. -/
inductive FaultKind where
  | invalidInstruction | invalidJumpDestination | returnStackOverflow | returnStackUnderflow
  | stackUnderflow | stackOverflow | outOfSteps | memoryLimitExceeded | unsupportedInstruction
  deriving DecidableEq

namespace FaultKind

/-- The text of a fault kind. -/
def name : FaultKind → String
  | invalidInstruction => "InvalidInstruction"
  | invalidJumpDestination => "InvalidJumpDestination"
  | returnStackOverflow => "ReturnStackOverflow"
  | returnStackUnderflow => "ReturnStackUnderflow"
  | stackUnderflow => "StackUnderflow"
  | stackOverflow => "StackOverflow"
  | outOfSteps => "OutOfSteps"
  | memoryLimitExceeded => "MemoryLimitExceeded"
  | unsupportedInstruction => "UnsupportedInstruction"

/-- Every fault kind. -/
def all : List FaultKind :=
  [invalidInstruction, invalidJumpDestination, returnStackOverflow, returnStackUnderflow,
    stackUnderflow, stackOverflow, outOfSteps, memoryLimitExceeded, unsupportedInstruction]

/-- The fault kind of a text. -/
def ofName? (s : String) : Option FaultKind :=
  all.find? (fun k => k.name == s)

end FaultKind

/-- What went wrong in a run. -/
inductive FaultCause where
  /-- No instruction can be decoded. -/
  | undecodable (cause : Cause)
  /-- The data stack is full. -/
  | stackFull (limit : Amount)
  /-- The data stack is empty. -/
  | stackEmpty
  /-- The data stack is not deep enough. -/
  | noItem (depth : Nat)
  /-- An access beyond the memory limit. -/
  | memoryLimit (size : Nat) (limit : Amount)
  /-- The step budget is used up. -/
  | outOfSteps (budget : Amount)
  /-- An instruction that needs a surrounding chain. -/
  | unsupported (mnemonic : String)
  /-- A value sent along that is no integer. -/
  | valueNotWhole
  /-- The return stack is full. -/
  | returnStackFull (limit : Amount)
  /-- The return stack is empty. -/
  | returnStackEmpty
  /-- A call that does not land on a subroutine entry. -/
  | notEntry (target : Nat)
  /-- A jump that does not land on a jump destination. -/
  | notJumpdest (target : Nat)
  /-- An edge that the site does not declare. -/
  | undeclaredEdge (source target : Nat)

namespace FaultCause

/-- The public code of a cause. -/
def kind : FaultCause → FaultKind
  | undecodable _ => .invalidInstruction
  | stackFull _ => .stackOverflow
  | stackEmpty | noItem _ => .stackUnderflow
  | memoryLimit .. => .memoryLimitExceeded
  | outOfSteps _ => .outOfSteps
  | unsupported _ | valueNotWhole => .unsupportedInstruction
  | returnStackFull _ => .returnStackOverflow
  | returnStackEmpty => .returnStackUnderflow
  | notEntry _ | notJumpdest _ | undeclaredEdge .. => .invalidJumpDestination

/-- The wording of a cause. -/
def message : FaultCause → String
  | undecodable cause => cause.message
  | stackFull limit => s!"data stack holds {limit.text} items"
  | stackEmpty => "pop from an empty data stack"
  | noItem depth => s!"data stack has no item at depth {depth}"
  | memoryLimit size limit => s!"memory access up to {size} exceeds {limit.text} bytes"
  | outOfSteps budget => s!"step budget of {budget.text} exhausted"
  | unsupported mnemonic => s!"{mnemonic} is not implemented by the reference host"
  | valueNotWhole => "the value sent along is no integer"
  | returnStackFull limit => s!"return stack holds {limit.text} items"
  | returnStackEmpty => "RETURNSUB with an empty return stack"
  | notEntry target => s!"subroutine target {target} is not a BEGINSUB"
  | notJumpdest target => s!"jump target {target} is not a JUMPDEST"
  | undeclaredEdge source target => s!"edge {source} -> {target} is not in the jump table"

end FaultCause

/-- The end of a run by a fault: its cause, and the place and instruction it concerns. -/
structure Fault where
  /-- What went wrong. -/
  cause : FaultCause
  /-- The program counter it concerns. -/
  pc : Option Int
  /-- The instruction it concerns. -/
  offender : Option Offender := none

namespace Fault

/-- The full text of a fault. -/
def text (f : Fault) : String :=
  describeAt f.cause.kind.name f.cause.message f.pc f.offender

end Fault

end FlowCheck
