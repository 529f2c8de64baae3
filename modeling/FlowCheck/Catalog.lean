/-!
# The catalogue of public names

Which component of the tool each public name belongs to, and the version of the tool.
-/

namespace FlowCheck

/-- The version of the tool. -/
def version : String :=
  "0.3.1"

/-- A component of the tool. -/
inductive Component where
  /-- The table of instructions. -/
  | instructions
  /-- Program images and their decoder. -/
  | programs
  /-- Tables of legal jumps. -/
  | tables
  /-- The static validator. -/
  | validation
  /-- The subroutine runtime. -/
  | subroutines
  /-- The stack machine and the assembler. -/
  | machine
  /-- Verdicts, faults and other errors. -/
  | errors
  deriving DecidableEq, Repr

namespace Component

/-- All components. -/
def all : List Component :=
  [instructions, programs, tables, validation, subroutines, machine, errors]

/-- The public names of a component. -/
def names : Component → List String
  | instructions =>
      ["OpCode", "InstructionKind", "InstructionDescriptor", "InstructionSet", "SubroutineOperand",
        "get_instruction_set"]
  | programs => ["Program", "Instruction", "encode_offset", "decode_offset"]
  | tables => ["JumpTable", "JumpTableEntry", "EMPTY_JUMP_TABLE"]
  | validation => ["Validator", "SubroutineSummary", "validate", "load_program"]
  | subroutines => ["ReturnStack", "SubroutineRuntime"]
  | machine =>
      ["StackMachine", "ExecutionContext", "ExecutionResult", "HaltReason", "Word", "Assembler",
        "AssemblyError"]
  | errors =>
      ["SafeflowError", "ValidationFailure", "ExecutionFault", "JumpTableError", "InputError",
        "CodeRejected", "Verdict", "RejectReason", "FaultKind"]

/-- The component that a public name belongs to. -/
def ofName? (name : String) : Option Component :=
  all.find? (fun c => c.names.contains name)

end Component

end FlowCheck
