import FlowCheck.Opcode
import FlowCheck.Decimal.Amount
import FlowCheck.Text.Hex

/-!
# Rejections and verdicts

Why a program is refused, where, and in which words.  Every cause has one reason and one message;
a rejection adds the program counter and the instruction that it concerns.
-/

namespace FlowCheck

/-- The public code of a rejection. -/
inductive Reason where
  | invalidInstruction | invalidJumpDestination | stackUnderflow | stackOverflow
  | inconsistentStackDepth | unbalancedReturn | stepLimitExceeded
  deriving DecidableEq

namespace Reason

/-- The text of a reason. -/
def name : Reason → String
  | invalidInstruction => "InvalidInstruction"
  | invalidJumpDestination => "InvalidJumpDestination"
  | stackUnderflow => "StackUnderflow"
  | stackOverflow => "StackOverflow"
  | inconsistentStackDepth => "InconsistentStackDepth"
  | unbalancedReturn => "UnbalancedReturn"
  | stepLimitExceeded => "StepLimitExceeded"

/-- Every reason. -/
def all : List Reason :=
  [invalidInstruction, invalidJumpDestination, stackUnderflow, stackOverflow,
    inconsistentStackDepth, unbalancedReturn, stepLimitExceeded]

/-- The reason of a text. -/
def ofName? (s : String) : Option Reason :=
  all.find? (fun r => r.name == s)

end Reason

/-- The instruction a rejection or fault concerns: a recognised opcode, or a bare byte value. -/
inductive Offender where
  | opcode (op : Opcode)
  | byte (value : Int)
  deriving DecidableEq

namespace Offender

/-- The byte value of the instruction. -/
def value : Offender → Int
  | opcode op => op.toByte.toNat
  | byte n => n

end Offender

/-- The byte that a transfer of control has to land on. -/
inductive Marker where
  | jumpdest | entry
  deriving DecidableEq

namespace Marker

/-- The mnemonic of the marker. -/
def name : Marker → String
  | jumpdest => "JUMPDEST"
  | entry => "BEGINSUB"

end Marker

/-- Joins a code, a place, an instruction and a message, leaving out what is missing. -/
def describeAt (code message : String) (pc : Option Int) (offender : Option Offender) : String :=
  let place := match pc with
    | some n => " at pc=" ++ toString n
    | none => ""
  let instruction := match offender with
    | some o => " (opcode 0x" ++ Text.Hex.padded 2 o.value ++ ")"
    | none => ""
  let head := code ++ place ++ instruction
  if message.isEmpty then head else head ++ ": " ++ message

/-- What the validator or the decoder found wrong. -/
inductive Cause where
  /-- A program counter below zero. -/
  | negativeCounter
  /-- A program counter inside immediate data. -/
  | insideImmediate
  /-- A byte that is no opcode. -/
  | unrecognised
  /-- More traversal steps than the ceiling allows. -/
  | stepLimit (ceiling : Amount)
  /-- Two stack depths at one instruction. -/
  | depthMismatch (depth seen : Int)
  /-- Too few items for an instruction of the main program. -/
  | underflow (mnemonic : String) (needs : Nat) (depth : Int)
  /-- A subroutine that digs deeper into its caller's items than the limit. -/
  | callerItems (entry : Int) (limit : Amount)
  /-- A stack higher than the limit. -/
  | overflow (depth : Int) (limit : Amount)
  /-- A constant target that does not land on its marker. -/
  | staticNotMarker (target : Nat) (marker : Marker)
  /-- A constant target that the declared edges of the site leave out. -/
  | staticNotDeclared (target : Nat)
  /-- A computed target at a site without declared edges. -/
  | noEntries
  /-- A declared target that does not land on its marker. -/
  | tableNotMarker (target : Nat) (marker : Marker)
  /-- A call whose immediate target is no subroutine entry. -/
  | notEntry (target : Nat)
  /-- A subroutine that returns below the base of the main stack. -/
  | belowBase (entry items : Int)
  /-- A stack higher than the limit once a subroutine has returned. -/
  | overflowAfterReturn (depth : Int) (limit : Amount)
  /-- A return that the main program reaches. -/
  | strayReturn
  /-- Two depths at the returns of one subroutine. -/
  | returnMismatch (entry depth elsewhere : Int)
  /-- A call site with too few items for the callee. -/
  | shortCallSite (entry need available : Int)
  /-- A chain of calls higher than the limit. -/
  | callChain (peak : Int) (limit : Amount)

namespace Cause

/-- The public code of a cause. -/
def reason : Cause → Reason
  | negativeCounter | insideImmediate | unrecognised => .invalidInstruction
  | stepLimit _ => .stepLimitExceeded
  | depthMismatch .. | returnMismatch .. => .inconsistentStackDepth
  | underflow .. | callerItems .. | belowBase .. | shortCallSite .. => .stackUnderflow
  | overflow .. | overflowAfterReturn .. | callChain .. => .stackOverflow
  | staticNotMarker .. | staticNotDeclared _ | noEntries | tableNotMarker .. | notEntry _ =>
      .invalidJumpDestination
  | strayReturn => .unbalancedReturn

/-- The wording of a cause. -/
def message : Cause → String
  | negativeCounter => "negative program counter"
  | insideImmediate => "program counter lands inside immediate data"
  | unrecognised => "unrecognised opcode"
  | stepLimit ceiling => s!"traversal exceeded {ceiling.text} steps"
  | depthMismatch depth seen => s!"reached with stack depth {depth}, previously {seen}"
  | underflow mnemonic needs depth => s!"{mnemonic} needs {needs} items, stack depth is {depth}"
  | callerItems entry limit =>
      s!"subroutine at {entry} consumes more than {limit.text} caller items"
  | overflow depth limit => s!"stack depth {depth} exceeds {limit.text}"
  | staticNotMarker target marker => s!"static target {target} is not a {marker.name}"
  | staticNotDeclared target =>
      s!"static target {target} is not among the declared edges of this site"
  | noEntries => "dynamic jump has no jump table entries"
  | tableNotMarker target marker => s!"jump table target {target} is not a {marker.name}"
  | notEntry target => s!"subroutine target {target} is not a BEGINSUB"
  | belowBase entry items => s!"subroutine at {entry} returns {items} items below the stack base"
  | overflowAfterReturn depth limit => s!"stack depth {depth} after return exceeds {limit.text}"
  | strayReturn => "RETURNSUB reachable outside of any subroutine"
  | returnMismatch entry depth elsewhere =>
      s!"subroutine at {entry} returns with depth {depth}, elsewhere {elsewhere}"
  | shortCallSite entry need available =>
      s!"subroutine at {entry} needs {need} items, {available} available relative to the caller"
  | callChain peak limit => s!"call chain reaches stack depth {peak}, limit {limit.text}"

end Cause

/-- A refusal: its cause, and the place and instruction it concerns. -/
structure Rejection where
  /-- What is wrong. -/
  cause : Cause
  /-- The program counter it concerns. -/
  pc : Option Int
  /-- The instruction it concerns. -/
  offender : Option Offender := none

namespace Rejection

/-- The full text of a rejection. -/
def text (r : Rejection) : String :=
  describeAt r.cause.reason.name r.cause.message r.pc r.offender

end Rejection

/-- The outcome of validating one program. -/
inductive Verdict where
  | accepted
  | rejected (rejection : Rejection)

namespace Verdict

/-- Whether the program may be deployed. -/
def isAccepted : Verdict → Bool
  | accepted => true
  | rejected _ => false

/-- The verdict in one line. -/
def describe : Verdict → String
  | accepted => "accepted"
  | rejected r => r.text

/-- The message of a host that refuses to deploy a rejected program. -/
def refusal? : Verdict → Option String
  | accepted => none
  | rejected r => some ("code rejected: " ++ r.text)

end Verdict

end FlowCheck
