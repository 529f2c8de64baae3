import FlowCheck.Probe.Misuse
import FlowCheck.Record

/-!
# Statements

A rejection or a fault whose parts are data of any kind, and its text: the code, the place, the
instruction and the message, each only if it is there.
-/

namespace FlowCheck.Probe

/-- The parts of a rejection or of a fault. -/
structure Statement where
  /-- The public code. -/
  code : String
  /-- What is said about it. -/
  message : Value
  /-- The program counter it concerns. -/
  pc : Value
  /-- The instruction it concerns. -/
  opcode : Value

namespace Statement

/-- The text of a statement. -/
def text (s : Statement) : Tried String := do
  let place ← match s.pc with
    | .null => pure ""
    | pc => do pure (" at pc=" ++ (← shown pc))
  let culprit ← match s.opcode with
    | .null => pure ""
    | opcode => do pure (" (opcode 0x" ++ (← hexText 2 opcode) ++ ")")
  let head := s.code ++ place ++ culprit
  if s.message.isTruthy then return head ++ ": " ++ (← shown s.message) else return head

/-- The record of a fault. -/
def faultRecord (s : Statement) : Value :=
  .record [("kind", .text s.code), ("pc", s.pc), ("opcode", s.opcode), ("message", s.message)]

/-- The record of a rejecting verdict. -/
def verdictRecord (s : Statement) : Value :=
  .record [("accepted", .bool false), ("reason", .text s.code), ("pc", s.pc), ("opcode", s.opcode),
    ("message", s.message)]

/-- A rejection at a counter as it was given. -/
def ofRejection (r : Rejection) (counter : Value) : Statement where
  code := r.cause.reason.name
  message := .text r.cause.message
  pc := counter
  opcode := Value.ofOption Offender.toValue r.offender

/-- A fault at a counter as it was given. -/
def ofFault (f : Fault) (counter : Value) : Statement where
  code := f.cause.kind.name
  message := .text f.cause.message
  pc := counter
  opcode := Value.ofOption Offender.toValue f.offender

end Statement

/-- Why a probe fails. -/
inductive Failure where
  /-- The data does not fit the operation. -/
  | misuse (m : Misuse)
  /-- There is no instruction at a counter. -/
  | refused (s : Statement)
  /-- The machine faults. -/
  | faulted (s : Statement)
  /-- The data is no word. -/
  | range (e : Word.RangeError)

/-- A tried operation within a probe. -/
def ofTried (x : Tried α) : Except Failure α :=
  match x with
  | .ok a => .ok a
  | .error m => .error (.misuse m)

end FlowCheck.Probe
