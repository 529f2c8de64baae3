import FlowCheck.Machine.State

/-!
# Control flow

Calls, returns and jumps.  A call pushes the counter behind it on the return stack; a return pops
it.  Sites that the jump table lists may take only the edges listed for them, and every transfer has
to land on its marker.  Each handler yields the next program counter.
-/

namespace FlowCheck.Machine

/-- A fault at an instruction. -/
def faultAt (i : Instruction) (cause : FaultCause) : Fault where
  cause := cause
  pc := some i.pc
  offender := some i.offender

/-- Puts a resumption point on a return stack of limited height. -/
def pushReturn (limit : Amount) (i : Instruction) (calls : ReturnStack α) (a : α) :
    Except Fault (ReturnStack α) :=
  if limit.ceil ≤ calls.stack.height then .error (faultAt i (.returnStackFull limit))
  else .ok (calls.push a)

/-- Takes the last resumption point from a return stack. -/
def popReturn (i : Instruction) (calls : ReturnStack α) : Except Fault (α × ReturnStack α) :=
  match calls.pop? with
  | none => .error (faultAt i .returnStackEmpty)
  | some r => .ok r

/-- Refuses an edge that a listed site does not declare. -/
def checkEdge (host : Host) (i : Instruction) (dest : Nat) : Action Unit := do
  if host.table.hasSource i.pc && !host.table.hasEdge i.pc dest then
    throw (faultAt i (.undeclaredEdge i.pc dest))

/-- Refuses a jump that is undeclared or misses its marker. -/
def checkJump (host : Host) (i : Instruction) (dest : Nat) : Action Unit := do
  checkEdge host i dest
  if !host.program.isJumpdest dest then throw (faultAt i (.notJumpdest dest))

/-- Marks the start of a subroutine and does nothing else. -/
def beginSub (i : Instruction) : Action Nat :=
  return i.next

/-- The target of a call: its immediate, or the top of the data stack. -/
def callTarget (host : Host) (i : Instruction) : Action Nat := do
  match i.immediate with
  | some target => return target
  | none =>
      let w ← pop host
      checkEdge host i w.toNat
      return w.toNat

/-- Calls a subroutine. -/
def jumpSub (host : Host) (i : Instruction) : Action Nat := do
  let target ← callTarget host i
  if !host.program.isEntry target then throw (faultAt i (.notEntry target))
  let s ← get
  match pushReturn host.returnLimit i s.calls i.next with
  | .error f => throw f
  | .ok calls =>
      set { s with calls := calls }
      return target

/-- Returns from a subroutine. -/
def returnSub (i : Instruction) : Action Nat := do
  let s ← get
  match popReturn i s.calls with
  | .error f => throw f
  | .ok (target, calls) =>
      set { s with calls := calls }
      return target

/-- Jumps to the top of the data stack. -/
def jump (host : Host) (i : Instruction) : Action Nat := do
  let dest ← pop host
  checkJump host i dest.toNat
  return dest.toNat

/-- Jumps to the top of the data stack if the word below it is not zero. -/
def jumpIf (host : Host) (i : Instruction) : Action Nat := do
  let dest ← pop host
  let condition ← pop host
  if condition.toNat = 0 then return i.next
  else
    checkJump host i dest.toNat
    return dest.toNat

/-- The handler of a control-flow instruction. -/
def control? (host : Host) (i : Instruction) : Option (Action Nat) :=
  match i.descriptor.kind with
  | .beginsub => some (beginSub i)
  | .jumpsub => some (jumpSub host i)
  | .returnsub => some (returnSub i)
  | .jump => some (jump host i)
  | .jumpi => some (jumpIf host i)
  | .plain | .terminal | .push => none

end FlowCheck.Machine
