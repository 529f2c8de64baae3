import FlowCheck.Machine.Control
import FlowCheck.Probe.Statement

/-!
# Program counters of any kind

The instruction at a counter that is data of any kind.  Every number from the length of the code on
has the implicit stop; below it only the integers at which an instruction starts have one.
-/

namespace FlowCheck.Probe

/-- An instruction and its counter as it was given. -/
structure Located where
  instruction : Instruction
  counter : Value

/-- A place that no table lists. -/
def nowhere : Nat := maxOffset + 1

/-- The place that a counter behind the code stands for. -/
def placeOf (counter : Value) : Nat :=
  match counter with
  | .float x => ((Decimal.Binary.integer? x).map Int.toNat).getD nowhere
  | v => (v.integer?.map Int.toNat).getD nowhere

/-- The instruction at a counter. -/
def locate (p : Program) (counter : Value) : Except Failure Located := do
  if ← ofTried (ordered Ordering.isGE counter (.nat p.length)) then
    return ⟨Program.endOfCode (placeOf counter), counter⟩
  else
    match counter.integer? with
    | some n =>
        match p.decodeAt n with
        | .ok i => return ⟨i, counter⟩
        | .error r => throw (.refused (.ofRejection r counter))
    | none =>
        let refuse (cause : Cause) : Except Failure Located :=
          throw (.refused (.ofRejection ⟨cause, none, none⟩ counter))
        if ← ofTried (ordered Ordering.isLT counter (.int 0)) then refuse .negativeCounter
        else if p.boundaries.any (fun pc => counter.same (.nat pc)) then throw (.misuse .unfit)
        else refuse .insideImmediate

namespace Located

/-- The counter behind the instruction. -/
def next (l : Located) : Value :=
  match l.counter with
  | .float x => .float (x + 1.0)
  | _ => .nat l.instruction.next

/-- The record of the instruction. -/
def toValue (l : Located) : Tried Value := do
  let _ ← hexText 4 l.counter
  match l.instruction.toValue with
  | .map entries =>
      return .map (entries.map (fun (k, v) =>
        match k with
        | .text "pc" => (k, l.counter)
        | .text "next_pc" => (k, l.next)
        | _ => (k, v)))
  | v => return v

/-- A fault of the instruction, at its counter. -/
def fault (l : Located) (f : Fault) : Failure :=
  .faulted (.ofFault f l.counter)

end Located

end FlowCheck.Probe
