import FlowCheck.Machine.Control

/-!
# Runs

One instruction at a time until the program stops, ends or faults.  The step budget is the recursion
argument, so every run ends.
-/

namespace FlowCheck.Machine

/-- How a run that does not fault ends. -/
inductive HaltReason where
  | stop | ret | revert | endOfCode
  deriving DecidableEq

/-- The name of a halt reason. -/
def HaltReason.name : HaltReason → String
  | stop => "stop"
  | ret => "return"
  | revert => "revert"
  | endOfCode => "end_of_code"

/-- How a run ends. -/
inductive Ending where
  /-- The program halted, with return data. -/
  | halted (reason : HaltReason) (data : Array UInt8)
  /-- The run faulted. -/
  | faulted (fault : Fault)

/-- What follows an instruction. -/
inductive Next where
  /-- Control moves to a counter. -/
  | goto (pc : Nat)
  /-- The program halts, with return data. -/
  | halt (reason : HaltReason) (data : Array UInt8)

/-- The end of a run and the state it ends in. -/
structure Outcome where
  /-- How the run ended. -/
  ending : Ending
  /-- The final state. -/
  state : State

/-- Whether the run did its work: it halted, and not by reverting. -/
def Outcome.isSuccess (o : Outcome) : Bool :=
  match o.ending with
  | .halted reason _ => reason != .revert
  | .faulted _ => false

/-- The name of the ending in reports. -/
def Outcome.haltName (o : Outcome) : String :=
  match o.ending with
  | .halted reason _ => reason.name
  | .faulted _ => "fault"

/-- Takes an offset and a size and reads the return data. -/
def haltWith (host : Host) (reason : HaltReason) : Action Next := do
  let offset ← pop host
  let size ← pop host
  let data ← readMemory host offset.toNat size.toNat
  return .halt reason data

/-- The 32 input bytes at an offset, zero behind the end of the input. -/
def inputWord (host : Host) (offset : Nat) : Word :=
  Word.ofBytes ((List.range 32).map (fun i => host.calldata.getD (offset + i) 0))

/-- Executes an instruction that continues behind itself. -/
def compute (host : Host) (i : Instruction) : Action Unit := do
  match i.opcode with
  | .push _ => push host (Word.ofNat (i.immediate.getD 0))
  | .binary op =>
      let a ← pop host
      let b ← pop host
      push host (Word.binary op a b)
  | .unary op =>
      let a ← pop host
      push host (Word.unary op a)
  | .ternary op =>
      let a ← pop host
      let b ← pop host
      let n ← pop host
      push host (Word.ternary op a b n)
  | .dup n => dup host n.val
  | .swap n => swap host (n.val + 1)
  | .pop => let _ ← pop host
  | .jumpdest => return ()
  | .mload =>
      let offset ← pop host
      let w ← loadWord host offset.toNat
      push host w
  | .mstore =>
      let offset ← pop host
      let w ← pop host
      storeWord host offset.toNat w
  | .mstore8 =>
      let offset ← pop host
      let w ← pop host
      storeByte host offset.toNat w.toNat
  | .msize =>
      let s ← get
      push host (Word.ofNat s.memory.size)
  | .pc => push host (Word.ofNat i.pc)
  | .codesize => push host (Word.ofNat host.program.length)
  | .callvalue =>
      match host.callValue with
      | some n => push host (Word.ofInt n)
      | none => throw (faultAt i .valueNotWhole)
  | .calldatasize => push host (Word.ofNat host.calldata.size)
  | .calldataload =>
      let offset ← pop host
      push host (inputWord host offset.toNat)
  | _ => throw (faultAt i (.unsupported i.descriptor.mnemonic))

/-- Executes one instruction. -/
def step (host : Host) (i : Instruction) : Action Next := do
  match control? host i with
  | some action => return .goto (← action)
  | none =>
      match i.opcode with
      | .stop => return .halt .stop #[]
      | .ret => haltWith host .ret
      | .revert => haltWith host .revert
      | _ =>
          compute host i
          return .goto i.next

/-- Runs from a state with so many steps left. -/
def runFrom (host : Host) (budget : Amount) : (remaining : Nat) → State → Outcome
  | remaining, s =>
      match host.program.decode s.pc with
      | .error r => ⟨.faulted ⟨.undecodable r.cause, some s.pc, r.offender⟩, s⟩
      | .ok i =>
          if i.implicit then ⟨.halted .endOfCode #[], s⟩
          else
            match remaining with
            | 0 => ⟨.faulted (faultAt i (.outOfSteps budget)), s⟩
            | remaining + 1 =>
                match (step host i).run { s with steps := s.steps + 1 } with
                | .error f s' => ⟨.faulted f, s'⟩
                | .ok (.halt reason data) s' => ⟨.halted reason data, s'⟩
                | .ok (.goto pc) s' => runFrom host budget remaining { s' with pc := pc }

/-- Runs a program from the start. -/
def run (host : Host) (budget : Amount) : Outcome :=
  runFrom host budget budget.ceil.toNat {}

end FlowCheck.Machine
