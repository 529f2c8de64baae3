import FlowCheck.JumpTable.Search
import FlowCheck.Machine.Fault
import FlowCheck.Machine.Memory
import FlowCheck.Machine.Stack
import FlowCheck.Machine.Word
import FlowCheck.Program

/-!
# Machine states

What one run of a program holds fixed, what it changes, and the elementary actions on the data stack
and the memory.  An action that fails leaves the changes made before it in place.
-/

namespace FlowCheck.Machine

/-- What a run holds fixed. -/
structure Host where
  /-- The program. -/
  program : Program
  /-- The declared edges of its computed jumps. -/
  table : JumpTable := JumpTable.empty
  /-- The greatest height of the data stack. -/
  stackLimit : Amount := .whole 1024
  /-- The greatest height of the return stack. -/
  returnLimit : Amount := .whole 1024
  /-- The greatest memory size. -/
  memoryLimit : Amount := .whole (2 ^ 20)
  /-- The input bytes. -/
  calldata : Array UInt8 := #[]
  /-- The value sent along, unless it is no integer. -/
  callValue : Option Int := some 0

/-- What a run changes. -/
structure State where
  /-- The program counter. -/
  pc : Nat := 0
  /-- The data stack. -/
  stack : Stack Word := Stack.empty
  /-- The memory. -/
  memory : Memory := Memory.empty
  /-- The return stack. -/
  calls : ReturnStack Nat := ReturnStack.empty
  /-- The instructions executed so far. -/
  steps : Nat := 0

/-- An action of the machine. -/
abbrev Action (α : Type) := EStateM Fault State α

/-- A fault at the current counter, which names the byte found there. -/
def State.fault (host : Host) (s : State) (cause : FaultCause) : Fault where
  cause := cause
  pc := some s.pc
  offender := (host.program.code[s.pc]?).map (fun b => .byte b.toNat)

/-- Puts a word on the data stack. -/
def push (host : Host) (w : Word) : Action Unit := do
  let s ← get
  if host.stackLimit.ceil ≤ s.stack.height then throw (s.fault host (.stackFull host.stackLimit))
  else set { s with stack := s.stack.push w }

/-- Takes a word from the data stack. -/
def pop (host : Host) : Action Word := do
  let s ← get
  match s.stack.pop? with
  | none => throw (s.fault host .stackEmpty)
  | some (w, rest) =>
      set { s with stack := rest }
      return w

/-- The word below `depth` others. -/
def peek (host : Host) (depth : Nat) : Action Word := do
  let s ← get
  match s.stack.peek? depth with
  | none => throw (s.fault host (.noItem depth))
  | some w => return w

/-- Copies the word below `depth` others. -/
def dup (host : Host) (depth : Nat) : Action Unit := do
  let w ← peek host depth
  push host w

/-- Exchanges the top word with the one below `depth` others. -/
def swap (host : Host) (depth : Nat) : Action Unit := do
  let _ ← peek host depth
  modify (fun s => { s with stack := s.stack.swap depth })

/-- Grows the memory to cover `size` bytes. -/
def touch (host : Host) (size : Nat) : Action Unit := do
  let s ← get
  if host.memoryLimit.floor < size then throw (s.fault host (.memoryLimit size host.memoryLimit))
  else set { s with memory := s.memory.grow size }

/-- The bytes of a range of memory; an empty range touches nothing. -/
def readMemory (host : Host) (offset size : Nat) : Action (Array UInt8) := do
  if size = 0 then return #[]
  else
    touch host (offset + size)
    let s ← get
    return s.memory.read offset size

/-- The word at an offset. -/
def loadWord (host : Host) (offset : Nat) : Action Word := do
  let bs ← readMemory host offset 32
  return Word.ofBytes bs.toList

/-- Writes bytes at an offset. -/
def storeBytes (host : Host) (offset : Nat) (bs : List UInt8) : Action Unit := do
  touch host (offset + bs.length)
  modify (fun s => { s with memory := s.memory.write offset bs })

/-- Writes a word at an offset. -/
def storeWord (host : Host) (offset : Nat) (w : Word) : Action Unit :=
  storeBytes host offset w.toBytes

/-- Writes the low byte of a number at an offset. -/
def storeByte (host : Host) (offset : Nat) (n : Nat) : Action Unit :=
  storeBytes host offset [UInt8.ofNat (n % 256)]

end FlowCheck.Machine
