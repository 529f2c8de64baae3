import FlowCheck.Probe.Statement

/-!
# A machine on the bench

The data stack and the memory of a machine, worked by hand with data of any kind.  Depths and offsets
below zero count from the other end, and a range of memory is cut to what is there: writing a word
over a range that has been cut makes the memory longer or shorter.
-/

namespace FlowCheck.Probe

/-- What is fixed on the bench. -/
structure Bench where
  /-- The program that the counter points into. -/
  program : Program
  /-- The greatest height of the data stack. -/
  stackLimit : Value := .int 1024
  /-- The greatest memory size. -/
  memoryLimit : Value := .int (2 ^ 20)
  /-- The room for the memory. -/
  room : Room

/-- What changes on the bench. -/
structure Bench.State where
  /-- The program counter. -/
  counter : Value := .int 0
  /-- The values on the data stack, the top one first. -/
  stack : List Value := []
  /-- The memory. -/
  memory : Array UInt8 := #[]

namespace Bench

/-- An action on the bench. -/
abbrev Action (α : Type) := EStateM Failure Bench.State α

/-- A tried operation as an action. -/
def attempt (x : Tried α) : Action α :=
  match x with
  | .ok a => return a
  | .error m => throw (.misuse m)

/-- The index that an integer means in a sequence, counted from the end if it is below zero. -/
def index? (size : Nat) (n : Int) : Option Nat :=
  let i := if n < 0 then n + size else n
  if 0 ≤ i ∧ i < size then some i.toNat else none

/-- The end of a range that an integer means in a sequence. -/
def bound (size : Nat) (n : Int) : Nat :=
  min size (if n < 0 then n + size else n).toNat

/-- The byte at a counter, if there is one; nothing behind the end of the code. -/
def byteAt (p : Program) (counter : Value) : Tried Value := do
  if ← ordered Ordering.isLT counter (.nat p.length) then
    match index? p.length (← whole counter) with
    | some i => return .nat (p.code.getD i 0).toNat
    | none => throw .outside
  else return .null

/-- Ends an action with a fault at the counter. -/
def fail (b : Bench) (kind : FaultKind) (message : String) : Action α := do
  let counter := (← get).counter
  let opcode ← attempt (byteAt b.program counter)
  throw (.faulted ⟨kind.name, .text message, counter, opcode⟩)

/-- The value of a word.  A real number in range passes for one until an integer is needed. -/
def wordOf (v : Value) : Except Failure Value :=
  match Word.ofValue v, v with
  | .ok _, _ | .error .notWhole, .float _ => .ok v
  | .error .notWhole, _ => .error (.misuse .unfit)
  | .error e, _ => .error (.range e)

/-- Puts a value on the data stack. -/
def push (b : Bench) (v : Value) : Action Unit := do
  let s ← get
  if ← attempt (ordered Ordering.isGE (.nat s.stack.length) b.stackLimit) then
    let limit ← attempt (shown b.stackLimit)
    b.fail .stackOverflow s!"data stack holds {limit} items"
  else set { s with stack := v :: s.stack }

/-- Takes a value from the data stack. -/
def pop (b : Bench) : Action Value := do
  let s ← get
  match s.stack with
  | [] => b.fail .stackUnderflow "pop from an empty data stack"
  | v :: rest =>
      set { s with stack := rest }
      return v

/-- The place of the item at a depth; a depth below zero counts from the bottom. -/
def placeAt (b : Bench) (depth : Value) : Action Nat := do
  let size := (← get).stack.length
  if ← attempt (ordered Ordering.isGE depth (.nat size)) then
    let depth ← attempt (shown depth)
    b.fail .stackUnderflow s!"data stack has no item at depth {depth}"
  else
    match index? size (← attempt (whole depth)) with
    | some i => return i
    | none => throw (.misuse .outside)

/-- The item at a depth. -/
def peek (b : Bench) (depth : Value) : Action Value := do
  let i ← b.placeAt depth
  return (← get).stack.getD i .null

/-- Copies the item at a depth. -/
def dup (b : Bench) (depth : Value) : Action Unit := do
  b.push (← b.peek depth)

/-- Exchanges the top item with the one at a depth. -/
def swap (b : Bench) (depth : Value) : Action Unit := do
  let i ← b.placeAt depth
  modify (fun s =>
    { s with stack := (s.stack.set i (s.stack.getD 0 .null)).set 0 (s.stack.getD i .null) })

/-- Grows the memory to cover so many bytes, if there is room; the number has to be an integer. -/
def touch (b : Bench) (size : Value) : Action Unit := do
  if ← attempt (ordered Ordering.isGT size b.memoryLimit) then
    let size ← attempt (shown size)
    let limit ← attempt (shown b.memoryLimit)
    b.fail .memoryLimitExceeded s!"memory access up to {size} exceeds {limit} bytes"
  else
    let n ← attempt (whole size)
    let s ← get
    let grown := Memory.roundUp n.toNat
    if max s.memory.size b.room.bytes < grown then
      throw (.misuse (b.room.refusal (grown - s.memory.size)))
    else set { s with memory := (Memory.grow ⟨s.memory⟩ n.toNat).bytes }

/-- The bytes of a range of memory; an empty range touches nothing. -/
def readMemory (b : Bench) (offset size : Value) : Action (Array UInt8) := do
  if size.same (.int 0) then return #[]
  else
    let stop ← attempt (sum offset size)
    b.touch stop
    let start ← attempt (whole offset)
    let stop ← attempt (whole stop)
    let m := (← get).memory
    return m.extract (bound m.size start) (bound m.size stop)

/-- The number of the word at an offset. -/
def loadWord (b : Bench) (offset : Value) : Action Nat := do
  let bytes ← b.readMemory offset (.int 32)
  return (Word.ofBytes bytes.toList).toNat

/-- A sequence with a range replaced; a range that ends before it starts is empty. -/
def splice (m : Array UInt8) (start stop : Nat) (bytes : List UInt8) : Array UInt8 :=
  m.extract 0 start ++ bytes.toArray ++ m.extract (max start stop) m.size

/-- Writes a word at an offset. -/
def storeWord (b : Bench) (offset value : Value) : Action Unit := do
  let stop ← attempt (sum offset (.int 32))
  b.touch stop
  match value.integer? with
  | none => throw (.misuse .lacking)
  | some n =>
      let start ← attempt (whole offset)
      let stop ← attempt (whole stop)
      modify (fun s =>
        let m := s.memory
        { s with
          memory := splice m (bound m.size start) (bound m.size stop) (Word.ofInt n).toBytes })

/-- Writes the low byte of a number at an offset. -/
def storeByte (b : Bench) (offset value : Value) : Action Unit := do
  b.touch (← attempt (sum offset (.int 1)))
  let n ← attempt (whole value)
  let start ← attempt (whole offset)
  let s ← get
  match index? s.memory.size start with
  | some i => set { s with memory := s.memory.setIfInBounds i (UInt8.ofNat (n % 256).toNat) }
  | none => throw (.misuse .outside)

end Bench

/-- Whether the stack can be shown: all its values are integers. -/
def Bench.State.isShowable (s : Bench.State) : Bool :=
  s.stack.all (fun v => v.integer?.isSome)

/-- The hexadecimal texts of the stack, from the bottom. -/
def Bench.State.stackValue (s : Bench.State) : Value :=
  .list (s.stack.reverse.map (fun v =>
    .text ("0x" ++ Text.Hex.ofNat ((v.integer?.map Int.toNat).getD 0))))

end FlowCheck.Probe
