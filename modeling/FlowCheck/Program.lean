import FlowCheck.InstructionSet
import FlowCheck.Rejection
import FlowCheck.Bytes.BigEndian

/-!
# Programs

A program is a byte string read under an operand mode.  One scan from the left marks every byte as
immediate data, as an instruction boundary, or as one of the two landing markers.  The counters at
and beyond the end of the code hold an implicit stop.
-/

namespace FlowCheck

/-- What the scan finds at a position of the code. -/
inductive Mark where
  /-- A byte of an immediate. -/
  | immediate
  /-- An instruction, or an unrecognised byte, that is no landing marker. -/
  | boundary
  /-- A jump destination. -/
  | jumpdest
  /-- A subroutine entry. -/
  | entry
  deriving DecidableEq

namespace Mark

/-- The mark of an instruction boundary that holds a given byte. -/
def ofOpcode? : Option Opcode → Mark
  | some .jumpdest => jumpdest
  | some .beginsub => entry
  | _ => boundary

/-- The number of immediate bytes behind a boundary that holds a given byte. -/
def skipAfter (mode : OperandMode) : Option Opcode → Nat
  | some op => (mode.describe op).width
  | none => 0

/-- One step of the scan; the first component counts the immediate bytes still to pass. -/
def step (mode : OperandMode) (state : Nat × Array Mark) (b : UInt8) : Nat × Array Mark :=
  match state with
  | (skip + 1, marks) => (skip, marks.push immediate)
  | (0, marks) =>
      let op := Opcode.ofByte? b
      (skipAfter mode op, marks.push (ofOpcode? op))

/-- The marks of a byte string, position by position. -/
def scan (mode : OperandMode) (code : Array UInt8) : Array Mark :=
  (code.foldl (step mode) (0, #[])).2

end Mark

/-- A program image: code, operand mode, and the marks of the code. -/
structure Program where
  /-- The code bytes. -/
  code : Array UInt8
  /-- Where calls find their targets. -/
  mode : OperandMode
  /-- The marks of the code, computed once. -/
  marks : Array Mark
  /-- The marks are those of the scan. -/
  marks_eq : marks = Mark.scan mode code

/-- An instruction decoded at a program counter. -/
structure Instruction where
  /-- Where the instruction stands. -/
  pc : Nat
  /-- Its row of the instruction set. -/
  descriptor : Descriptor
  /-- The value of its immediate bytes, if it has any. -/
  immediate : Option Nat := none
  /-- Whether it is the stop behind the end of the code. -/
  implicit : Bool := false

namespace Instruction

/-- The opcode of the instruction. -/
def opcode (i : Instruction) : Opcode :=
  i.descriptor.opcode

/-- The counter behind the instruction and its immediate. -/
def next (i : Instruction) : Nat :=
  i.pc + 1 + i.descriptor.width

/-- The instruction as an offender. -/
def offender (i : Instruction) : Offender :=
  .opcode i.opcode

/-- The listing line of an instruction. -/
def text (i : Instruction) : String :=
  let place := Text.Hex.padded 4 i.pc ++ ": "
  if i.implicit then place ++ "<end of code>"
  else
    match i.immediate with
    | none => place ++ i.descriptor.mnemonic
    | some n => place ++ i.descriptor.mnemonic ++ " 0x" ++ Text.Hex.ofNat n

end Instruction

namespace Program

/-- The program of a byte string. -/
def ofCode (mode : OperandMode) (code : Array UInt8) : Program where
  code := code
  mode := mode
  marks := Mark.scan mode code
  marks_eq := rfl

/-- The number of code bytes. -/
def length (p : Program) : Nat :=
  p.code.size

/-- Whether an instruction starts at a position. -/
def isBoundary (p : Program) (pc : Nat) : Bool :=
  match p.marks[pc]? with
  | some m => m != .immediate
  | none => false

/-- Whether a jump may land at a position. -/
def isJumpdest (p : Program) (pc : Nat) : Bool :=
  p.marks[pc]? == some .jumpdest

/-- Whether a call may land at a position. -/
def isEntry (p : Program) (pc : Nat) : Bool :=
  p.marks[pc]? == some .entry

/-- Whether a transfer that wants a marker may land at a position. -/
def hasMarker (p : Program) : Marker → Nat → Bool
  | .jumpdest => p.isJumpdest
  | .entry => p.isEntry

/-- The positions whose mark passes a test, in order. -/
def positions (p : Program) (test : Mark → Bool) : List Nat :=
  (List.range p.marks.size).filter (fun pc => (p.marks[pc]?).any test)

/-- The positions of the instruction boundaries, in order. -/
def boundaries (p : Program) : List Nat :=
  p.positions (· != .immediate)

/-- The positions of the jump destinations, in order. -/
def jumpdests (p : Program) : List Nat :=
  p.positions (· == .jumpdest)

/-- The positions of the subroutine entries, in order. -/
def entries (p : Program) : List Nat :=
  p.positions (· == .entry)

/-- The bytes from a position on, cut at the end of the code and filled up with zeros. -/
def bytesAt (p : Program) (start width : Nat) : List UInt8 :=
  (List.range width).map (fun i => p.code.getD (start + i) 0)

/-- The implicit stop at a counter behind the code. -/
def endOfCode (pc : Nat) : Instruction where
  pc := pc
  descriptor := ⟨.stop, 0, 0, 0, .terminal⟩
  implicit := true

/-- The instruction of a recognised opcode at a position. -/
def instructionOf (p : Program) (pc : Nat) (op : Opcode) : Instruction :=
  let d := p.mode.describe op
  { pc := pc
    descriptor := d
    immediate :=
      if d.width = 0 then none else some (Bytes.BigEndian.decode (p.bytesAt (pc + 1) d.width)) }

/-- Decodes the instruction at a position. -/
def decode (p : Program) (pc : Nat) : Except Rejection Instruction :=
  match p.code[pc]? with
  | none => .ok (endOfCode pc)
  | some b =>
      if p.isBoundary pc then
        match Opcode.ofByte? b with
        | some op => .ok (p.instructionOf pc op)
        | none => .error ⟨.unrecognised, some pc, some (.byte b.toNat)⟩
      else .error ⟨.insideImmediate, some pc, none⟩

/-- Decodes the instruction at a counter that may be negative. -/
def decodeAt (p : Program) : Int → Except Rejection Instruction
  | .ofNat pc => p.decode pc
  | .negSucc n => .error ⟨.negativeCounter, some (.negSucc n), none⟩

/-- What a sweep over the code meets, one instruction behind the other. -/
structure Survey where
  /-- The counters met, with their instructions or nothing for an unrecognised byte. -/
  found : Array (Nat × Option Instruction)
  /-- The refusal that ended the sweep before the end of the code. -/
  refusal : Option Rejection := none

/-- Sweeps from a counter on, over at most so many instructions. -/
def surveyFrom (p : Program) :
    (fuel : Nat) → (pc : Nat) → (found : Array (Nat × Option Instruction)) → Survey
  | 0, _, found => { found }
  | fuel + 1, pc, found =>
      match p.code[pc]? with
      | none => { found }
      | some b =>
          match Opcode.ofByte? b with
          | none => surveyFrom p fuel (pc + 1) (found.push (pc, none))
          | some _ =>
              match p.decode pc with
              | .error r => { found, refusal := some r }
              | .ok i => surveyFrom p fuel i.next (found.push (pc, some i))

/-- The sweep over the whole code; no instruction takes less than a byte. -/
def survey (p : Program) : Survey :=
  p.surveyFrom p.length 0 #[]

/-- The instructions of the code, with nothing for an unrecognised byte, in code order. -/
def listing (p : Program) : List (Nat × Option Instruction) :=
  p.survey.found.toList

/-- The program in one line. -/
def summary (p : Program) : String :=
  s!"Program(length={p.length}, operand={p.mode.name})"

end Program

end FlowCheck
