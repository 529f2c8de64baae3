import FlowCheck.Assembler.Basic
import FlowCheck.Assembler.Listing
import FlowCheck.Machine.Run
import FlowCheck.Validator.Report
import FlowCheck.Value.Basic

/-!
# Domain objects as data

The records that reports print.  An instruction that was recognised keeps its opcode; any other one is
a plain number.
-/

namespace FlowCheck

/-- Bytes as hexadecimal text. -/
def Value.ofBytes (bytes : Array UInt8) : Value :=
  .text (Text.Hex.ofBytes bytes.toList)

/-- Natural numbers as a list. -/
def Value.ofNats (ns : List Nat) : Value :=
  .list (ns.map Value.nat)

/-- An amount as it was given. -/
def Amount.toValue : Amount → Value
  | whole n => .int n
  | flag b => .bool b
  | real x => .float x

/-- The record of a row of the instruction set. -/
def Descriptor.toValue (d : Descriptor) : Value :=
  let isPush := match d.opcode with
    | .push _ => true
    | _ => false
  let isDup := match d.opcode with
    | .dup _ => true
    | _ => false
  let isSwap := match d.opcode with
    | .swap _ => true
    | _ => false
  .record [("opcode", .opcode d.opcode), ("mnemonic", .text d.mnemonic),
    ("immediate_width", .nat d.width), ("inputs", .nat d.inputs), ("outputs", .nat d.outputs),
    ("delta", .int d.delta), ("kind", .text d.kind.name), ("control", .bool d.kind.isControl),
    ("push", .bool isPush), ("dup", .bool isDup), ("swap", .bool isSwap)]

/-- The record of an instruction. -/
def Instruction.toValue (i : Instruction) : Value :=
  .record [("pc", .nat i.pc), ("opcode", .opcode i.opcode),
    ("mnemonic", .text i.descriptor.mnemonic), ("kind", .text i.descriptor.kind.name),
    ("immediate", Value.ofOption Value.nat i.immediate), ("implicit", .bool i.implicit),
    ("next_pc", .nat i.next), ("text", .text i.text)]

/-- The record of a program. -/
def Program.toEntries (p : Program) : List (String × Value) :=
  [("repr", .text p.summary), ("length", .nat p.length), ("boundaries", .ofNats p.boundaries),
    ("jumpdests", .ofNats p.jumpdests), ("entries", .ofNats p.entries),
    ("instructions", .list (p.listing.map (fun (pc, i) =>
      .list [.nat pc, Value.ofOption (fun (i : Instruction) => .text i.text) i])))]

/-- A line of a listing. -/
def Assembler.ListingLine.toValue (l : ListingLine) : Value :=
  .list [.nat l.offset, .text l.mnemonic, Value.ofOption Value.nat l.immediate]

/-- An item as data. -/
def Assembler.Item.toValue : Item → Value
  | .label text => .text text
  | .instruction mnemonic operand => .list (.text mnemonic :: (operand.map Operand.toValue).toList)
  | .misshapen _ => .null

/-- The edges of a table as pairs. -/
def JumpTable.pairsValue (t : JumpTable) : Value :=
  .list (t.toPairs.map (fun (s, d) => .ofNats [s, d]))

/-- The record of a word; the value is shown as it was given. -/
def Word.toValue (w : Word) (shown : Value) : Value :=
  let signed : Value := match shown with
    | .bool b => .bool b
    | _ => .int w.toInt
  .record [("value", shown), ("signed", signed), ("unsigned", shown),
    ("bytes", Value.ofBytes w.toBytes.toArray), ("hex", .text w.hex),
    ("truth", .bool (w.toNat != 0))]

/-- The instruction of a rejection or fault. -/
def Offender.toValue : Offender → Value
  | opcode op => .opcode op
  | byte n => .int n

/-- The record of a verdict. -/
def Verdict.toEntries : Verdict → List (String × Value)
  | accepted =>
      [("accepted", .bool true), ("reason", .null), ("pc", .null), ("opcode", .null),
        ("message", .text "")]
  | rejected r =>
      [("accepted", .bool false), ("reason", .text r.cause.reason.name),
        ("pc", Value.ofOption Value.int r.pc), ("opcode", Value.ofOption Offender.toValue r.offender),
        ("message", .text r.cause.message)]

/-- The record of a fault. -/
def Fault.toValue (f : Fault) : Value :=
  .record [("kind", .text f.cause.kind.name), ("pc", Value.ofOption Value.int f.pc),
    ("opcode", Value.ofOption Offender.toValue f.offender), ("message", .text f.cause.message)]

/-- The words of a stack, from the bottom. -/
def Stack.toValue (s : Stack Word) : Value :=
  .list (s.toList.map (fun w => .text w.hex))

/-- The record of a run. -/
def Machine.Outcome.toEntries (o : Outcome) : List (String × Value) :=
  let (data, fault) := match o.ending with
    | .halted _ data => (data, Value.null)
    | .faulted f => (#[], f.toValue)
  [("success", .bool o.isSuccess), ("halt_reason", .text o.haltName),
    ("return_data", Value.ofBytes data), ("steps", .nat o.state.steps),
    ("stack", o.state.stack.toValue),
    ("return_stack", .ofNats o.state.calls.stack.toList),
    ("return_stack_peak", .nat o.state.calls.peak), ("fault", fault)]

/-- The record of a subroutine. -/
def Validator.Summary.toEntries (s : Summary) : List (String × Value) :=
  [("entry", .nat s.entry), ("required_inputs", .int s.needs),
    ("net_effect", Value.ofOption Value.int s.net), ("peak_height", .int s.peak)]

end FlowCheck
