import FlowCheck.Bytes.Immediate

/-!
# Assembling

A list of items, each a label or an instruction with an optional operand, becomes byte code in two
passes.  The first lays the items out, checks mnemonics and the presence of operands, and notes where
every label stands.  The second writes the bytes, with label names replaced by their offsets.
-/

namespace FlowCheck.Assembler

/-- What an instruction is applied to. -/
inductive Operand where
  /-- A number. -/
  | number (n : Int)
  /-- The name of a label. -/
  | label (name : String)
  /-- Any other data. -/
  | data (v : Value)

/-- A shape that data given as an item may have instead of an item's. -/
inductive Shape where
  /-- A list without elements. -/
  | empty
  /-- A map. -/
  | map
  /-- A single value. -/
  | single

/-- A line of a program. -/
inductive Item where
  /-- A label, with its colon. -/
  | label (text : String)
  /-- An instruction. -/
  | instruction (mnemonic : String) (operand : Option Operand)
  /-- Data that is no item. -/
  | misshapen (shape : Shape)

/-- Why a program cannot be assembled. -/
inductive Error where
  /-- A label that is no name with a colon. -/
  | malformedLabel (text : String)
  /-- A label that is defined twice. -/
  | duplicateLabel (name : String)
  /-- A mnemonic that names no opcode. -/
  | unknownMnemonic (text : String)
  /-- A missing operand. -/
  | needsOperand (mnemonic : String) (offset : Nat)
  /-- An operand too many. -/
  | takesNoOperand (mnemonic : String)
  /-- A label that is not defined. -/
  | undefinedLabel (name : String)
  /-- An operand that has no immediate. -/
  | operand (mnemonic : String) (offset : Nat) (error : Bytes.EncodeError)
  /-- A line with too many words. -/
  | tooManyOperands (line : Nat)
  /-- Data that is no item. -/
  | misshapen (shape : Shape)

/-- The wording of an error. -/
def Error.message : Error → String
  | malformedLabel text => "malformed label: " ++ Text.quoted text
  | duplicateLabel name => "duplicate label: " ++ name
  | unknownMnemonic text => "unknown mnemonic: " ++ text
  | needsOperand mnemonic offset => s!"{mnemonic} at {offset} needs an operand"
  | takesNoOperand mnemonic => s!"{mnemonic} takes no operand"
  | undefinedLabel name => "undefined label: " ++ name
  | operand mnemonic offset error => s!"{mnemonic} at {offset}: {error.message}"
  | tooManyOperands line => s!"line {line}: too many operands"
  | misshapen .map => "0"
  | misshapen _ => "not an item"

/-- The operand that data stands for. -/
def Operand.ofValue? : Value → Option Operand
  | .null => none
  | .int n => some (.number n)
  | .text s => some (.label s)
  | v => some (.data v)

/-- The data of an operand. -/
def Operand.toValue : Operand → Value
  | number n => .int n
  | label name => .text name
  | data v => v

/-- The item that data stands for: a text is a label, a list a mnemonic with an operand. -/
def Item.ofValue : Value → Item
  | .text s => .label s
  | .list [] => .misshapen .empty
  | .list (mnemonic :: rest) => .instruction mnemonic.display ((rest.head?).bind Operand.ofValue?)
  | .map _ => .misshapen .map
  | _ => .misshapen .single

/-- Whether a character may start a name. -/
def isNameStart (c : Char) : Bool :=
  c.isAlpha || c == '_'

/-- Whether a character may stand in a name. -/
def isNamePart (c : Char) : Bool :=
  c.isAlphanum || c == '_'

/-- The name of a label: letters, digits and underscores in front of a colon, with one optional line
feed behind it. -/
def labelName? (s : String) : Option String :=
  let cs := s.toList
  let name := cs.takeWhile isNamePart
  let rest := cs.drop name.length
  match name with
  | [] => none
  | c :: _ =>
      if isNameStart c && (rest == [':'] || rest == [':', '\n']) then some (String.ofList name)
      else none

/-- Where the labels stand. -/
abbrev Labels := List (String × Nat)

/-- An instruction with its place. -/
structure Placed where
  /-- Where it stands. -/
  offset : Nat
  /-- Its row of the instruction set. -/
  descriptor : Descriptor
  /-- Its operand. -/
  operand : Option Operand

/-- The number of bytes of a placed instruction.  It depends on the opcode alone, so the layout is
known before any label is. -/
def Placed.size (p : Placed) : Nat :=
  1 + p.descriptor.width

/-- Places one instruction. -/
def place (mode : OperandMode) (offset : Nat) (mnemonic : String) (operand : Option Operand) :
    Except Error Placed :=
  match mode.ofMnemonic? mnemonic with
  | none => .error (.unknownMnemonic mnemonic)
  | some d =>
      if d.width ≠ 0 ∧ operand.isNone then .error (.needsOperand d.mnemonic offset)
      else if d.width = 0 ∧ operand.isSome then .error (.takesNoOperand d.mnemonic)
      else .ok ⟨offset, d, operand⟩

/-- Lays items out from an offset on, with the labels met before. -/
def layout (mode : OperandMode) : Nat → Labels → List Item → Except Error (Labels × List Placed)
  | _, labels, [] => .ok (labels, [])
  | offset, labels, .label text :: rest =>
      match labelName? text with
      | none => .error (.malformedLabel text)
      | some name =>
          if (labels.lookup name).isSome then .error (.duplicateLabel name)
          else layout mode offset ((name, offset) :: labels) rest
  | _, _, .misshapen shape :: _ => .error (.misshapen shape)
  | offset, labels, .instruction mnemonic operand :: rest =>
      match place mode offset mnemonic operand with
      | .error e => .error e
      | .ok p =>
          match layout mode (offset + p.size) labels rest with
          | .error e => .error e
          | .ok (labels', placed) => .ok (labels', p :: placed)

/-- The data that an operand stands for once labels are known. -/
def resolve (labels : Labels) : Operand → Except Error Value
  | .label name =>
      match labels.lookup name with
      | some offset => .ok (.nat offset)
      | none => .error (.undefinedLabel name)
  | operand => .ok operand.toValue

/-- The bytes of a placed instruction. -/
def emit (labels : Labels) (p : Placed) : Except Error (List UInt8) :=
  match p.operand with
  | none => .ok [p.descriptor.opcode.toByte]
  | some operand =>
      match resolve labels operand with
      | .error e => .error e
      | .ok v =>
          match Bytes.encodeValue v p.descriptor.width with
          | .error e => .error (.operand p.descriptor.mnemonic p.offset e)
          | .ok bytes => .ok (p.descriptor.opcode.toByte :: bytes)

/-- The byte code of a list of items. -/
def assemble (mode : OperandMode) (items : List Item) : Except Error (List UInt8) :=
  match layout mode 0 [] items with
  | .error e => .error e
  | .ok (labels, placed) => (placed.mapM (emit labels)).map List.flatten

end FlowCheck.Assembler
