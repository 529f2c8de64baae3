import FlowCheck.Opcode
import FlowCheck.Decimal.Shortest
import FlowCheck.Text.Numeral
import FlowCheck.Value.Moment

/-!
# Values

The data that settings, documents, log events and reports are made of.  A map keeps its entries in
the order in which they were written.  An opcode is a number that knows its mnemonic.  Integers of
any length are values, but only those up to a number of digits can be written.
-/

namespace FlowCheck

/-- A piece of data. -/
inductive Value where
  | null
  | bool (b : Bool)
  | int (n : Int)
  | float (x : Float)
  | text (s : String)
  | list (items : List Value)
  | map (entries : List (Value × Value))
  | opcode (op : Opcode)
  /-- A text with code points that are no characters. -/
  | codes (points : List Nat)
  /-- A day, or a point in time. -/
  | moment (m : Moment)
  /-- Something that is no data, by the name of its kind. -/
  | object (kind : String)

namespace Value

/-- The name of the kind of a value, as messages give it. -/
def kindName : Value → String
  | null => "NoneType"
  | bool _ => "bool"
  | int _ => "int"
  | float _ => "float"
  | text _ => "str"
  | list _ => "list"
  | map _ => "dict"
  | opcode _ => "OpCode"
  | codes _ => "str"
  | moment m => m.kindName
  | object kind => kind

/-- A map with text keys. -/
def record (entries : List (String × Value)) : Value :=
  map (entries.map (fun (k, v) => (text k, v)))

/-- A natural number. -/
def nat (n : Nat) : Value :=
  int n

/-- A value, or null for nothing. -/
def ofOption (f : α → Value) : Option α → Value
  | some a => f a
  | none => null

/-- The entry of a text key; a later entry of the same key wins. -/
def get? (key : String) : Value → Option Value
  | map entries =>
      (entries.reverse.find? (fun (k, _) => match k with
        | text s => s == key
        | _ => false)).map Prod.snd
  | _ => none

/-- Whether a value counts as something: not null, false, zero or empty. -/
def isTruthy : Value → Bool
  | null => false
  | bool b => b
  | int n => n != 0
  | float x => x != 0.0
  | text s => !s.isEmpty
  | list items => !items.isEmpty
  | map entries => !entries.isEmpty
  | opcode op => op.toByte != 0
  | codes points => !points.isEmpty
  | moment _ | object _ => true

/-- The number that a value counts as in arithmetic, if it is a whole one. -/
def integer? : Value → Option Int
  | bool b => some (if b then 1 else 0)
  | int n => some n
  | opcode op => some op.toByte.toNat
  | _ => none

mutual

/-- A value as it is written inside a message: texts quoted, opcodes by name. -/
def quoted : Value → String
  | null => "None"
  | bool b => if b then "True" else "False"
  | int n => toString n
  | float x => Decimal.shortest x
  | text s => Text.quoted s
  | list items => "[" ++ ", ".intercalate (quotedItems items) ++ "]"
  | map entries => "\x7b" ++ ", ".intercalate (quotedEntries entries) ++ "\x7d"
  | opcode op => "<OpCode." ++ op.mnemonic ++ ": " ++ Nat.repr op.toByte.toNat ++ ">"
  | codes points => Text.quotedPoints points
  | moment m => m.quoted
  | object kind => "<" ++ kind ++ ">"

/-- The items of a list, each as it is written inside a message. -/
def quotedItems : List Value → List String
  | [] => []
  | v :: rest => quoted v :: quotedItems rest

/-- The entries of a map, each as it is written inside a message. -/
def quotedEntries : List (Value × Value) → List String
  | [] => []
  | (k, v) :: rest => (quoted k ++ ": " ++ quoted v) :: quotedEntries rest

end

/-- A value as it is printed on its own: a text bare, an opcode as its number. -/
def display : Value → String
  | text s => s
  | opcode op => Nat.repr op.toByte.toNat
  | moment m => m.display
  | v => quoted v

mutual

/-- Whether a value can be written: none of its integers has too many digits. -/
def isPrintable : Value → Bool
  | int n => Text.Numeral.isPrintable n
  | list items => itemsPrintable items
  | map entries => entriesPrintable entries
  | _ => true

/-- Whether all items can be written. -/
def itemsPrintable : List Value → Bool
  | [] => true
  | v :: rest => isPrintable v && itemsPrintable rest

/-- Whether all entries can be written. -/
def entriesPrintable : List (Value × Value) → Bool
  | [] => true
  | (k, v) :: rest => isPrintable k && isPrintable v && entriesPrintable rest

end

end Value

end FlowCheck
