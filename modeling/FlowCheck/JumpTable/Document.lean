import FlowCheck.JumpTable.Basic
import FlowCheck.Schema

/-!
# Jump table documents

A document is a list whose items are pairs `[source, dest]` or maps with exactly the keys `source`
and `dest`.  Its shape is checked first, item by item; the table itself then takes integers only.
-/

namespace FlowCheck.JumpTable

/-- The shape of an offset. -/
def offsetSchema : Schema :=
  .integer 0 maxOffset

/-- The shape of an item that is a list. -/
def pairSchema : Schema :=
  .tuple [offsetSchema, offsetSchema] 2 2

/-- The shape of an item that is a map. -/
def recordSchema : Schema :=
  .object [("source", offsetSchema), ("dest", offsetSchema)] ["source", "dest"]

/-- The shape of an item of a document. -/
def itemSchema : Schema :=
  .oneOf [pairSchema, recordSchema]

/-- The shape of a document. -/
def documentSchema : Schema :=
  .array itemSchema

/-- The two ends that an item of a document names; an item has the right shape. -/
def endsOf (item : Value) : Value × Value :=
  match item with
  | .list given => (given.getD 0 .null, given.getD 1 .null)
  | _ => ((item.get? "source").getD .null, (item.get? "dest").getD .null)

/-- What is wrong with the items of a document, in order. -/
def problemsFrom : Nat → List Value → List String
  | _, [] => []
  | index, item :: rest =>
      if itemSchema.accepts item then problemsFrom (index + 1) rest
      else
        s!"$[{index}]: {item.quoted} is not valid under any of the given schemas"
          :: problemsFrom (index + 1) rest

/-- Whether everything that is wrong with the items of a document can be named. -/
def problemsPrintable (items : List Value) : Bool :=
  items.all (fun item => itemSchema.accepts item || item.isPrintable)

/-- The table of a document. -/
def ofDocument : Value → Except TableError JumpTable
  | .list items =>
      match problemsFrom 0 items with
      | [] =>
          loadFrom (fun index (source, dest) => edgeOf index source dest) empty 0
            (items.map endsOf)
      | problems => .error (if problemsPrintable items then .document problems else .unprintable)
  | other =>
      .error (if other.isPrintable then .document [s!"$: {other.quoted} is not of type 'array'"]
        else .unprintable)

end FlowCheck.JumpTable
