import FlowCheck.Value.Basic

/-!
# Schemas

What a document may look like, with as many kinds of shapes as the documents here need.  For the
shape a real number with an integral value is an integer and a truth value is not.
-/

namespace FlowCheck

/-- The integer that a piece of data is in a document. -/
def Value.integral? : Value → Option Int
  | .int n => some n
  | .opcode op => some op.toByte.toNat
  | .float x => Decimal.Binary.integer? x
  | _ => none

/-- The shape of a document. -/
inductive Schema where
  /-- An integer from one bound to another. -/
  | integer (minimum maximum : Int)
  /-- A list of items of one shape. -/
  | array (items : Schema)
  /-- A list whose first items have given shapes, with a least and a greatest length. -/
  | tuple (first : List Schema) (minItems maxItems : Nat)
  /-- A map whose entries have given names and shapes and no other names, some of them required. -/
  | object (properties : List (String × Schema)) (required : List String)
  /-- What has exactly one of the given shapes. -/
  | oneOf (choices : List Schema)

namespace Schema

/-- Whether the key of an entry is one of the given names. -/
def names (properties : List (String × Schema)) : Value → Bool
  | .text name => (properties.map Prod.fst).contains name
  | _ => false

mutual

/-- Whether a piece of data has a shape. -/
def accepts : Schema → Value → Bool
  | integer minimum maximum, v =>
      match v.integral? with
      | some n => minimum ≤ n && n ≤ maximum
      | none => false
  | array items, .list given => given.all items.accepts
  | array _, _ => false
  | tuple first minItems maxItems, .list given =>
      minItems ≤ given.length && given.length ≤ maxItems && acceptsFirst first given
  | tuple .., _ => false
  | object properties required, .map entries =>
      required.all (fun name => ((Value.map entries).get? name).isSome)
        && entries.all (fun entry => names properties entry.1)
        && acceptsEntries properties (.map entries)
  | object .., _ => false
  | oneOf choices, v => countAccepting choices v == 1

/-- Whether the first items of a list have given shapes. -/
def acceptsFirst : List Schema → List Value → Bool
  | shape :: first, v :: given => shape.accepts v && acceptsFirst first given
  | _, _ => true

/-- Whether the entries of a map have the shapes of their names. -/
def acceptsEntries : List (String × Schema) → Value → Bool
  | [], _ => true
  | (name, shape) :: rest, v => (v.get? name).all shape.accepts && acceptsEntries rest v

/-- How many of some shapes a piece of data has. -/
def countAccepting : List Schema → Value → Nat
  | [], _ => 0
  | shape :: rest, v => (if shape.accepts v then 1 else 0) + countAccepting rest v

end

end Schema

end FlowCheck
