import FlowCheck.Value.Compare
import FlowCheck.Yaml.Node
import FlowCheck.Yaml.Scalar

/-!
# Reading documents

The value of a document.  Of two entries with equal keys the later value counts, at the place of the
first.  Mappings under a merge mark lend their entries to the mapping that holds the mark, in front of
its own.  An empty text holds nothing.

Values are built level by level, so that of several faults the one nearest to the top of the document
counts, and among those the first.
-/

namespace FlowCheck.Yaml

/-- A fault and the level of the document on which it arises. -/
structure Placed where
  level : Nat
  fault : Fault

/-- What is built of a node. -/
abbrev Built (α : Type) := Except Placed α

namespace Built

/-- The fault to report for two parts that are built one after the other. -/
def both (x : Built α) (y : Built β) : Built (α × β) :=
  match x, y with
  | .ok a, .ok b => .ok (a, b)
  | .error p, .ok _ => .error p
  | .ok _, .error q => .error q
  | .error p, .error q => .error (if q.level < p.level then q else p)

/-- All parts, or the fault to report for them. -/
def all : List (Built α) → Built (List α)
  | [] => .ok []
  | x :: rest => (both x (all rest)).map (fun (a, as) => a :: as)

end Built

/-- The value of a scalar. -/
def scalarValue (text : String) (plain : Bool) : Except Fault Value :=
  if plain then Scalar.read text else .ok (.text text)

/-- Whether two keys name the same entry; a value that is not a number does so with itself. -/
def isSameKey (k l : Value) : Bool :=
  k.same l ||
    match k, l with
    | .float x, .float y => x.isNaN && y.isNaN
    | _, _ => false

/-- Adds an entry to the entries of a map. -/
def putEntry (key value : Value) : List (Value × Value) → List (Value × Value)
  | [] => [(key, value)]
  | (k, v) :: rest =>
      if isSameKey k key then (k, value) :: rest else (k, v) :: putEntry key value rest

/-- The map of entries in the order in which they were written. -/
def mapOf (entries : List (Value × Value)) : Value :=
  .map (entries.foldl (fun m (k, v) => putEntry k v m) [])

namespace Node

/-- Whether a node is the mark in front of mappings to merge. -/
def isMerge : Node → Bool
  | scalar text plain => plain && Scalar.kind text == .merge
  | _ => false

/-- Whether a node is the mark of a default, which is a plain text in place of a key. -/
def isDefault : Node → Bool
  | scalar text plain => plain && Scalar.kind text == .default
  | _ => false

/-- The key of an entry; no collection may be one. -/
def asKey (level : Nat) (n : Node) (built : Built Value) : Built Value :=
  match n with
  | scalar text _ => if n.isDefault then .ok (.text text) else built
  | codes _ => built
  | sequence _ | mapping _ => .error ⟨level, .malformed .collectionKey⟩

/-- Entries whose keys and values are built: first those that are merged in, then a mapping's own. -/
structure Entries where
  merged : List (Built Value × Built Value)
  own : List (Built Value × Built Value)

/-- All entries in order. -/
def Entries.all (e : Entries) : List (Built Value × Built Value) :=
  e.merged ++ e.own

mutual

/-- Builds the value of a node whose own fault would arise on a level. -/
def build (level : Nat) : Node → Built Value
  | scalar text plain =>
      match scalarValue text plain with
      | .ok v => .ok v
      | .error f => .error ⟨level, f⟩
  | codes points => .ok (.codes points)
  | sequence items => (Built.all (buildItems (level + 1) items)).map Value.list
  | mapping entries =>
      match buildEntries (level + 1) entries with
      | none => .error ⟨level + 1, .malformed .notMergeable⟩
      | some e => (Built.all (e.all.map (fun (k, v) => k.both v))).map mapOf

/-- Builds items. -/
def buildItems (level : Nat) : List Node → List (Built Value)
  | [] => []
  | n :: rest => build level n :: buildItems level rest

/-- Builds entries; nothing if something else than mappings is to be merged. -/
def buildEntries (level : Nat) : List (Node × Node) → Option Entries
  | [] => some ⟨[], []⟩
  | (k, v) :: rest =>
      match buildEntries level rest with
      | none => none
      | some e =>
          if k.isMerge then
            (lent level v).map (fun entries => { e with merged := entries ++ e.merged })
          else some { e with own := (asKey level k (build level k), build level v) :: e.own }

/-- The entries that a node under a merge mark lends. -/
def lent (level : Nat) : Node → Option (List (Built Value × Built Value))
  | mapping entries => (buildEntries level entries).map Entries.all
  | sequence items => lentBy level items
  | _ => none

/-- The entries that mappings lend, those of the last one first. -/
def lentBy (level : Nat) : List Node → Option (List (Built Value × Built Value))
  | [] => some []
  | n :: rest =>
      match n with
      | mapping entries =>
          match buildEntries level entries, lentBy level rest with
          | some e, some others => some (others ++ e.all)
          | _, _ => none
      | _ => none

end

/-- The value of a node. -/
def value (n : Node) : Except Fault Value :=
  match n.build 0 with
  | .ok v => .ok v
  | .error p => .error p.fault

end Node

/-- A way to read the value of a text. -/
abbrev Reader := String → Except Fault Value

/-- The value of a text. -/
def read (s : String) : Except Fault Value :=
  match Node.ofTokens (tokens s.toList) with
  | .error e => .error e
  | .ok n => n.value

end FlowCheck.Yaml
