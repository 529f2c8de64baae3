import FlowCheck.Yaml.Style

/-!
# Writing documents

Values in block style.  Every entry has a line of its own, a collection inside a sequence starts on
the line of its dash, and a sequence under a key is not indented.  Empty collections are written as
brackets.  A key that is empty, long or of several lines is marked and its value starts a new line.
-/

namespace FlowCheck.Yaml

/-- A real number; a numeral with an exponent gets a point. -/
def floatText (x : Float) : String :=
  match Decimal.Binary.ofFloat x with
  | .nan => ".nan"
  | .infinite negative => if negative then "-.inf" else ".inf"
  | .finite .. =>
      let cs := (Decimal.shortest x).toList
      if cs.contains '.' then String.ofList cs
      else String.ofList (cs.flatMap (fun c => if c == 'e' then ['.', '0', 'e'] else [c]))

/-- The bare form of a scalar that is no text, and the width of the name of its kind. -/
def bare? : Value → Option (String × Nat)
  | .null => some ("null", 6)
  | .bool b => some (if b then "true" else "false", 6)
  | .int n => some (toString n, 5)
  | .float x => some (floatText x, 7)
  | _ => none

/-- A scalar from a column on. -/
def scalarText (indent column : Nat) (folds : Bool) (v : Value) : String :=
  match v with
  | .text s => Style.write s indent column folds
  | _ => ((bare? v).map Prod.fst).getD ""

/-- The longest key, with the name of its kind, that needs no mark. -/
def keyWidth : Nat := 127

/-- Whether a key needs no mark. -/
def isSimpleKey : Value → Bool
  | .text s => !s.isEmpty && !s.toList.any Style.isBreak && s.length + 5 ≤ keyWidth
  | .list items => items.isEmpty
  | .map entries => entries.isEmpty
  | v => ((bare? v).map (fun (s, kind) => decide (s.length + kind ≤ keyWidth))).getD false

/-- Spaces. -/
def spaces (n : Nat) : String :=
  String.ofList (List.replicate n ' ')

/-- Lines, the first one where the text stands and the others at an indentation. -/
def stacked (indent : Nat) (lines : List String) : String :=
  ("\n" ++ spaces indent).intercalate lines

mutual

/-- A value that starts at the column of its indentation. -/
def inlineText (indent : Nat) : Value → String
  | .list [] => "[]"
  | .map [] => "\x7b\x7d"
  | .list items => stacked indent (sequenceLines indent items)
  | .map entries => stacked indent (mappingLines indent entries)
  | v => scalarText indent indent true v

/-- The value behind a key that ends at a column, in a mapping at an indentation. -/
def afterKey (indent column : Nat) : Value → String
  | .list [] => " []"
  | .map [] => " \x7b\x7d"
  | .list items => "\n" ++ spaces indent ++ stacked indent (sequenceLines indent items)
  | .map entries =>
      "\n" ++ spaces (indent + 2) ++ stacked (indent + 2) (mappingLines (indent + 2) entries)
  | v => " " ++ scalarText (indent + 2) (column + 1) true v

/-- The lines of the items of a sequence. -/
def sequenceLines (indent : Nat) : List Value → List String
  | [] => []
  | v :: rest => ("- " ++ inlineText (indent + 2) v) :: sequenceLines indent rest

/-- The lines of the entries of a mapping. -/
def mappingLines (indent : Nat) : List (Value × Value) → List String
  | [] => []
  | (k, v) :: rest =>
      let line :=
        if isSimpleKey k then
          let key := match k with
            | .list _ => "[]"
            | .map _ => "\x7b\x7d"
            | k => scalarText (indent + 2) indent false k
          key ++ ":" ++ afterKey indent (indent + key.length + 1) v
        else
          "? " ++ inlineText (indent + 2) k ++ "\n" ++ spaces indent ++ ": "
            ++ inlineText (indent + 2) v
      line :: mappingLines indent rest

end

mutual

/-- Whether a value can be written: it holds no opcode and nothing that is no data. -/
def isWritable : Value → Bool
  | .opcode _ | .object _ => false
  | .list items => itemsWritable items
  | .map entries => entriesWritable entries
  | _ => true

/-- Whether all items can be written. -/
def itemsWritable : List Value → Bool
  | [] => true
  | v :: rest => isWritable v && itemsWritable rest

/-- Whether all entries can be written. -/
def entriesWritable : List (Value × Value) → Bool
  | [] => true
  | (k, v) :: rest => isWritable k && isWritable v && entriesWritable rest

end

/-- Whether a value is written as a bare scalar. -/
def isBare : Value → Bool
  | .text s => Style.ofText s == .plain
  | v => (bare? v).isSome

/-- A document.  A bare scalar is followed by an end mark, since nothing else closes it. -/
def documentText (v : Value) : String :=
  let body := match v with
    | .list _ | .map _ => inlineText 0 v
    | v => scalarText 2 0 true v
  body ++ "\n" ++ (if isBare v then "...\n" else "")

/-- A document of a value that can be written. -/
def write? (v : Value) : Option String :=
  if isWritable v then some (documentText v) else none

mutual

/-- A value with the entries of all its maps in the order of their keys. -/
def sorted : Value → Value
  | .list items => .list (sortedItems items)
  | .map entries =>
      .map ((sortedEntries entries).mergeSort (fun a b => !decide (b.1.display < a.1.display)))
  | v => v

/-- Items with the entries of all their maps in order. -/
def sortedItems : List Value → List Value
  | [] => []
  | v :: rest => sorted v :: sortedItems rest

/-- Entries whose values have the entries of all their maps in order. -/
def sortedEntries : List (Value × Value) → List (Value × Value)
  | [] => []
  | (k, v) :: rest => (k, sorted v) :: sortedEntries rest

end

end FlowCheck.Yaml
