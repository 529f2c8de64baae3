import FlowCheck.Value.Basic

/-!
# JSON text

JSON with ASCII escapes.  The compact form puts `, ` and `: ` between items; the indented form gives
every item a line of its own.  A key that is no text is written as the text of its value.
-/

namespace FlowCheck.Json

/-- The escape of one unit of sixteen bits. -/
def unitEscape (n : Nat) : List Char :=
  '\\' :: 'u' :: (Text.Hex.padded 4 n).toList

/-- One character of a JSON string; beyond the sixteen-bit range as a surrogate pair. -/
def escapeChar (c : Char) : List Char :=
  if c == '"' then ['\\', '"']
  else if c == '\\' then ['\\', '\\']
  else if c == '\n' then ['\\', 'n']
  else if c == '\r' then ['\\', 'r']
  else if c == '\t' then ['\\', 't']
  else if c == '\x08' then ['\\', 'b']
  else if c == '\x0c' then ['\\', 'f']
  else
    let n := c.toNat
    if 0x20 ≤ n && n < 0x7F then [c]
    else if n < 0x10000 then unitEscape n
    else unitEscape (0xD800 + (n - 0x10000) / 0x400) ++ unitEscape (0xDC00 + (n - 0x10000) % 0x400)

/-- A JSON string. -/
def string (s : String) : String :=
  String.ofList ('"' :: s.toList.flatMap escapeChar ++ ['"'])

/-- A JSON string of code points, some of which are no characters. -/
def pointsString (points : List Nat) : String :=
  String.ofList ('"' :: points.flatMap (fun n =>
    if n.isValidChar then escapeChar (Char.ofNat n) else unitEscape n) ++ ['"'])

/-- A JSON number; the values without a numeral have names. -/
def number (x : Float) : String :=
  match Decimal.Binary.ofFloat x with
  | .nan => "NaN"
  | .infinite negative => if negative then "-Infinity" else "Infinity"
  | .finite .. => Decimal.shortest x

/-- The text of a map key. -/
def key : Value → String
  | .text s => s
  | .null => "null"
  | .bool b => if b then "true" else "false"
  | .float x => number x
  | v => v.display

/-- How items are laid out: on one line, or each on a line of its own at a depth. -/
inductive Style where
  | compact
  | indented (depth : Nat)

namespace Style

/-- The style one level further in. -/
def deeper : Style → Style
  | compact => compact
  | indented depth => indented (depth + 1)

/-- The break in front of an item or a closing bracket. -/
def newline : Style → String
  | compact => ""
  | indented depth => "\n" ++ String.ofList (List.replicate (2 * depth) ' ')

/-- What stands between two items. -/
def separator : Style → String
  | compact => ", "
  | style => "," ++ style.newline

end Style

mutual

/-- The JSON text of a value. -/
def write (style : Style) : Value → String
  | .null => "null"
  | .bool b => if b then "true" else "false"
  | .int n => toString n
  | .float x => number x
  | .text s => string s
  | .opcode op => Nat.repr op.toByte.toNat
  | .codes points => pointsString points
  | .moment m => string m.display
  | .object kind => string ("<" ++ kind ++ ">")
  | .list [] => "[]"
  | .list items =>
      let inner := style.deeper
      "[" ++ inner.newline ++ inner.separator.intercalate (writeItems inner items)
        ++ style.newline ++ "]"
  | .map [] => "\x7b\x7d"
  | .map entries =>
      let inner := style.deeper
      "\x7b" ++ inner.newline ++ inner.separator.intercalate (writeEntries inner entries)
        ++ style.newline ++ "\x7d"

/-- The JSON texts of the items of a list. -/
def writeItems (style : Style) : List Value → List String
  | [] => []
  | v :: rest => write style v :: writeItems style rest

/-- The JSON texts of the entries of a map. -/
def writeEntries (style : Style) : List (Value × Value) → List String
  | [] => []
  | (k, v) :: rest => (string (key k) ++ ": " ++ write style v) :: writeEntries style rest

end

/-- JSON on one line. -/
def compact (v : Value) : String :=
  write .compact v

/-- JSON with two spaces of indentation per level. -/
def indented (v : Value) : String :=
  write (.indented 0) v

end FlowCheck.Json
