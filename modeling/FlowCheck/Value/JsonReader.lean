import FlowCheck.Decimal.Reading
import FlowCheck.Text.Hex
import FlowCheck.Value.Basic

/-!
# Reading JSON

The value of a JSON text.  The entries of a map keep the order in which they are written, and a
repeated key has its last value.  Every reader takes what it needs from the front of the text and
hands back the rest.
-/

namespace FlowCheck.Json

/-- A value and the text behind it. -/
abbrev Read := Option (Value × List Char)

/-- Whether a character stands between values. -/
def isSpace (c : Char) : Bool :=
  c == ' ' || c == '\t' || c == '\n' || c == '\r'

/-- The text behind leading spaces. -/
def skipSpace (cs : List Char) : List Char :=
  cs.dropWhile isSpace

/-- The number that four hexadecimal digits stand for. -/
def unit (a b c d : Char) : Nat :=
  [a, b, c, d].foldl (fun n x => 16 * n + (Text.Hex.digit? x).getD 0) 0

/-- The character of an escape of one letter. -/
def unescape (c : Char) : Char :=
  match c with
  | 'n' => '\n'
  | 't' => '\t'
  | 'r' => '\r'
  | 'b' => '\x08'
  | 'f' => '\x0c'
  | other => other

/-- The text of code points, the last one first. -/
def textOf (points : List Nat) : Value :=
  if points.all (fun n => decide n.isValidChar) then
    .text (String.ofList (points.reverse.map Char.ofNat))
  else .codes points.reverse

/-- The code points up to the closing quote; two surrogates make one. -/
def readString (acc : List Nat) : List Char → Read
  | [] => none
  | '"' :: rest => some (textOf acc, rest)
  | '\\' :: 'u' :: a :: b :: c :: d :: '\\' :: 'u' :: e :: f :: g :: h :: rest =>
      let high := unit a b c d
      let low := unit e f g h
      if 0xD800 ≤ high && high < 0xDC00 && 0xDC00 ≤ low && low < 0xE000 then
        readString ((0x10000 + (high - 0xD800) * 0x400 + (low - 0xDC00)) :: acc) rest
      else readString (high :: acc) ('\\' :: 'u' :: e :: f :: g :: h :: rest)
  | '\\' :: 'u' :: a :: b :: c :: d :: rest => readString (unit a b c d :: acc) rest
  | '\\' :: c :: rest => readString ((unescape c).toNat :: acc) rest
  | c :: rest => readString (c.toNat :: acc) rest
termination_by cs => cs.length

/-- Adds an entry to the entries of a map, the last one first; a key that is there keeps its place. -/
def putEntry (key value : Value) (entries : List (Value × Value)) : List (Value × Value) :=
  match key with
  | .text s =>
      let isKey (k : Value) : Bool := match k with
        | .text t => t == s
        | _ => false
      if entries.any (fun (k, _) => isKey k) then
        entries.map (fun (k, v) => if isKey k then (k, value) else (k, v))
      else (key, value) :: entries
  | _ => (key, value) :: entries

/-- Whether a character may stand in a number. -/
def isNumberPart (c : Char) : Bool :=
  c.isDigit || c == '-' || c == '+' || c == '.' || c == 'e' || c == 'E'

/-- A number: an integer, or a real number if it has a point or an exponent. -/
def readNumber (cs : List Char) : Read :=
  let body := cs.takeWhile isNumberPart
  let rest := cs.dropWhile isNumberPart
  if body.any (fun c => c == '.' || c == 'e' || c == 'E') then
    (Decimal.readFloat? (String.ofList body)).map (fun x => (.float x, rest))
  else
    match body with
    | [] => none
    | '-' :: digits => some (.int (-(Decimal.natOfDigits digits : Int)), rest)
    | digits => some (.int (Decimal.natOfDigits digits), rest)

mutual

/-- A value. -/
def readValue : (fuel : Nat) → List Char → Read
  | 0, _ => none
  | fuel + 1, cs =>
      match skipSpace cs with
      | 'n' :: 'u' :: 'l' :: 'l' :: rest => some (.null, rest)
      | 't' :: 'r' :: 'u' :: 'e' :: rest => some (.bool true, rest)
      | 'f' :: 'a' :: 'l' :: 's' :: 'e' :: rest => some (.bool false, rest)
      | '"' :: rest => readString [] rest
      | '[' :: rest =>
          match skipSpace rest with
          | ']' :: rest => some (.list [], rest)
          | rest => readItems fuel [] rest
      | '\x7b' :: rest =>
          match skipSpace rest with
          | '\x7d' :: rest => some (.map [], rest)
          | rest => readEntries fuel [] rest
      | rest => readNumber rest

/-- The items of a list, the last one first. -/
def readItems : (fuel : Nat) → List Value → List Char → Read
  | 0, _, _ => none
  | fuel + 1, items, cs =>
      match readValue fuel cs with
      | none => none
      | some (v, rest) =>
          match skipSpace rest with
          | ',' :: rest => readItems fuel (v :: items) rest
          | ']' :: rest => some (.list (v :: items).reverse, rest)
          | _ => none

/-- The entries of a map, the last one first. -/
def readEntries : (fuel : Nat) → List (Value × Value) → List Char → Read
  | 0, _, _ => none
  | fuel + 1, entries, cs =>
      match readValue fuel cs with
      | none => none
      | some (k, rest) =>
          match skipSpace rest with
          | ':' :: rest =>
              match readValue fuel rest with
              | none => none
              | some (v, rest) =>
                  match skipSpace rest with
                  | ',' :: rest => readEntries fuel (putEntry k v entries) rest
                  | '\x7d' :: rest => some (.map (putEntry k v entries).reverse, rest)
                  | _ => none
          | _ => none

end

/-- The value of a JSON text with nothing but spaces around it.  Every reader takes at least one
character before it calls another, so twice the length is enough fuel. -/
def read? (s : String) : Option Value :=
  let cs := s.toList
  match readValue (2 * cs.length + 2) cs with
  | some (v, rest) => if (skipSpace rest).isEmpty then some v else none
  | none => none

end FlowCheck.Json
