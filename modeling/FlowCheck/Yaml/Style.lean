import FlowCheck.Yaml.Scalar

/-!
# How scalars are written

A text is written bare if it then reads back as itself, else in single quotes, else in double quotes
with escapes.  Long texts are folded: once a line is longer than the width, it is broken at the next
place where the style allows it, and goes on at the indentation.
-/

namespace FlowCheck.Yaml

/-- How a scalar is written. -/
inductive Style where
  | plain | single | double
  deriving DecidableEq, Repr

namespace Style

/-- The width that lines should keep to. -/
def width : Nat := 80

/-- Whether a character can stand for itself outside of double quotes. -/
def isOrdinary (c : Char) : Bool :=
  c == '\n' || (' ' ≤ c && c ≤ '~')

/-- Whether a character ends a line. -/
def isBreak (c : Char) : Bool :=
  c == '\n' || c == '\x85' || c == '\u2028' || c == '\u2029'

/-- Whether a character or the end of the text separates what stands around it. -/
def isGap : Option Char → Bool
  | none => true
  | some c => c == ' ' || c == '\n'

/-- Characters that mean something at the start of a scalar. -/
def startMarks : List Char :=
  ['#', ',', '[', ']', '\x7b', '\x7d', '&', '*', '!', '|', '>', '\'', '"', '%', '@', '\x60']

/-- Whether a mapping or a comment would start within a text. -/
def hasInnerMark : List Char → Bool
  | [] => false
  | c :: rest =>
      (c == ':' && isGap rest.head?) || (isGap (some c) && rest.head? == some '#')
        || hasInnerMark rest

/-- Whether a text would read as something else than a scalar. -/
def hasMark (cs : List Char) : Bool :=
  match cs with
  | [] => false
  | c :: rest =>
      startMarks.contains c || ((c == '?' || c == '-') && isGap rest.head?)
        || cs.take 3 == ['-', '-', '-'] || cs.take 3 == ['.', '.', '.'] || hasInnerMark cs

/-- Whether a space stands beside a line end. -/
def hasSpaceAtBreak : List Char → Bool
  | ' ' :: '\n' :: _ | '\n' :: ' ' :: _ => true
  | _ :: rest => hasSpaceAtBreak rest
  | [] => false

/-- The style of a text. -/
def ofText (s : String) : Style :=
  let cs := s.toList
  if !cs.all isOrdinary || hasSpaceAtBreak cs then double
  else if Scalar.kind s == .text && !cs.contains '\n' && cs.head? != some ' '
      && cs.getLast? != some ' ' && !hasMark cs then plain
  else single

/-- A line end and the indentation of the next line. -/
def newline (indent : Nat) : List Char :=
  '\n' :: List.replicate indent ' '

/-- A text without quotes from a column on.  A line that is too long is broken at a single space. -/
def foldPlain (indent : Nat) : (column : Nat) → (afterSpace : Bool) → List Char → List Char
  | _, _, [] => []
  | column, afterSpace, c :: rest =>
      if c == ' ' && !afterSpace && rest.head? != some ' ' && width < column then
        newline indent ++ foldPlain indent indent false rest
      else c :: foldPlain indent (column + 1) (c == ' ') rest

/-- The inside of single quotes from a column on.  A quote is written twice, and a run of line ends
has one more. -/
def foldSingle (indent : Nat) (folds : Bool) :
    (column : Nat) → (previous : Option Char) → List Char → List Char
  | _, _, [] => []
  | column, previous, c :: rest =>
      if c == '\'' then '\'' :: '\'' :: foldSingle indent folds (column + 2) (some c) rest
      else if c == '\n' then
        let ends := if previous == some '\n' then ['\n'] else ['\n', '\n']
        if rest.head? == some '\n' then ends ++ foldSingle indent folds 0 (some c) rest
        else ends ++ List.replicate indent ' ' ++ foldSingle indent folds indent (some c) rest
      else if folds && c == ' ' && previous.isSome && previous != some ' ' && !rest.isEmpty
          && rest.head? != some ' ' && width < column then
        newline indent ++ foldSingle indent folds indent (some c) rest
      else c :: foldSingle indent folds (column + 1) (some c) rest

/-- Escapes of one letter. -/
def shortEscapes : List (Char × Char) :=
  [('\x00', '0'), ('\x07', 'a'), ('\x08', 'b'), ('\t', 't'), ('\n', 'n'), ('\x0b', 'v'),
    ('\x0c', 'f'), ('\r', 'r'), ('\x1b', 'e'), ('"', '"'), ('\\', '\\'), ('\x85', 'N'),
    ('\xa0', '_'), ('\u2028', 'L'), ('\u2029', 'P')]

/-- The escape of a character in double quotes; none if it stands for itself. -/
def escape? (c : Char) : Option (List Char) :=
  let hex (width : Nat) : List Char := ((Text.Hex.padded width c.toNat).toList).map Char.toUpper
  match shortEscapes.lookup c with
  | some e => some ['\\', e]
  | none =>
      if ' ' ≤ c && c ≤ '~' then none
      else if c.toNat ≤ 0xFF then some ('\\' :: 'x' :: hex 2)
      else if c.toNat ≤ 0xFFFF then some ('\\' :: 'u' :: hex 4)
      else some ('\\' :: 'U' :: hex 8)

/-- A line break inside double quotes in front of a text; a space behind it is marked. -/
def brokenBefore (indent : Nat) (rest : List Char) : List Char × Nat :=
  if rest.head? == some ' ' then ('\\' :: newline indent ++ ['\\'], indent + 1)
  else ('\\' :: newline indent, indent)

/-- The inside of double quotes from a column on.  A line that is too long is broken in front of a
space and behind an escape, but not next to the quotes. -/
def foldDouble (indent : Nat) (folds : Bool) :
    (column : Nat) → (isFirst afterEscape : Bool) → List Char → List Char
  | _, _, _, [] => []
  | column, isFirst, afterEscape, c :: rest =>
      let mayBreak := folds && !isFirst && !rest.isEmpty
      match escape? c with
      | some e =>
          let column := column + e.length
          if mayBreak && width + 1 < column then
            let (broken, column) := brokenBefore indent rest
            e ++ broken ++ foldDouble indent folds column false true rest
          else e ++ foldDouble indent folds column false true rest
      | none =>
          if mayBreak && (c == ' ' || afterEscape) && width < column then
            let (broken, column) := brokenBefore indent (c :: rest)
            broken ++ c :: foldDouble indent folds (column + 1) false false rest
          else c :: foldDouble indent folds (column + 1) false false rest

/-- A text in its style, from a column on. -/
def write (s : String) (indent column : Nat) (folds : Bool) : String :=
  let cs := s.toList
  match ofText s with
  | plain => if folds then String.ofList (foldPlain indent column false cs) else s
  | single => String.ofList ('\'' :: foldSingle indent folds (column + 1) none cs ++ ['\''])
  | double => String.ofList ('"' :: foldDouble indent folds (column + 1) true true cs ++ ['"'])

end Style

end FlowCheck.Yaml
