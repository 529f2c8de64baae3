import FlowCheck.Arithmetic
import FlowCheck.Yaml.Fault

/-!
# Tokens

The marks and scalars of a document.  Block structure is made explicit: a deeper column opens a
collection and a shallower one closes it.  A scalar on one line followed by a colon turns out to be
a key only when the colon is met, so the marks in front of it are inserted then.  A text that cannot
be read to its end has the fault as its last token, so that whoever takes the tokens meets the faults
in their order.
-/

namespace FlowCheck.Yaml

/-- A mark or scalar of a document. -/
inductive Token where
  | sequenceStart | mappingStart | blockEnd | entry | key | value
  | flowSequenceStart | flowSequenceEnd | flowMappingStart | flowMappingEnd | flowEntry
  | scalar (text : String) (plain : Bool)
  | codes (points : List Nat)
  | documentStart | documentEnd
  | fault (f : Fault)
  deriving DecidableEq

/-- Whether a character ends a line. -/
def isBreak (c : Char) : Bool :=
  c == '\r' || c == '\n' || c.toNat == 0x85 || c.toNat == 0x2028 || c.toNat == 0x2029

/-- Whether a character, or the end of the text, separates tokens. -/
def isGap : Option Char → Bool
  | none => true
  | some c => c == ' ' || c == '\t' || isBreak c

/-- Whether a document may hold a character. -/
def isAllowed (c : Char) : Bool :=
  let n := c.toNat
  n == 0x09 || n == 0x0A || n == 0x0D || (0x20 ≤ n && n ≤ 0x7E) || n == 0x85 ||
    (0xA0 ≤ n && n ≤ 0xFFFD) || 0x10000 ≤ n

/-- A place in a document. -/
structure Cursor where
  /-- The characters from here on. -/
  rest : List Char
  /-- The characters before. -/
  index : Nat := 0
  /-- The lines before. -/
  line : Nat := 0
  /-- The characters before on this line. -/
  column : Nat := 0

namespace Cursor

/-- The place behind the next character. -/
def step (c : Cursor) : Cursor :=
  match c.rest with
  | [] => c
  | ch :: rest =>
      if isBreak ch && !(ch == '\r' && rest.head? == some '\n') then
        ⟨rest, c.index + 1, c.line + 1, 0⟩
      else if ch.toNat == 0xFEFF then ⟨rest, c.index + 1, c.line, c.column⟩
      else ⟨rest, c.index + 1, c.line, c.column + 1⟩

/-- The place behind so many characters. -/
def steps : Nat → Cursor → Cursor
  | 0, c => c
  | n + 1, c => steps n c.step

/-- The character so far ahead. -/
def peek (c : Cursor) (n : Nat) : Option Char :=
  c.rest[n]?

/-- A line break, in its plain form, and the place behind it. -/
def lineBreak (c : Cursor) : Char × Cursor :=
  match c.rest with
  | '\r' :: '\n' :: _ => ('\n', c.step.step)
  | ch :: _ =>
      (if ch.toNat == 0x2028 || ch.toNat == 0x2029 then ch else '\n', c.step)
  | [] => ('\n', c)

/-- Whether three given characters and a gap stand here. -/
def startsWith (c : Cursor) (mark : Char) : Bool :=
  c.rest.take 3 == [mark, mark, mark] && isGap (c.peek 3)

/-- Whether the mark between documents stands here. -/
def atMarker (c : Cursor) : Bool :=
  c.startsWith '-' || c.startsWith '.'

/-- Line breaks with blanks between them, up to another character or the mark between documents. -/
def breaks (isSkipped : Char → Bool) : (fuel : Nat) → Cursor → List Char → List Char × Cursor × Bool
  | 0, c, found => (found.reverse, c, false)
  | fuel + 1, c, found =>
      match c.rest with
      | [] => (found.reverse, c, false)
      | ch :: _ =>
          if isSkipped ch then breaks isSkipped fuel c.step found
          else if isBreak ch then
            let (b, c') := c.lineBreak
            if c'.atMarker then (found.reverse, c', true)
            else breaks isSkipped fuel c' (b :: found)
          else (found.reverse, c, false)

end Cursor

/-- What a folded line break leaves: a space for a single one, otherwise the further breaks. -/
def folded (first : Char) (further : List Char) : List Char :=
  if first != '\n' then first :: further
  else if further.isEmpty then [' ']
  else further

/-- The characters that end a plain scalar inside brackets. -/
def isFlowMark (c : Char) : Bool :=
  c == ',' || c == '?' || c == '[' || c == ']' || c == '\x7b' || c == '\x7d'

/-- The number of characters up to a gap or to a mark that ends a plain scalar. -/
def plainRun (inFlow : Bool) : List Char → Nat
  | [] => 0
  | c :: cs =>
      let closed : Bool := match cs.head? with
        | some d => inFlow && isFlowMark d && d != '?'
        | none => false
      if isGap (some c) || (c == ':' && (isGap cs.head? || closed)) || (inFlow && isFlowMark c) then 0
      else 1 + plainRun inFlow cs

/-- The blanks behind a run of a plain scalar: what they leave in it, the place behind them, and
whether a line ended. -/
def plainGap (c : Cursor) : List Char × Cursor × Bool :=
  let blanks := c.rest.takeWhile (· == ' ')
  let c₁ := c.steps blanks.length
  match c₁.rest with
  | ch :: _ =>
      if isBreak ch then
        let (first, c₂) := c₁.lineBreak
        if c₂.atMarker then ([], c₂, true)
        else
          let (further, c₃, marker) := Cursor.breaks (· == ' ') (c₂.rest.length + 1) c₂ []
          (if marker then [] else folded first further, c₃, true)
      else (blanks, c₁, false)
  | [] => (blanks, c₁, false)

/-- A plain scalar, the place behind it, and whether a line ended in front of that place. -/
def plainScalar (inFlow : Bool) (indent : Int) : (fuel : Nat) → Cursor → (gap text : List Char) →
    (ended : Bool) → List Char × Cursor × Bool
  | 0, c, _, text, ended => (text, c, ended)
  | fuel + 1, c, gap, text, ended =>
      let n := plainRun inFlow c.rest
      if c.peek 0 == some '#' || n == 0 then (text, c, ended)
      else
        let text' := text ++ gap ++ c.rest.take n
        let (gap', c', ended') := plainGap (c.steps n)
        if gap'.isEmpty || c'.peek 0 == some '#' || (!inFlow && (c'.column : Int) < indent) then
          (text', c', ended')
        else plainScalar inFlow indent fuel c' gap' text' ended'

/-- The character of a one-letter escape. -/
def shortEscape? : Char → Option Char
  | '0' => some '\x00' | 'a' => some '\x07' | 'b' => some '\x08' | 't' => some '\t'
  | '\t' => some '\t' | 'n' => some '\n' | 'v' => some '\x0b' | 'f' => some '\x0c'
  | 'r' => some '\r' | 'e' => some '\x1b' | ' ' => some ' ' | '"' => some '"'
  | '\\' => some '\\' | '/' => some '/' | 'N' => some (Char.ofNat 0x85)
  | '_' => some (Char.ofNat 0xA0) | 'L' => some (Char.ofNat 0x2028)
  | 'P' => some (Char.ofNat 0x2029)
  | _ => none

/-- How many digits follow the letter of a code point escape. -/
def codeLength? : Char → Option Nat
  | 'x' => some 2
  | 'u' => some 4
  | 'U' => some 8
  | _ => none

/-- The code point of an escape. -/
def codeEscape (digits : List Char) (length : Nat) : Except Fault Nat :=
  match (digits.take length).mapM Text.Hex.digit? with
  | none => .error (.malformed .escape)
  | some values =>
      let n := values.foldl (fun n d => 16 * n + d) 0
      if values.length != length then .error (.malformed .escape)
      else if 2 ^ 31 ≤ n then .error .tooLarge
      else if 0x110000 ≤ n then .error .codePoint
      else .ok n

/-- The code points of characters, the last one first. -/
def pointsBack (cs : List Char) : List Nat :=
  (cs.map Char.toNat).reverse

/-- The rest of a quoted scalar as code points, read backwards onto what came before, and the place
behind it. -/
def quotedScalar (quote : Char) : (fuel : Nat) → Cursor → List Nat →
    Except Fault (List Nat × Cursor)
  | 0, _, _ => .error (.malformed .unclosed)
  | fuel + 1, c, text =>
      match c.rest with
      | [] => .error (.malformed .unclosed)
      | ch :: rest =>
          if ch == quote then
            if quote == '\'' && rest.head? == some '\'' then
              quotedScalar quote fuel c.step.step (quote.toNat :: text)
            else .ok (text.reverse, c.step)
          else if ch == '\\' && quote == '"' then
            match rest with
            | [] => .error (.malformed .unclosed)
            | d :: more =>
                match shortEscape? d, codeLength? d with
                | some e, _ => quotedScalar quote fuel c.step.step (e.toNat :: text)
                | none, some n =>
                    match codeEscape more n with
                    | .ok e => quotedScalar quote fuel (c.steps (n + 2)) (e :: text)
                    | .error f => .error f
                | none, none =>
                    if isBreak d then
                      let (_, c₁) := c.step.lineBreak
                      let (further, c₂, marker) :=
                        Cursor.breaks (fun x => x == ' ' || x == '\t') (c₁.rest.length + 1) c₁ []
                      if marker || c₁.atMarker then .error (.malformed .unclosed)
                      else quotedScalar quote fuel c₂ (pointsBack further ++ text)
                    else .error (.malformed .escape)
          else if isGap (some ch) then
            let blanks := c.rest.takeWhile (fun x => x == ' ' || x == '\t')
            let c₁ := c.steps blanks.length
            match c₁.rest with
            | [] => .error (.malformed .unclosed)
            | d :: _ =>
                if isBreak d then
                  let (first, c₂) := c₁.lineBreak
                  let (further, c₃, marker) :=
                    Cursor.breaks (fun x => x == ' ' || x == '\t') (c₂.rest.length + 1) c₂ []
                  if marker || c₂.atMarker then .error (.malformed .unclosed)
                  else quotedScalar quote fuel c₃ (pointsBack (folded first further) ++ text)
                else quotedScalar quote fuel c₁ (pointsBack blanks ++ text)
          else quotedScalar quote fuel c.step (ch.toNat :: text)

/-- The token of a quoted scalar. -/
def Token.ofPoints (points : List Nat) : Token :=
  if points.all (fun n => decide n.isValidChar) then
    .scalar (String.ofList (points.map Char.ofNat)) false
  else .codes points

/-- A scalar that may turn out to be a key. -/
structure Candidate where
  /-- The number of tokens in front of it. -/
  position : Nat
  /-- Whether it has to be a key. -/
  required : Bool
  /-- Where it starts. -/
  start : Cursor

/-- The progress of reading tokens. -/
structure Scan where
  /-- The place reached. -/
  cursor : Cursor
  /-- The tokens read. -/
  tokens : Array Token := #[]
  /-- The column of the innermost open block collection. -/
  indent : Int := -1
  /-- The columns of the others, innermost first. -/
  outer : List Int := []
  /-- The depth of brackets. -/
  flow : Nat := 0
  /-- Whether a key may start here. -/
  keyAllowed : Bool := true
  /-- The possible key at each depth of brackets. -/
  candidates : List (Nat × Candidate) := []
  /-- Whether the end is reached. -/
  finished : Bool := false

namespace Scan

/-- Adds a token. -/
def emit (s : Scan) (t : Token) : Scan :=
  { s with tokens := s.tokens.push t }

/-- Inserts tokens at a position. -/
def insert (s : Scan) (position : Nat) (ts : List Token) : Scan :=
  { s with
    tokens := s.tokens.extract 0 position ++ ts.toArray ++ s.tokens.extract position s.tokens.size }

/-- Goes so many characters ahead. -/
def ahead (s : Scan) (n : Nat) : Scan :=
  { s with cursor := s.cursor.steps n }

/-- Skips blanks, comments and line breaks. -/
def skip : (fuel : Nat) → Scan → Scan
  | 0, s => s
  | fuel + 1, s =>
      match s.cursor.rest with
      | [] => s
      | ch :: rest =>
          if ch == ' ' || (s.cursor.index == 0 && ch.toNat == 0xFEFF) then skip fuel (s.ahead 1)
          else if ch == '#' then
            skip fuel (s.ahead (1 + (rest.takeWhile (fun c => !isBreak c)).length))
          else if isBreak ch then
            skip fuel { s with
              cursor := s.cursor.lineBreak.2
              keyAllowed := s.keyAllowed || s.flow == 0 }
          else s

/-- Forgets possible keys that are too far behind. -/
def dropStale (s : Scan) : Except Fault Scan :=
  let isStale (k : Candidate) : Bool :=
    k.start.line != s.cursor.line || 1024 < s.cursor.index - k.start.index
  if s.candidates.any (fun (_, k) => isStale k && k.required) then .error (.malformed .missingColon)
  else .ok { s with candidates := s.candidates.filter (fun (_, k) => !isStale k) }

/-- Forgets the possible key at this depth of brackets. -/
def dropCandidate (s : Scan) : Except Fault Scan :=
  match s.candidates.lookup s.flow with
  | some k =>
      if k.required then .error (.malformed .missingColon)
      else .ok { s with candidates := s.candidates.filter (fun (level, _) => level != s.flow) }
  | none => .ok s

/-- Remembers that a key may start here. -/
def saveCandidate (s : Scan) : Except Fault Scan :=
  if s.keyAllowed then
    let required := s.flow == 0 && s.indent == (s.cursor.column : Int)
    match s.dropCandidate with
    | .error e => .error e
    | .ok s' => .ok { s' with
        candidates := (s.flow, ⟨s.tokens.size, required, s.cursor⟩) :: s'.candidates }
  else .ok s

/-- Closes block collections deeper than a column. -/
def unwind (column : Int) : (fuel : Nat) → Scan → Scan
  | 0, s => s
  | fuel + 1, s =>
      if s.flow == 0 && column < s.indent then
        match s.outer with
        | i :: rest => unwind column fuel { s.emit .blockEnd with indent := i, outer := rest }
        | [] => s
      else s

/-- Opens a block collection at a column, if it is deeper than the innermost one. -/
def openBlock (s : Scan) (column : Nat) : Scan × Bool :=
  if s.indent < column then ({ s with indent := column, outer := s.indent :: s.outer }, true)
  else (s, false)

/-- An opening bracket. -/
def flowStart (s : Scan) (t : Token) : Except Fault Scan := do
  let s ← s.saveCandidate
  return { (s.emit t).ahead 1 with flow := s.flow + 1, keyAllowed := true }

/-- A closing bracket. -/
def flowEnd (s : Scan) (t : Token) : Except Fault Scan := do
  let s ← s.dropCandidate
  if s.flow == 0 then .error (.malformed .unexpected)
  else return { (s.emit t).ahead 1 with flow := s.flow - 1, keyAllowed := false }

/-- A comma. -/
def flowNext (s : Scan) : Except Fault Scan := do
  let s ← s.dropCandidate
  return { (s.emit .flowEntry).ahead 1 with keyAllowed := true }

/-- A dash in front of an entry. -/
def blockEntry (s : Scan) : Except Fault Scan := do
  if s.flow == 0 && !s.keyAllowed then .error (.malformed .misplaced)
  else
    let (s, opened) := if s.flow == 0 then s.openBlock s.cursor.column else (s, false)
    let s := if opened then s.emit .sequenceStart else s
    let s ← s.dropCandidate
    return { (s.emit .entry).ahead 1 with keyAllowed := true }

/-- A question mark in front of a key. -/
def explicitKey (s : Scan) : Except Fault Scan := do
  if s.flow == 0 && !s.keyAllowed then .error (.malformed .misplaced)
  else
    let (s, opened) := if s.flow == 0 then s.openBlock s.cursor.column else (s, false)
    let s := if opened then s.emit .mappingStart else s
    let s ← s.dropCandidate
    return { (s.emit .key).ahead 1 with keyAllowed := s.flow == 0 }

/-- A colon in front of a value. -/
def valueMark (s : Scan) : Except Fault Scan := do
  match s.candidates.lookup s.flow with
  | some k =>
      let s := { s with candidates := s.candidates.filter (fun (level, _) => level != s.flow) }
      let (s, opened) := if s.flow == 0 then s.openBlock k.start.column else (s, false)
      let s := s.insert k.position (if opened then [.mappingStart, .key] else [.key])
      return { (s.emit .value).ahead 1 with keyAllowed := false }
  | none =>
      if s.flow == 0 && !s.keyAllowed then .error (.malformed .misplaced)
      else
        let (s, opened) := if s.flow == 0 then s.openBlock s.cursor.column else (s, false)
        let s := if opened then s.emit .mappingStart else s
        let s ← s.dropCandidate
        return { (s.emit .value).ahead 1 with keyAllowed := s.flow == 0 }

/-- A quoted scalar. -/
def quoted (s : Scan) (quote : Char) : Except Fault Scan := do
  let s ← s.saveCandidate
  let (text, c) ← quotedScalar quote (s.cursor.rest.length + 1) s.cursor.step []
  return { s.emit (.ofPoints text) with cursor := c, keyAllowed := false }

/-- A plain scalar. -/
def plain (s : Scan) : Except Fault Scan := do
  let s ← s.saveCandidate
  let (text, c, ended) :=
    plainScalar (s.flow != 0) (s.indent + 1) (s.cursor.rest.length + 1) s.cursor [] [] false
  return { s.emit (.scalar (String.ofList text) true) with cursor := c, keyAllowed := ended }

/-- The mark between documents. -/
def documentMark (s : Scan) (t : Token) : Except Fault Scan := do
  let s := unwind (-1) (s.outer.length + 1) s
  let s ← s.dropCandidate
  return { (s.emit t).ahead 3 with keyAllowed := false }

/-- The end of the text. -/
def finish (s : Scan) : Except Fault Scan := do
  let s := unwind (-1) (s.outer.length + 1) s
  let s ← s.dropCandidate
  return { s with finished := true }

/-- Whether a plain scalar may start with a character in front of another one. -/
def startsPlain (inFlow : Bool) (c : Char) (next : Option Char) : Bool :=
  if "-?:,[]\x7b\x7d#&*!|>'\"%@`".toList.contains c || isGap (some c) then
    !isGap next && (c == '-' || (!inFlow && (c == '?' || c == ':')))
  else true

/-- Reads the next token. -/
def next (s : Scan) : Except Fault Scan := do
  let s ← (skip (s.cursor.rest.length + 1) s).dropStale
  let s := unwind s.cursor.column (s.outer.length + 1) s
  let inFlow := s.flow != 0
  match s.cursor.rest with
  | [] => s.finish
  | c :: rest =>
      let following := rest.head?
      if c == '%' && s.cursor.column == 0 then .error (.malformed .unsupported)
      else if s.cursor.column == 0 && s.cursor.startsWith '-' then s.documentMark .documentStart
      else if s.cursor.column == 0 && s.cursor.startsWith '.' then s.documentMark .documentEnd
      else if c == '[' then s.flowStart .flowSequenceStart
      else if c == '\x7b' then s.flowStart .flowMappingStart
      else if c == ']' then s.flowEnd .flowSequenceEnd
      else if c == '\x7d' then s.flowEnd .flowMappingEnd
      else if c == ',' then s.flowNext
      else if c == '-' && isGap following then s.blockEntry
      else if c == '?' && (inFlow || isGap following) then s.explicitKey
      else if c == ':' && (inFlow || isGap following) then s.valueMark
      else if c == '*' || c == '&' || c == '!' then .error (.malformed .unsupported)
      else if !inFlow && (c == '|' || c == '>') then .error (.malformed .unsupported)
      else if c == '\'' || c == '"' then s.quoted c
      else if startsPlain inFlow c following then s.plain
      else .error (.malformed .character)

/-- Reads tokens until the end or the first fault. -/
def all : (fuel : Nat) → Scan → Scan
  | 0, s => s
  | fuel + 1, s =>
      if s.finished then s
      else
        match s.next with
        | .error f => s.emit (.fault f)
        | .ok s' => all fuel s'

end Scan

/-- The tokens of a text. -/
def tokens (cs : List Char) : List Token :=
  if cs.all isAllowed then
    (Scan.all (cs.length + 2) { cursor := { rest := cs } }).tokens.toList
  else [.fault (.malformed .character)]

end FlowCheck.Yaml
