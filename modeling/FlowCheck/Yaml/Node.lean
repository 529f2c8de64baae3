import FlowCheck.Yaml.Token

/-!
# Nodes

The tree of a document: scalars as they are written, sequences and mappings.  A missing key, value or
entry is an empty plain scalar.  A text holds at most one document.
-/

namespace FlowCheck.Yaml

/-- A part of a document. -/
inductive Node where
  | scalar (text : String) (plain : Bool)
  | codes (points : List Nat)
  | sequence (items : List Node)
  | mapping (entries : List (Node × Node))

namespace Node

/-- What stands where nothing is written. -/
def empty : Node :=
  scalar "" true

/-- A node and the tokens behind it. -/
abbrev Parsed := Except Fault (Node × List Token)

/-- The fault of tokens that do not go on as they should. -/
def unfit : List Token → Fault
  | .fault f :: _ => f
  | _ => .malformed .unexpected

mutual

/-- Reads a node; `block` allows block collections and `indentless` a sequence that is not deeper
than its key. -/
def node : (fuel : Nat) → (block indentless : Bool) → List Token → Parsed
  | 0, _, _, tokens => .error (unfit tokens)
  | fuel + 1, block, indentless, tokens =>
      match tokens with
      | .scalar text plain :: rest => .ok (scalar text plain, rest)
      | .codes points :: rest => .ok (codes points, rest)
      | .flowSequenceStart :: rest => flowSequence fuel true [] rest
      | .flowMappingStart :: rest => flowMapping fuel true [] rest
      | .entry :: _ =>
          if indentless then sequenceEntries fuel false [] tokens else .error (unfit tokens)
      | .sequenceStart :: rest =>
          if block then sequenceEntries fuel true [] rest else .error (unfit tokens)
      | .mappingStart :: rest =>
          if block then mappingEntries fuel [] rest else .error (unfit tokens)
      | _ => .error (unfit tokens)

/-- Reads the entries of a block sequence, the last one first. -/
def sequenceEntries : (fuel : Nat) → (closed : Bool) → List Node → List Token → Parsed
  | 0, _, _, tokens => .error (unfit tokens)
  | fuel + 1, closed, items, tokens =>
      match tokens with
      | .entry :: rest =>
          let isEmpty := match rest with
            | .entry :: _ | .blockEnd :: _ => true
            | .key :: _ | .value :: _ => !closed
            | _ => false
          if isEmpty then sequenceEntries fuel closed (empty :: items) rest
          else
            match node fuel true false rest with
            | .error e => .error e
            | .ok (v, rest') => sequenceEntries fuel closed (v :: items) rest'
      | .blockEnd :: rest => .ok (sequence items.reverse, if closed then rest else tokens)
      | _ => if closed then .error (unfit tokens) else .ok (sequence items.reverse, tokens)

/-- Reads the entries of a block mapping, the last one first. -/
def mappingEntries : (fuel : Nat) → List (Node × Node) → List Token → Parsed
  | 0, _, tokens => .error (unfit tokens)
  | fuel + 1, entries, tokens =>
      match tokens with
      | .key :: rest =>
          match part fuel rest with
          | .error e => .error e
          | .ok (k, .value :: rest') =>
              match part fuel rest' with
              | .error e => .error e
              | .ok (v, rest'') => mappingEntries fuel ((k, v) :: entries) rest''
          | .ok (k, rest') => mappingEntries fuel ((k, empty) :: entries) rest'
      | .blockEnd :: rest => .ok (mapping entries.reverse, rest)
      | _ => .error (unfit tokens)

/-- Reads a key or value of a block mapping, which may be missing. -/
def part : (fuel : Nat) → List Token → Parsed
  | 0, tokens => .error (unfit tokens)
  | fuel + 1, tokens =>
      match tokens with
      | .key :: _ | .value :: _ | .blockEnd :: _ => .ok (empty, tokens)
      | _ => node fuel true true tokens

/-- Reads the items of a bracketed sequence, the last one first. -/
def flowSequence : (fuel : Nat) → (first : Bool) → List Node → List Token → Parsed
  | 0, _, _, tokens => .error (unfit tokens)
  | fuel + 1, first, items, tokens =>
      let item (rest : List Token) : Parsed :=
        match rest with
        | .flowSequenceEnd :: rest' => .ok (sequence items.reverse, rest')
        | .key :: rest' =>
            match flowPart fuel .flowSequenceEnd rest' with
            | .error e => .error e
            | .ok (k, rest'') =>
                match flowValue fuel .flowSequenceEnd rest'' with
                | .error e => .error e
                | .ok (v, after) => flowSequence fuel false (mapping [(k, v)] :: items) after
        | _ =>
            match node fuel false false rest with
            | .error e => .error e
            | .ok (v, after) => flowSequence fuel false (v :: items) after
      match tokens with
      | .flowSequenceEnd :: rest => .ok (sequence items.reverse, rest)
      | .flowEntry :: rest => if first then .error (unfit tokens) else item rest
      | _ => if first then item tokens else .error (unfit tokens)

/-- Reads the entries of a bracketed mapping, the last one first. -/
def flowMapping : (fuel : Nat) → (first : Bool) → List (Node × Node) → List Token → Parsed
  | 0, _, _, tokens => .error (unfit tokens)
  | fuel + 1, first, entries, tokens =>
      let entry (rest : List Token) : Parsed :=
        match rest with
        | .flowMappingEnd :: rest' => .ok (mapping entries.reverse, rest')
        | .key :: rest' =>
            match flowPart fuel .flowMappingEnd rest' with
            | .error e => .error e
            | .ok (k, rest'') =>
                match flowValue fuel .flowMappingEnd rest'' with
                | .error e => .error e
                | .ok (v, after) => flowMapping fuel false ((k, v) :: entries) after
        | _ =>
            match node fuel false false rest with
            | .error e => .error e
            | .ok (k, after) => flowMapping fuel false ((k, empty) :: entries) after
      match tokens with
      | .flowMappingEnd :: rest => .ok (mapping entries.reverse, rest)
      | .flowEntry :: rest => if first then .error (unfit tokens) else entry rest
      | _ => if first then entry tokens else .error (unfit tokens)

/-- Reads a key inside brackets, which may be missing. -/
def flowPart : (fuel : Nat) → (close : Token) → List Token → Parsed
  | 0, _, tokens => .error (unfit tokens)
  | fuel + 1, close, tokens =>
      match tokens with
      | t :: _ =>
          if t == .value || t == .flowEntry || t == close then .ok (empty, tokens)
          else node fuel false false tokens
      | [] => .error (unfit tokens)

/-- Reads the value behind a key inside brackets, which may be missing. -/
def flowValue : (fuel : Nat) → (close : Token) → List Token → Parsed
  | 0, _, tokens => .error (unfit tokens)
  | fuel + 1, close, tokens =>
      match tokens with
      | .value :: t :: rest =>
          if t == .flowEntry || t == close then .ok (empty, t :: rest)
          else node fuel false false (t :: rest)
      | .value :: [] => .error (unfit [])
      | _ => .ok (empty, tokens)

end

/-- Drops the marks at the end of a document; nothing may follow them. -/
def closed (n : Node) : List Token → Except Fault Node
  | [] => .ok n
  | .documentEnd :: rest => closed n rest
  | .documentStart :: _ => .error (.malformed .severalDocuments)
  | tokens => .error (unfit tokens)

/-- The tree of the tokens of a document. -/
def ofTokens (tokens : List Token) : Except Fault Node :=
  let content (rest : List Token) : Except Fault Node :=
    match node (4 * rest.length + 4) true false rest with
    | .error e => .error e
    | .ok (n, after) => closed n after
  match tokens with
  | [] => .ok empty
  | .documentStart :: rest =>
      match rest with
      | [] | .documentStart :: _ | .documentEnd :: _ => closed empty rest
      | _ => content rest
  | _ => content tokens

end Node

end FlowCheck.Yaml
