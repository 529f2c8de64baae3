import FlowCheck.Text.Numeral

/-!
# Command line arguments

A grammar has options, operands and commands, each command with a grammar of its own.  Options may
stand anywhere before the command, long ones may be shortened as long as they stay unambiguous, short
ones may be joined, and values follow as the next argument or behind an equals sign.  Two dashes end
the options.
-/

namespace FlowCheck.Command

/-- What the value of an option may be. -/
inductive ValueRule where
  /-- Any text. -/
  | text
  /-- One of some texts. -/
  | oneOf (choices : List String)
  /-- An integer. -/
  | integer

/-- What an option does. -/
inductive OptionKind where
  /-- It is given or not. -/
  | flag
  /-- It takes a value. -/
  | value (rule : ValueRule)
  /-- It asks for help. -/
  | help
  /-- It asks for the version. -/
  | version

/-- An option. -/
structure OptionSpec where
  /-- Its spellings. -/
  names : List String
  /-- What it does. -/
  kind : OptionKind
  /-- What its value is called. -/
  key : String

/-- What a command line may hold. -/
inductive Grammar where
  /-- Options, required operands, and commands with their grammars. -/
  | node (options : List OptionSpec) (operands : List String) (commands : List (String × Grammar))

/-- Why reading the arguments ends early. -/
inductive Stop where
  /-- The arguments do not fit the grammar. -/
  | usage
  /-- Help was asked for. -/
  | help
  /-- The version was asked for. -/
  | version
  deriving DecidableEq, Repr

/-- What the arguments say. -/
structure Arguments where
  /-- The values by what they are called, the latest first. -/
  values : List (String × String) := []
  /-- The commands, outermost first. -/
  path : List String := []
  /-- Whether some arguments fit nowhere. -/
  hasRest : Bool := false

/-- An option as it is written: which one, its spelling, and the value joined to it. -/
structure OptionUse where
  /-- The option. -/
  spec : OptionSpec
  /-- The spelling that was meant. -/
  spelling : String
  /-- The text joined to it. -/
  joined : Option String

/-- An argument, sorted by its form. -/
inductive Piece where
  /-- An operand, a value or a command. -/
  | word (s : String)
  /-- The end of the options. -/
  | mark
  /-- An option; nothing if no option has this form. -/
  | option (s : String) (use : Option OptionUse)

namespace Piece

/-- The argument itself. -/
def text : Piece → String
  | word s => s
  | mark => "--"
  | option s _ => s

end Piece

/-- The option with a spelling. -/
def findOption (options : List OptionSpec) (spelling : String) : Option OptionSpec :=
  options.find? (fun o => o.names.contains spelling)

/-- The text in front of the first equals sign and the text behind it. -/
def splitAtEquals (s : String) : String × Option String :=
  let cs := s.toList
  let front := cs.takeWhile (· != '=')
  match cs.drop front.length with
  | _ :: rest => (String.ofList front, some (String.ofList rest))
  | [] => (s, none)

/-- The options whose spelling starts like a text. -/
def startingWith (options : List OptionSpec) (start : String) (joined : Option String) :
    List OptionUse :=
  options.flatMap (fun o =>
    (o.names.filter (fun n => start.toList.isPrefixOf n.toList)).map (fun n =>
      ⟨o, n, joined⟩))

/-- The options that an argument can be short for. -/
def candidates (options : List OptionSpec) (s : String) : List OptionUse :=
  match s.toList with
  | '-' :: '-' :: _ =>
      let (start, joined) := splitAtEquals s
      startingWith options start joined
  | '-' :: c :: rest =>
      let short := String.ofList ['-', c]
      options.flatMap (fun o => o.names.filterMap (fun n =>
        if n == short then some ⟨o, n, some (String.ofList rest)⟩
        else if s.toList.isPrefixOf n.toList then some ⟨o, n, none⟩
        else none))
  | _ => []

/-- The characters of a text without a line feed at its end. -/
def withoutFinalFeed (cs : List Char) : List Char :=
  if cs.getLast? == some '\n' then cs.dropLast else cs

/-- Whether a text is a negative number without an exponent; a line feed may follow it. -/
def isNegativeNumber (s : String) : Bool :=
  match withoutFinalFeed s.toList with
  | '-' :: cs =>
      let digits := cs.takeWhile (fun c => (Text.decimalDigit? c).isSome)
      match cs.drop digits.length with
      | [] => !digits.isEmpty
      | '.' :: more => !more.isEmpty && more.all (fun c => (Text.decimalDigit? c).isSome)
      | _ => false
  | _ => false

/-- Sorts an argument in front of the end of the options. -/
def sortPiece (options : List OptionSpec) (s : String) : Except Stop Piece :=
  if s.toList.head? != some '-' || s == "-" then .ok (.word s)
  else
    match findOption options s with
    | some o => .ok (.option s (some ⟨o, s, none⟩))
    | none =>
        let (front, joined) := splitAtEquals s
        match joined.bind (fun _ => findOption options front) with
        | some o => .ok (.option s (some ⟨o, front, joined⟩))
        | none =>
            match candidates options s with
            | [use] => .ok (.option s (some use))
            | _ :: _ :: _ => .error .usage
            | [] =>
                if isNegativeNumber s || s.toList.contains ' ' then .ok (.word s)
                else .ok (.option s none)

/-- Sorts arguments; behind two dashes everything is a word. -/
def sortPieces (options : List OptionSpec) : List String → Except Stop (List Piece)
  | [] => .ok []
  | s :: rest =>
      if s == "--" then .ok (.mark :: rest.map Piece.word)
      else
        match sortPiece options s, sortPieces options rest with
        | .error e, _ => .error e
        | _, .error e => .error e
        | .ok p, .ok ps => .ok (p :: ps)

namespace ValueRule

/-- Whether a value keeps to the rule. -/
def accepts (rule : ValueRule) (s : String) : Bool :=
  match rule with
  | text => true
  | oneOf choices => choices.contains s
  | integer =>
      match Text.Numeral.decimal s with
      | .ok _ => true
      | .error _ => false

end ValueRule

/-- The arguments with a value added. -/
def Arguments.put (a : Arguments) (key value : String) : Arguments :=
  { a with values := (key, value) :: a.values }

/-- Takes an option without a value. -/
def takeBare (a : Arguments) (o : OptionSpec) : Except Stop Arguments :=
  match o.kind with
  | .flag => .ok (a.put o.key "")
  | .help => .error .help
  | .version => .error .version
  | .value _ => .error .usage

/-- Takes an option with a value. -/
def takeValue (a : Arguments) (o : OptionSpec) (rule : ValueRule) (s : String) :
    Except Stop Arguments :=
  if rule.accepts s then .ok (a.put o.key s) else .error .usage

/-- What a text joined to an option comes to. -/
structure Unfolded where
  /-- The options without a value. -/
  bare : List OptionSpec
  /-- The last option. -/
  last : OptionSpec
  /-- The value joined to the last option. -/
  value : Option String

/-- Resolves an option with a joined text: a value for it, or further short options joined to it, the
last of which may have a value. -/
def unfoldJoined (options : List OptionSpec) (o : OptionSpec) (isLong : Bool) :
    List Char → Except Stop Unfolded
  | [] =>
      match o.kind with
      | .value _ => .ok ⟨[], o, some ""⟩
      | _ => .error .usage
  | c :: rest =>
      match o.kind with
      | .value _ => .ok ⟨[], o, some (String.ofList (c :: rest))⟩
      | _ =>
          if isLong then .error .usage
          else
            match findOption options (String.ofList ['-', c]), rest with
            | none, _ => .error .usage
            | some next, [] => .ok ⟨[o], next, none⟩
            | some next, d :: more =>
                (unfoldJoined options next false (d :: more)).map (fun u =>
                  { u with bare := o :: u.bare })

/-- Takes an option and, if it needs one, the value behind it; yields the pieces left.  The value is
looked for before any of the joined options acts. -/
def takeOption (options : List OptionSpec) (a : Arguments) (use : OptionUse) (rest : List Piece) :
    Except Stop (Arguments × List Piece) := do
  let isLong := (use.spelling.toList.drop 1).head? == some '-'
  let unfolded ← match use.joined with
    | none => pure ⟨[], use.spec, none⟩
    | some joined => unfoldJoined options use.spec isLong joined.toList
  match unfolded.last.kind, unfolded.value, rest with
  | .value rule, some s, _ =>
      return (← takeValue (← unfolded.bare.foldlM takeBare a) unfolded.last rule s, rest)
  | .value rule, none, .word s :: rest =>
      return (← takeValue (← unfolded.bare.foldlM takeBare a) unfolded.last rule s, rest)
  | .value _, none, _ => throw .usage
  | _, _, _ => return (← takeBare (← unfolded.bare.foldlM takeBare a) unfolded.last, rest)

/-- Takes as many operands as stand at the front; yields the operands and the pieces left. -/
def takeOperands : Arguments → List String → List Piece → Arguments × List String × List Piece
  | a, [], pieces => (a, [], pieces)
  | a, key :: keys, pieces =>
      match pieces with
      | .word s :: .mark :: rest => takeOperands (a.put key s) keys rest
      | .word s :: rest => takeOperands (a.put key s) keys rest
      | .mark :: .word s :: rest => takeOperands (a.put key s) keys rest
      | _ => (a, key :: keys, pieces)

/-- Reads pieces by a grammar without commands. -/
def readOperands (options : List OptionSpec) :
    (fuel : Nat) → Arguments → List String → List Piece → Except Stop Arguments
  | 0, _, _, _ => .error .usage
  | fuel + 1, a, keys, pieces =>
      match pieces with
      | [] => if keys.isEmpty then .ok a else .error .usage
      | .option _ none :: rest => readOperands options fuel { a with hasRest := true } keys rest
      | .option _ (some use) :: rest =>
          match takeOption options a use rest with
          | .error e => .error e
          | .ok (a, rest) => readOperands options fuel a keys rest
      | piece :: rest =>
          let (a', keys', left) := takeOperands a keys (piece :: rest)
          if keys'.length < keys.length then readOperands options fuel a' keys' left
          else readOperands options fuel { a with hasRest := true } keys rest

/-- A command and the arguments behind it. -/
structure CommandUse where
  /-- The name of the command. -/
  name : String
  /-- The arguments behind it. -/
  rest : List String

/-- Reads the options in front of a command; everything behind the command is left to it. -/
def readOptions (options : List OptionSpec) :
    (fuel : Nat) → Arguments → List Piece → Except Stop (Arguments × Option CommandUse)
  | 0, _, _ => .error .usage
  | fuel + 1, a, pieces =>
      match pieces with
      | [] => .ok (a, none)
      | .option _ none :: rest => readOptions options fuel { a with hasRest := true } rest
      | .option _ (some use) :: rest =>
          match takeOption options a use rest with
          | .error e => .error e
          | .ok (a, rest) => readOptions options fuel a rest
      | .mark :: _ => .error .usage
      | .word s :: rest => .ok (a, some ⟨s, rest.map Piece.text⟩)

/-- Reads arguments by a grammar.  The fuel bounds the depth of commands. -/
def readBy : (fuel : Nat) → Grammar → Arguments → List String → Except Stop Arguments
  | 0, _, _, _ => .error .usage
  | fuel + 1, .node options operands commands, a, args =>
      match sortPieces options args with
      | .error e => .error e
      | .ok pieces =>
          if commands.isEmpty then readOperands options (2 * pieces.length + 2) a operands pieces
          else
            match readOptions options (pieces.length + 1) a pieces with
            | .error e => .error e
            | .ok (a, none) => .ok a
            | .ok (a, some use) =>
                match commands.lookup use.name with
                | none => .error .usage
                | some g => readBy fuel g { a with path := a.path ++ [use.name] } use.rest

/-- Reads arguments by a grammar; arguments that fit nowhere are refused at the end. -/
def Grammar.read (g : Grammar) (args : List String) : Except Stop Arguments :=
  match readBy (args.length + 1) g {} args with
  | .error e => .error e
  | .ok a => if a.hasRest then .error .usage else .ok a

namespace Arguments

/-- The value of a name. -/
def get? (a : Arguments) (key : String) : Option String :=
  a.values.lookup key

/-- The value of a name that the grammar requires. -/
def getD (a : Arguments) (key default : String) : String :=
  (a.get? key).getD default

/-- Whether a flag is given. -/
def has (a : Arguments) (key : String) : Bool :=
  (a.get? key).isSome

end Arguments

end FlowCheck.Command
