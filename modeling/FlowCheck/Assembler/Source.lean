import FlowCheck.Assembler.Basic
import FlowCheck.Text.Line

/-!
# Assembly text

One item per line: a label with its colon, or a mnemonic with at most one operand.  Comments start at
a semicolon or a hash.  An operand that reads as an integer literal is a number, any other one is a
label name.
-/

namespace FlowCheck.Assembler

/-- Whether a character starts a comment. -/
def isComment (c : Char) : Bool :=
  c == ';' || c == '#'

/-- The operand of a word. -/
def operandOf (word : String) : Operand :=
  match Text.Numeral.literal word with
  | .ok n => .number n
  | .error _ => .label word

/-- The item of a line, if the line has one. -/
def parseLine (number : Nat) (line : List Char) : Except Error (Option Item) :=
  let body := Text.trim (line.takeWhile (fun c => !isComment c))
  if body.isEmpty then .ok none
  else if body.getLast? == some ':' then .ok (some (.label (String.ofList body)))
  else
    match Text.words body with
    | [mnemonic] => .ok (some (.instruction (String.ofList mnemonic) none))
    | [mnemonic, word] =>
        .ok (some (.instruction (String.ofList mnemonic) (some (operandOf (String.ofList word)))))
    | _ => .error (.tooManyOperands number)

/-- The items of lines, numbered from a given number on. -/
def parseLines : Nat → List (List Char) → Except Error (List Item)
  | _, [] => .ok []
  | number, line :: rest =>
      match parseLine number line with
      | .error e => .error e
      | .ok item =>
          match parseLines (number + 1) rest with
          | .error e => .error e
          | .ok items => .ok (item.toList ++ items)

/-- The items of a text. -/
def parse (source : String) : Except Error (List Item) :=
  parseLines 1 (Text.lines source.toList)

end FlowCheck.Assembler
