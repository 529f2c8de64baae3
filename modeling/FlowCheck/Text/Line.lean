/-!
# Lines and parts

The characters that end a line of text, the forms of line ends that files use, and the parts of a
text between separators.
-/

namespace FlowCheck.Text

/-- Whether a character ends a line. -/
def isLineEnd (c : Char) : Bool :=
  let n := c.toNat
  (0x0A ≤ n && n ≤ 0x0D) || (0x1C ≤ n && n ≤ 0x1E) || n == 0x85 || n == 0x2028 || n == 0x2029

/-- Splits a text into its lines; the second argument collects the current line backwards. -/
def linesFrom : List Char → List Char → List (List Char)
  | [], line => if line.isEmpty then [] else [line.reverse]
  | '\r' :: '\n' :: cs, line => line.reverse :: linesFrom cs []
  | c :: cs, line => if isLineEnd c then line.reverse :: linesFrom cs [] else linesFrom cs (c :: line)

/-- The lines of a text.  Text behind the last line end is a line of its own if there is any. -/
def lines (cs : List Char) : List (List Char) :=
  linesFrom cs []

/-- The text with every carriage return, alone or in front of a line feed, turned into a line feed. -/
def unifyLineEnds : List Char → List Char
  | [] => []
  | '\r' :: '\n' :: cs => '\n' :: unifyLineEnds cs
  | '\r' :: cs => '\n' :: unifyLineEnds cs
  | c :: cs => c :: unifyLineEnds cs

/-- Splits a text at every separator; the last argument collects the current part backwards. -/
def partsFrom (separator : Char) : List Char → List Char → List String
  | [], part => [String.ofList part.reverse]
  | c :: cs, part =>
      if c = separator then String.ofList part.reverse :: partsFrom separator cs []
      else partsFrom separator cs (c :: part)

/-- The parts of a text between separators, of which there is one more than separators. -/
def parts (separator : Char) (s : String) : List String :=
  partsFrom separator s.toList []

end FlowCheck.Text
