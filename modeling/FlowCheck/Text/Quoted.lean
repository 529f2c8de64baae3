import FlowCheck.Text.Hex
import FlowCheck.Text.Printable

/-!
# Quoted text

Text between single quotes, or between double quotes if it holds a single quote and no double one.
The quote and the backslash are escaped, line feed, carriage return and tab have short escapes, and
every other unprintable character is written by its code point in two, four or eight digits.  So is
a code point that is no character.
-/

namespace FlowCheck.Text

/-- A code point in hexadecimal behind a backslash and the letter for its width. -/
def codeEscape (n : Nat) : List Char :=
  if n < 0x100 then '\\' :: 'x' :: (Hex.padded 2 n).toList
  else if n < 0x10000 then '\\' :: 'u' :: (Hex.padded 4 n).toList
  else '\\' :: 'U' :: (Hex.padded 8 n).toList

/-- One character inside the given quotes. -/
def quoteChar (quote c : Char) : List Char :=
  if c == quote || c == '\\' then ['\\', c]
  else if c == '\n' then ['\\', 'n']
  else if c == '\r' then ['\\', 'r']
  else if c == '\t' then ['\\', 't']
  else if isPrintable c then [c]
  else codeEscape c.toNat

/-- One code point inside the given quotes. -/
def quotePoint (quote : Char) (n : Nat) : List Char :=
  if n.isValidChar then quoteChar quote (Char.ofNat n) else codeEscape n

/-- The quote that a text is put between. -/
def chooseQuote (cs : List Char) : Char :=
  if cs.contains '\'' && !cs.contains '"' then '"' else '\''

/-- The quoted form of a text. -/
def quoted (s : String) : String :=
  let cs := s.toList
  let quote := chooseQuote cs
  String.ofList (quote :: cs.flatMap (quoteChar quote) ++ [quote])

/-- The quoted form of a text that is given by its code points. -/
def quotedPoints (points : List Nat) : String :=
  let quote := chooseQuote (points.map Char.ofNat)
  String.ofList (quote :: points.flatMap (quotePoint quote) ++ [quote])

/-- A text that is given by its code points; those that are no characters are escaped. -/
def shownPoints (points : List Nat) : String :=
  String.ofList (points.flatMap (fun n =>
    if n.isValidChar then [Char.ofNat n] else codeEscape n))

end FlowCheck.Text
