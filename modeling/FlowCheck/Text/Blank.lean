/-!
# Blank characters

The characters that separate words: the controls U+0009 to U+000D and U+001C to U+001F, the space,
next line, the no-break space and the space separators of Unicode.  The zero-width space and the
byte order mark are not blank.
-/

namespace FlowCheck.Text

/-- Whether a character separates words. -/
def isBlank (c : Char) : Bool :=
  let n := c.toNat
  (0x09 ≤ n && n ≤ 0x0D) || (0x1C ≤ n && n ≤ 0x20) || n == 0x85 || n == 0xA0 || n == 0x1680 ||
    (0x2000 ≤ n && n ≤ 0x200A) || n == 0x2028 || n == 0x2029 || n == 0x202F || n == 0x205F ||
    n == 0x3000

/-- The text with every blank removed. -/
def withoutBlanks (cs : List Char) : List Char :=
  cs.filter (fun c => !isBlank c)

/-- The text without its leading blanks. -/
def trimStart (cs : List Char) : List Char :=
  cs.dropWhile isBlank

/-- The text without its trailing blanks. -/
def trimEnd (cs : List Char) : List Char :=
  (cs.reverse.dropWhile isBlank).reverse

/-- The text without its leading and trailing blanks. -/
def trim (cs : List Char) : List Char :=
  trimEnd (trimStart cs)

/-- Splits a text into its words; the second argument collects the current word backwards. -/
def wordsFrom : List Char → List Char → List (List Char)
  | [], word => if word.isEmpty then [] else [word.reverse]
  | c :: cs, word =>
      if isBlank c then
        if word.isEmpty then wordsFrom cs [] else word.reverse :: wordsFrom cs []
      else wordsFrom cs (c :: word)

/-- The maximal runs of characters that are not blank, in order. -/
def words (cs : List Char) : List (List Char) :=
  wordsFrom cs []

end FlowCheck.Text
