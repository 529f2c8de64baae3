/-!
# Capital letters

Capitals as far as they can spell a mnemonic: the capitals of the ASCII letters, and of the few other
letters and ligatures whose capitals are ASCII letters.  Every other character stays as it is.
-/

namespace FlowCheck.Text

/-- The capital form of a character. -/
def capital (c : Char) : List Char :=
  match c.toNat with
  | 0xDF => ['S', 'S']
  | 0x131 => ['I']
  | 0x17F => ['S']
  | 0xFB00 => ['F', 'F']
  | 0xFB01 => ['F', 'I']
  | 0xFB02 => ['F', 'L']
  | 0xFB03 => ['F', 'F', 'I']
  | 0xFB04 => ['F', 'F', 'L']
  | 0xFB05 => ['S', 'T']
  | 0xFB06 => ['S', 'T']
  | _ => [c.toUpper]

/-- The capital form of a text. -/
def capitals (s : String) : String :=
  String.ofList (s.toList.flatMap capital)

end FlowCheck.Text
