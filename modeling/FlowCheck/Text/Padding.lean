/-!
# Padding

Texts filled up with spaces, as columns need them.
-/

namespace FlowCheck.Text

/-- A text filled up with spaces behind it to a width. -/
def padEnd (width : Nat) (s : String) : String :=
  s ++ String.ofList (List.replicate (width - s.length) ' ')

end FlowCheck.Text
