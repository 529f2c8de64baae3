import FlowCheck.Text.Numeral
import FlowCheck.Value.Moment

/-!
# Faults of documents

Why a text has no value: it is no document, or it is one that holds a number, a code point or a point
in time which does not exist.
-/

namespace FlowCheck.Yaml

/-- What is wrong with the form of a document. -/
inductive Problem where
  /-- A character that no document may hold, or that starts no token. -/
  | character
  /-- A quote that is not closed. -/
  | unclosed
  /-- An escape that stands for nothing. -/
  | escape
  /-- An entry, key or value where none may stand. -/
  | misplaced
  /-- A key without its colon. -/
  | missingColon
  /-- A token that does not fit. -/
  | unexpected
  /-- A collection as a key. -/
  | collectionKey
  /-- Something else than mappings that are to be merged. -/
  | notMergeable
  /-- A reserved mark in place of a scalar. -/
  | reservedMark
  /-- More than one document. -/
  | severalDocuments
  /-- A construct outside the documents this program reads. -/
  | unsupported
  deriving DecidableEq

/-- Why a text has no value. -/
inductive Fault where
  /-- The text is no document. -/
  | malformed (problem : Problem)
  /-- A number cannot be read. -/
  | numeral (error : Text.Numeral.Error)
  /-- There is no such point in time. -/
  | moment (error : MomentError)
  /-- An escape lies beyond the last code point. -/
  | codePoint
  /-- A number is too large for what is done with it. -/
  | tooLarge
  deriving DecidableEq

/-- The wording of a fault; the diagnosis of a malformed document is held by a mark. -/
def Fault.message : Fault → String
  | malformed _ => "<yaml>"
  | numeral e => e.message
  | moment e => e.message
  | codePoint => "chr() arg not in range(0x110000)"
  | tooLarge => "number is too large"

end FlowCheck.Yaml
