import FlowCheck.Text.Padding
import FlowCheck.UnknownName
import FlowCheck.Value.Json
import FlowCheck.Yaml.Printer

/-!
# Output formats

Results are printed as indented JSON, as a block document, as a table or as plain text.  The table of
a list of records has a column per key of the first record; the table of a record is that of its first
list of records, if it has one.
-/

namespace FlowCheck

/-- How results are printed. -/
inductive OutputFormat where
  | json | yaml | table | text
  deriving DecidableEq, Repr

/-- Why a result cannot be printed. -/
inductive OutputError where
  /-- The format has no form for an opcode, or for something that is no data. -/
  | unwritable
  /-- A number is too long to be written. -/
  | unprintable
  /-- A row of a table is no record. -/
  | notRecord
  /-- A listing is no sequence of texts. -/
  | notListing
  deriving DecidableEq, Repr

namespace OutputFormat

/-- The name of a format. -/
def name : OutputFormat → String
  | json => "json"
  | yaml => "yaml"
  | table => "table"
  | text => "text"

/-- All formats. -/
def all : List OutputFormat :=
  [json, yaml, table, text]

/-- The format of a name. -/
def ofName? (s : String) : Option OutputFormat :=
  all.find? (fun f => f.name == s)

/-- The format that a value names. -/
def ofValue (v : Value) : Except UnknownName OutputFormat :=
  v.named "OutputFormat" ofName?

/-- A value as it is printed on its own. -/
def shown (v : Value) : Except OutputError String :=
  if v.isPrintable then .ok v.display else .error .unprintable

/-- The entries of a record, one per line. -/
def lines (entries : List (Value × Value)) : Except OutputError String := do
  let texts ← entries.mapM (fun (k, v) => do return (← shown k) ++ ": " ++ (← shown v))
  return "\n".intercalate texts

/-- The widest cell that a table shows. -/
def cellWidth : Nat := 40

/-- The cells of a row under some headers. -/
def cells (headers : List String) (row : Value) : Except OutputError (List String) :=
  headers.mapM (fun h =>
    match row with
    | .map _ =>
        (shown ((row.get? h).getD (.text ""))).map (fun s => String.ofList (s.toList.take cellWidth))
    | _ => .error .notRecord)

/-- The widths of columns that hold a row, given the widths they have. -/
def widen (widths : List Nat) (row : List String) : List Nat :=
  List.zipWith (fun w s => max w s.length) widths row

/-- A row in columns of some widths. -/
def rowLine (widths : List Nat) (row : List String) : String :=
  " | ".intercalate (List.zipWith Text.padEnd widths row)

/-- The table of some records under the headers of the first one. -/
def tableOf (headers : List String) (records : List Value) : Except OutputError String := do
  let rows ← records.mapM (cells headers)
  let widths := rows.foldl widen (headers.map String.length)
  let rule := "-+-".intercalate (widths.map (fun w => String.ofList (List.replicate w '-')))
  return "\n".intercalate (rowLine widths headers :: rule :: rows.map (rowLine widths))

/-- The headers of a list of records. -/
def headers? : List Value → Option (List String)
  | .map entries :: _ => some (entries.map (fun (k, _) => k.display))
  | _ => none

/-- The first list of records among the values of a record. -/
def recordsOf? (entries : List (Value × Value)) : Option (List String × List Value) :=
  entries.findSome? (fun (_, v) =>
    match v with
    | .list items => (headers? items).map (fun h => (h, items))
    | _ => none)

/-- A result as a table. -/
def tableText (v : Value) : Except OutputError String :=
  match v with
  | .map entries =>
      match recordsOf? entries with
      | some (headers, records) => tableOf headers records
      | none => lines entries
  | .list items =>
      match headers? items with
      | some headers => tableOf headers items
      | none => shown v
  | _ => shown v

/-- Texts, one per line. -/
def joinedTexts (items : List Value) : Except OutputError String := do
  let texts ← items.mapM (fun item =>
    match item with
    | .text s => Except.ok s
    | _ => Except.error OutputError.notListing)
  return "\n".intercalate texts

/-- A listing, one item per line. -/
def listingText (v : Value) : Except OutputError String :=
  match v with
  | .list items => joinedTexts items
  | .map entries => joinedTexts (entries.map Prod.fst)
  | .text s => .ok ("\n".intercalate (s.toList.map (fun c => String.ofList [c])))
  | _ => .error .notListing

/-- A result as plain text. -/
def plainText (v : Value) : Except OutputError String :=
  match v with
  | .map entries =>
      match v.get? "listing" with
      | some listing => listingText listing
      | none => lines entries
  | _ => shown v

/-- A result in a format. -/
def render (f : OutputFormat) (v : Value) : Except OutputError String :=
  match f with
  | json => if v.isPrintable then .ok (Json.indented v) else .error .unprintable
  | yaml =>
      if v.isPrintable then
        match Yaml.write? v with
        | some s => .ok s
        | none => .error .unwritable
      else .error .unprintable
  | table => tableText v
  | text => plainText v

end OutputFormat

end FlowCheck
