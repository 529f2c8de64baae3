import FlowCheck.Value.Json

/-!
# Log events

An event as data.  Fields that hold nothing are left out of what is written: null, the empty text and
the empty map.
-/

namespace FlowCheck.Log

/-- A log event. -/
structure Event where
  /-- When it happened. -/
  timestamp : Value
  /-- The name of its level. -/
  level : Value
  /-- The name of the logger. -/
  logger : Value
  /-- What happened. -/
  message : Value
  /-- The name of the layer. -/
  layer : Value := .text ""
  /-- The operation it belongs to. -/
  operation : Value := .text ""
  /-- How long the operation took, in milliseconds. -/
  duration : Value := .null
  /-- The code of an error. -/
  errorCode : Value := .text ""
  /-- Further data. -/
  context : Value := .map []
  /-- The text of an exception. -/
  exception : Value := .null

namespace Event

/-- Whether a field holds nothing. -/
def isAbsent : Value → Bool
  | .null | .text "" | .map [] => true
  | _ => false

/-- All fields in the order in which they are written. -/
def fields (e : Event) : List (String × Value) :=
  [("timestamp", e.timestamp), ("level", e.level), ("logger", e.logger), ("message", e.message),
    ("layer", e.layer), ("operation", e.operation), ("duration_ms", e.duration),
    ("error_code", e.errorCode), ("context", e.context), ("exception", e.exception)]

/-- The event as data. -/
def toValue (e : Event) : Value :=
  .record (e.fields.filter (fun f => !isAbsent f.2))

/-- The event as one line of JSON. -/
def json (e : Event) : String :=
  Json.compact e.toValue

/-- The event with the given fields; the first four are required and no other field is known. -/
def ofValue? (v : Value) : Option Event := do
  let timestamp ← v.get? "timestamp"
  let level ← v.get? "level"
  let logger ← v.get? "logger"
  let message ← v.get? "message"
  let blank : Event := { timestamp, level, logger, message }
  let known := blank.fields.map Prod.fst
  match v with
  | .map entries =>
      if entries.all (fun (k, _) => known.contains k.display) then
        some { blank with
          layer := (v.get? "layer").getD blank.layer
          operation := (v.get? "operation").getD blank.operation
          duration := (v.get? "duration_ms").getD blank.duration
          errorCode := (v.get? "error_code").getD blank.errorCode
          context := (v.get? "context").getD blank.context
          exception := (v.get? "exception").getD blank.exception }
      else none
  | _ => none

end Event

end FlowCheck.Log
