import FlowCheck.Decimal.Fixed
import FlowCheck.Log.Event
import FlowCheck.Log.Level
import FlowCheck.Settings.Store
import FlowCheck.Text.Blank
import FlowCheck.Text.Padding

/-!
# Loggers

A logger turns entries into lines.  An entry below the level of the logger gives no line.
-/

namespace FlowCheck.Log

/-- How long something took. -/
inductive Duration where
  /-- A number of milliseconds that the caller gives. -/
  | given (v : Value)
  /-- What the clock measured. -/
  | measured

/-- What the clock says when an entry is written. -/
structure Clock where
  /-- The present time. -/
  timestamp : String
  /-- The measured milliseconds: a number, or a text that is written as it stands. -/
  elapsed : Value

/-- What is to be logged. -/
structure Entry where
  /-- How severe it is. -/
  level : Level
  /-- What happened. -/
  message : String
  /-- The operation it belongs to. -/
  operation : Value := .text ""
  /-- The code of an error. -/
  errorCode : Value := .text ""
  /-- How long it took. -/
  duration : Option Duration := none
  /-- Further data. -/
  context : List (Value × Value) := []
  /-- Whether the exception being handled is added. -/
  withException : Bool := false

namespace Entry

/-- Named arguments of a call that logs. -/
abbrev Keywords := List (Value × Value)

/-- The named argument of a name. -/
def keyword (keywords : Keywords) (name : String) (default : Value) : Value :=
  ((Value.map keywords).get? name).getD default

/-- The named arguments without some names. -/
def without (keywords : Keywords) (names : List String) : Keywords :=
  keywords.filter (fun (k, _) => !names.contains k.display)

/-- Whether one of some names is among the named arguments. -/
def mentions (keywords : Keywords) (names : List String) : Bool :=
  keywords.any (fun (k, _) => names.contains k.display)

/-- The duration that data stands for. -/
def durationOf : Value → Option Duration
  | .null => none
  | v => some (.given v)

/-- The entry of a message with named arguments; none if an argument is given twice. -/
def ofMessage? (level : Level) (message : Value) (keywords : Keywords) : Option Entry :=
  if mentions keywords ["self", "level", "message"] then none
  else some {
    level
    message := message.display
    operation := keyword keywords "operation" (.text "")
    errorCode := keyword keywords "error_code" (.text "")
    duration := durationOf (keyword keywords "duration_ms" .null)
    withException := (keyword keywords "exc_info" (.bool false)).isTruthy
    context := without keywords ["operation", "error_code", "duration_ms", "exc_info"] }

/-- The entry for the end of an operation. -/
def ofOperation (name : Value) (duration : Option Duration) (success : Bool)
    (context : Keywords) : Entry where
  level := if success then .info else .warning
  message := "Operation " ++ name.display ++ (if success then " completed" else " failed")
  operation := name
  duration := duration
  context := context

/-- The entry for the end of an operation with named arguments; none if an argument is given
twice. -/
def ofOperation? (name duration : Value) (keywords : Keywords) : Option Entry :=
  if mentions keywords ["self", "name", "duration_ms", "operation", "level", "message"] then none
  else
    let success := (keyword keywords "success" (.bool true)).isTruthy
    let context := without keywords ["success", "error_code", "exc_info"]
    some { ofOperation name (durationOf duration) success context with
      errorCode := keyword keywords "error_code" (.text "")
      withException := (keyword keywords "exc_info" (.bool false)).isTruthy }

end Entry

/-- A source of log lines. -/
structure Logger where
  /-- Its own name. -/
  name : String
  /-- The layer it belongs to. -/
  layer : Layer
  /-- The least severe level that it writes. -/
  level : Level
  /-- How it writes. -/
  format : Format

namespace Logger

/-- The full name of a logger. -/
def fullName (l : Logger) : String :=
  "safeflow." ++ l.layer.name ++ "." ++ l.name

/-- Whether entries of a level are written. -/
def isEnabledFor (l : Logger) (level : Level) : Bool :=
  l.level.rank ≤ level.rank

/-- Milliseconds with two places; none for what is no number. -/
def milliseconds? : Value → Option String
  | .float x => some (Decimal.Fixed.ofFloat 2 x)
  | v =>
      match v.integer? with
      | none => none
      | some n =>
          let x : Float := OfScientific.ofScientific n.natAbs false 0
          if x.isFinite then some (Decimal.Fixed.ofFloat 2 (if n < 0 then -x else x)) else none

/-- The text of a duration; none for what is no number. -/
def durationText? (clock : Clock) : Duration → Option String
  | .given v => milliseconds? v
  | .measured =>
      match clock.elapsed with
      | .text s => some s
      | v => milliseconds? v

/-- The line of plain text of an entry. -/
def textLine? (l : Logger) (clock : Clock) (e : Entry) : Option String := do
  let duration ← match e.duration with
    | none => some ""
    | some d => (durationText? clock d).map (fun s => " (" ++ s ++ " ms)")
  let pairs := " ".intercalate (e.context.map (fun (k, v) => k.display ++ "=" ++ v.display))
  let line := Text.padEnd 8 e.level.name ++ " [" ++ l.layer.name ++ "] " ++ e.message ++ duration
    ++ " " ++ pairs
  return String.ofList (Text.trimEnd line.toList)

/-- The event of an entry. -/
def event (l : Logger) (clock : Clock) (e : Entry) : Event where
  timestamp := .text clock.timestamp
  level := .text e.level.name
  logger := .text l.fullName
  message := .text e.message
  layer := .text l.layer.name
  operation := e.operation
  duration := match e.duration with
    | none => .null
    | some (.given v) => v
    | some .measured => clock.elapsed
  errorCode := e.errorCode
  context := .map e.context
  exception := if e.withException then .text "NoneType: None\n" else .null

/-- The text that an entry gives. -/
def write (l : Logger) (clock : Clock) (e : Entry) : String :=
  if l.isEnabledFor e.level then
    match l.format with
    | .json => (l.event clock e).json ++ "\n"
    | .text =>
        match l.textLine? clock e with
        | some line => line ++ "\n"
        | none => ""
  else ""

/-- The text that entries give. -/
def writeAll (l : Logger) (clock : Clock) (entries : List Entry) : String :=
  String.join (entries.map (l.write clock))

/-- Why a logger cannot be made from the settings. -/
inductive SetupError where
  /-- A setting cannot be read. -/
  | numeral (error : Text.Numeral.Error)
  /-- A name outside its family. -/
  | unknown (error : UnknownName)

/-- The wording of a setup error. -/
def SetupError.message : SetupError → String
  | numeral e => e.message
  | unknown e => e.message

/-- The level that the settings give. -/
def configuredLevel (store : Store) (env : Environment) : Except SetupError Level :=
  match store.read env .logLevel with
  | .error e => .error (.numeral e)
  | .ok v =>
      match Level.ofValue v with
      | .error e => .error (.unknown e)
      | .ok level => .ok level

/-- The format that the settings give. -/
def configuredFormat (store : Store) (env : Environment) : Except SetupError Format :=
  match store.read env .logFormat with
  | .error e => .error (.numeral e)
  | .ok v => .ok (Format.ofValue v)

/-- A logger; what is not given comes from the settings.  An empty format counts as not given, but
only if the level is not given either. -/
def make (store : Store) (env : Environment) (name : String) (layer : Layer)
    (level : Option Level) (format : Option Value) : Except SetupError Logger := do
  match level, format with
  | some level, some format => return ⟨name, layer, level, Format.ofValue format⟩
  | _, _ =>
      let level ← match level with
        | some level => pure level
        | none => configuredLevel store env
      let format ← match format.filter Value.isTruthy with
        | some format => pure (Format.ofValue format)
        | none => configuredFormat store env
      return ⟨name, layer, level, format⟩

end Logger

end FlowCheck.Log
