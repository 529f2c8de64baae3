import FlowCheck.UnknownName

/-!
# Levels, layers and formats of the log

A logger belongs to a layer of the tool, passes on what is at least as severe as its level, and writes
either JSON or plain text.
-/

namespace FlowCheck.Log

/-- How severe an event is. -/
inductive Level where
  | debug | info | warning | error | critical
  deriving DecidableEq, Repr

namespace Level

/-- The name of a level. -/
def name : Level → String
  | debug => "debug"
  | info => "info"
  | warning => "warning"
  | error => "error"
  | critical => "critical"

/-- All levels, the least severe first. -/
def all : List Level :=
  [debug, info, warning, error, critical]

/-- The place of a level among all levels. -/
def rank : Level → Nat
  | debug => 0
  | info => 1
  | warning => 2
  | error => 3
  | critical => 4

/-- The level of a name. -/
def ofName? (s : String) : Option Level :=
  all.find? (fun l => l.name == s)

/-- The level that a value names. -/
def ofValue (v : Value) : Except UnknownName Level :=
  v.named "LogLevel" ofName?

end Level

/-- A layer of the tool. -/
inductive Layer where
  | program | jumptable | validator | runtime | vm | config | cli
  deriving DecidableEq, Repr

namespace Layer

/-- The name of a layer. -/
def name : Layer → String
  | program => "program"
  | jumptable => "jumptable"
  | validator => "validator"
  | runtime => "runtime"
  | vm => "vm"
  | config => "config"
  | cli => "cli"

/-- All layers. -/
def all : List Layer :=
  [program, jumptable, validator, runtime, vm, config, cli]

/-- The layer of a name. -/
def ofName? (s : String) : Option Layer :=
  all.find? (fun l => l.name == s)

/-- The layer that a value names. -/
def ofValue (v : Value) : Except UnknownName Layer :=
  v.named "Layer" ofName?

end Layer

/-- How events are written. -/
inductive Format where
  | json | text
  deriving DecidableEq, Repr

/-- The format of a name; every name but that of plain text means JSON. -/
def Format.ofValue : Value → Format
  | .text "text" => text
  | _ => json

end FlowCheck.Log
