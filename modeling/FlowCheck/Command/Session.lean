import FlowCheck.Assembler.Source
import FlowCheck.Deployment
import FlowCheck.Input
import FlowCheck.JumpTable.Document
import FlowCheck.Log.Activity
import FlowCheck.Output
import FlowCheck.Settings.Manager

/-!
# Sessions

What commands work on: the environment, the files, the settings and the log.  An action on a session
may fail; what it changed and logged before stays.
-/

namespace FlowCheck.Command

/-- Why a command fails. -/
inductive Failure where
  /-- An input is refused. -/
  | input (error : InputError)
  /-- A table is refused. -/
  | table (error : TableError)
  /-- Settings cannot be read or changed. -/
  | config (fault : ConfigFault)
  /-- A text cannot be assembled. -/
  | assembly (error : Assembler.Error)
  /-- A file cannot be read or written. -/
  | file (fault : FileFault)
  /-- The validator refuses the code. -/
  | rejected (message : String)
  /-- There is no table file. -/
  | tableNotFound (path : String)
  /-- A table file cannot be read as a document. -/
  | tableMalformed (path : String)
  /-- A table file holds a document without a value. -/
  | document (fault : Yaml.Fault)
  /-- There is no such command. -/
  | unknownCommand (name : String)
  /-- A setting names no operand mode, or cannot be read. -/
  | mode (error : Store.ModeError)
  /-- A setting names no log level, or cannot be read. -/
  | log (error : Log.Logger.SetupError)
  /-- A result cannot be printed. -/
  | output (error : OutputError)
  /-- A file is not text. -/
  | notText
  /-- A limit is no number of items. -/
  | uncountable

/-- The state of a session. -/
structure Session where
  /-- The environment variables. -/
  env : Environment := []
  /-- The home directory. -/
  home : String := ""
  /-- The files. -/
  files : Files := {}
  /-- How documents are read. -/
  reader : Yaml.Reader := Yaml.read
  /-- The settings. -/
  manager : Manager := {}
  /-- The level of the log. -/
  level : Log.Level := .warning
  /-- The format of the log. -/
  format : Log.Format := .json
  /-- What has been logged, and by which logger. -/
  logged : List (Log.Logger × Log.Entry) := []

/-- An action on a session. -/
abbrev Action (α : Type) := EStateM Failure Session α

/-- The value of a result, with its error as a failure. -/
def orFail (x : Except ε α) (failure : ε → Failure) : Action α :=
  match x with
  | .ok a => return a
  | .error e => throw (failure e)

/-- A change of the settings as an action on the session. -/
def withManager (action : Manager.Action α) : Action α := do
  let s ← get
  match action.run s.manager with
  | .ok a m =>
      set { s with manager := m }
      return a
  | .error e m =>
      set { s with manager := m }
      throw (.config e)

/-- Logs entries under the name of a logger. -/
def logAll (name : String) (layer : Log.Layer) (entries : List Log.Entry) : Action Unit :=
  modify (fun s =>
    let logger : Log.Logger := ⟨name, layer, s.level, s.format⟩
    { s with logged := s.logged ++ entries.map (fun e => (logger, e)) })

/-- Runs an action and logs whether it succeeded. -/
def timed (operation : String) (action : Action α) : Action α := do
  let entry (success : Bool) : Log.Entry :=
    Log.Entry.ofOperation (.text operation) (some .measured) success []
  try
    let a ← action
    logAll "cli" .cli [entry true]
    return a
  catch e =>
    logAll "cli" .cli [entry false]
    throw e

/-- The code of an argument: the content of a file, which is hexadecimal text or raw bytes, or else the
argument itself as hexadecimal text. -/
def loadCode (argument : String) : Action (Array UInt8) := do
  let s ← get
  match ← orFail (s.files.file? (FilePath.ofText argument)) Failure.file with
  | none => orFail ((CodeInput.text argument).code "code") Failure.input
  | some bytes =>
      if bytes.all (· < 128) then
        let text := String.ofList (bytes.toList.map (fun b => Char.ofNat b.toNat))
        if (CodeInput.hexBytes? text.toList).isSome then
          orFail ((CodeInput.text text).code "code") Failure.input
        else return bytes
      else return bytes

/-- The table of an argument: binary records or a document, by the extension of the file. -/
def readTable (argument : String) : Action JumpTable := do
  let s ← get
  let path := FilePath.ofText argument
  match ← orFail (s.files.file? path) Failure.file with
  | none => throw (.tableNotFound argument)
  | some bytes =>
      if path.extension == ".bin" then orFail (JumpTable.decode bytes.toList) Failure.table
      else
        match textOfBytes? bytes with
        | none => throw .notText
        | some text =>
            match s.reader text with
            | .error (.malformed _) => throw (.tableMalformed argument)
            | .error fault => throw (.document fault)
            | .ok .null => return .empty
            | .ok document => orFail (JumpTable.ofDocument document) Failure.table

/-- The table of an optional argument; an empty argument counts as none. -/
def loadTable (argument : Option String) : Action (Option JumpTable) :=
  timed "load_jumptable" (do
    match argument.filter (fun s => !s.isEmpty) with
    | none => return none
    | some s => return some (← readTable s))

/-- The operand mode that is given or configured. -/
def modeOr (given : Option OperandMode) : Action OperandMode := do
  let s ← get
  orFail (s.manager.store.modeOr s.env given) Failure.mode

/-- The program of code. -/
def programOf (mode : OperandMode) (code : Array UInt8) : Action Program := do
  return Program.ofCode mode (← orFail ((CodeInput.bytes code).code "code") Failure.input)

/-- Validates a program and logs it. -/
def validateProgram (program : Program) (table : Option JumpTable) : Action Validator.Report := do
  let s ← get
  let job ← orFail (s.manager.store.job s.env program (table.getD .empty) none none)
    (fun e => .config (.numeral e))
  match Validator.validate job with
  | .error _ => throw .uncountable
  | .ok report =>
      logAll "validator" .validator (report.logEntries job)
      return report

end FlowCheck.Command
