import FlowCheck.Assembler.Listing
import FlowCheck.Catalog
import FlowCheck.Command.Invocation
import FlowCheck.Command.Session

/-!
# Performing commands

Every command yields a result to print and an exit code.  Zero means success, one a refused input, two
code that the validator rejects, three a fault or a revert.
-/

namespace FlowCheck.Command

/-- The exit code for code that the validator rejects. -/
def exitRejected : Nat := 2

/-- The exit code for a run that does not succeed. -/
def exitFault : Nat := 3

/-- The result of a command. -/
structure Result where
  /-- What is printed. -/
  value : Value
  /-- The exit code. -/
  code : Nat := 0

/-- Validates code. -/
def validateCode (bytes : Array UInt8) (table : Option String) (mode : Option OperandMode) :
    Action Result := do
  let mode ← modeOr mode
  let program ← programOf mode bytes
  let table ← loadTable table
  let report ← validateProgram program table
  return {
    value := .record (report.verdict.toEntries ++
      [("operand", .text mode.name), ("code_size", .nat program.length),
        ("subroutines", .list (report.subroutines.map (fun s => .record s.toEntries)))])
    code := if report.verdict.isAccepted then 0 else exitRejected }

/-- Validates the code of an argument. -/
def performValidate (code : String) (table : Option String) (mode : Option OperandMode) :
    Action Result := do
  validateCode (← loadCode code) table mode

/-- Validates code unless it is to run unchecked. -/
def checkedProgram (mode : OperandMode) (bytes : Array UInt8) (table : Option JumpTable) :
    Action Program := do
  let program ← programOf mode bytes
  let report ← validateProgram program table
  match report.verdict.refusal? with
  | some message => throw (.rejected message)
  | none => return program

/-- Executes code on a machine. -/
def runCode (machine : Deployment) (bytes : Array UInt8) (table : Option String) (calldata : String)
    (maxSteps : Option Int) (unchecked : Bool) : Action Result := do
  let table ← loadTable table
  let checked ← if unchecked then pure none
    else some <$> checkedProgram machine.mode bytes table
  let input ← orFail ((CodeInput.text calldata).code "calldata") Failure.input
  let program ← match checked with
    | some program => pure program
    | none => programOf machine.mode bytes
  let budget := match maxSteps with
    | some n => Amount.whole n
    | none => machine.maxSteps
  let outcome := Machine.run (machine.host program (table.getD .empty) input) budget
  logAll "vm" .vm [outcome.logEntry]
  return {
    value := .record outcome.toEntries
    code := if outcome.isSuccess then 0 else exitFault }

/-- Executes the code of an argument. -/
def performRun (code : String) (table : Option String) (calldata : String) (maxSteps : Option Int)
    (unchecked : Bool) (mode : Option OperandMode) : Action Result := do
  let s ← get
  let machine ← orFail (s.manager.store.deployment s.env { mode }) Failure.mode
  runCode machine (← loadCode code) table calldata maxSteps unchecked

/-- The text to assemble: the standard input for a dash, else a file. -/
def sourceText (stdin input : String) : Action String := do
  if input == "-" then return stdin
  let s ← get
  let bytes ← orFail (s.files.read (FilePath.ofText input)) Failure.file
  match textOfBytes? bytes with
  | some text => return text
  | none => throw .notText

/-- Assembles a text. -/
def performAssemble (stdin input : String) (output : Option String) (mode : Option OperandMode) :
    Action Result := do
  let source ← sourceText stdin input
  let mode ← modeOr mode
  let items ← orFail (Assembler.parse source) Failure.assembly
  let code ← orFail (Assembler.assemble mode items) Failure.assembly
  match output.filter (fun s => !s.isEmpty) with
  | none => pure ()
  | some path =>
      let s ← get
      let files ← orFail (s.files.write (FilePath.ofText path) code.toArray) Failure.file
      set { s with files }
  return {
    value := .record [("bytecode", .text ("0x" ++ Text.Hex.ofBytes code)),
      ("size", .nat code.length), ("operand", .text mode.name)] }

/-- A line of a listing as text. -/
def listingText (l : Assembler.ListingLine) : String :=
  Text.Hex.padded 4 l.offset ++ ": " ++ l.mnemonic ++
    match l.immediate with
    | some n => " 0x" ++ Text.Hex.ofNat n
    | none => ""

/-- Lists the instructions of code. -/
def listCode (mode : OperandMode) (bytes : Array UInt8) : Action Result := do
  let program ← programOf mode bytes
  let listing := Assembler.disassemble program
  return {
    value := .record
      [("instructions", .list (listing.map (fun l => .record
          [("offset", .nat l.offset), ("mnemonic", .text l.mnemonic),
            ("immediate", Value.ofOption Value.nat l.immediate)]))),
        ("listing", .list (listing.map (fun l => .text (listingText l))))] }

/-- Lists the instructions of the code of an argument. -/
def performDisassemble (code : String) (mode : Option OperandMode) : Action Result := do
  let mode ← modeOr mode
  listCode mode (← loadCode code)

/-- What a path of settings leads to, as data; a section is none. -/
def settingAt (path : String) : Action Value := do
  let s ← get
  match ← orFail (s.manager.getPath s.env path) Failure.config with
  | .property v => return v
  | .setting _ => return .null
  | .part _ | .whole => return .object "section"

/-- Performs a task. -/
def perform (stdin : String) : Task → Action Result
  | .validate code table mode => performValidate code table mode
  | .run code table calldata maxSteps unchecked mode =>
      performRun code table calldata maxSteps unchecked mode
  | .assemble input output mode => performAssemble stdin input output mode
  | .disassemble code mode => performDisassemble code mode
  | .getSetting path => do
      return { value := .record [("path", .text path), ("value", ← settingAt path)] }
  | .setSetting path value => do
      let s ← get
      withManager (Manager.setPath s.env path (.text value))
      return {
        value := .record [("path", .text path), ("value", ← settingAt path),
          ("status", .text "updated")] }
  | .showSettings => do
      let s ← get
      return { value := ← orFail (s.manager.store.report s.env) (fun e => .config (.numeral e)) }
  | .checkSettings => do
      let s ← get
      let problems := s.manager.store.problems s.env
      return {
        value := .record [("valid", .bool problems.isEmpty),
          ("errors", .list (problems.map Value.text))] }
  | .describeSettings => return { value := schema }
  | .incomplete name => throw (.unknownCommand name)

/-- Loads the settings that an invocation asks for and sets the log up. -/
def prepare (i : Invocation) : Action Unit := do
  let s ← get
  match i.settings.filter (fun p => !p.isEmpty) with
  | some path => withManager (Manager.loadFile s.reader s.files (FilePath.ofText path))
  | none => let _ ← withManager (Manager.loadDefaults s.reader s.files s.home)
  match i.level with
  | some level => withManager (Manager.setPath s.env "observability.log_level" (.text level))
  | none => pure ()
  let s ← get
  let format ← orFail (Log.Logger.configuredFormat s.manager.store s.env) Failure.log
  let level ← orFail (Log.Logger.configuredLevel s.manager.store s.env) Failure.log
  set { s with level, format }

/-- The wording of a failure. -/
def Failure.message : Failure → String
  | input e => e.message
  | table e => e.message
  | config fault => fault.message
  | assembly e => e.message
  | file fault => fault.message
  | rejected message => message
  | tableNotFound path => "Jump table file not found: " ++ path
  | tableMalformed path => "Malformed jump table document " ++ path ++ ": <yaml>"
  | document fault => fault.message
  | unknownCommand name => "Unknown command: " ++ name ++ " "
  | mode e => e.message
  | log e => e.message
  | output _ => "result cannot be printed in this format"
  | notText => "file is not text"
  | uncountable => "limit is no number of items"

/-- What a failure is reported as: a message and an exit code; none for a failure that ends the tool
without a report. -/
def Failure.report? (f : Failure) : Option (String × Nat) :=
  match f with
  | rejected message => some (message, exitRejected)
  | table .unprintable => none
  | input _ | table _ | assembly _ | tableNotFound _ | tableMalformed _ | unknownCommand _ =>
      some (f.message, 1)
  | file .nullCharacter | config (.file .nullCharacter) => none
  | file _ | config (.file _) => some (f.message, 1)
  | config (.setting (.invalid _)) | config (.invalidPath _) | config (.unknownKey _)
  | config (.unknownPoints _ _) | config (.notMapping _) | config (.fileNotFound _)
  | config (.malformed _) | config (.fileNotMapping _) => some (f.message, 1)
  | config _ | document _ | mode _ | log _ | output _ | notText | uncountable => none

/-- How a command line ends. -/
inductive Ending where
  /-- With an exit code. -/
  | exit (code : Nat)
  /-- With arguments that do not fit the grammar. -/
  | usage
  /-- With help. -/
  | help
  /-- With a failure that is not reported. -/
  | broken (failure : Failure)

/-- What a command line leaves behind. -/
structure Transcript where
  /-- How it ended. -/
  ending : Ending
  /-- What was printed. -/
  stdout : String := ""
  /-- What was logged, and by which logger. -/
  logged : List (Log.Logger × Log.Entry) := []
  /-- What was reported behind the log. -/
  report : String := ""

/-- The text of the error stream: the log, then the report. -/
def Transcript.stderr (t : Transcript) (clock : Log.Clock) : String :=
  String.join (t.logged.map (fun (logger, e) => logger.write clock e)) ++ t.report

/-- Performs the task of an invocation and renders its result. -/
def performInvocation (stdin : String) (i : Invocation) (task : Task) : Action (String × Nat) := do
  prepare i
  let result ← perform stdin task
  let text ← orFail (i.format.render result.value) Failure.output
  return (text, result.code)

/-- Carries out a command line on a session. -/
def execute (s : Session) (stdin : String) (args : List String) : Transcript × Session :=
  match Invocation.ofArguments args with
  | .error .usage => ({ ending := .usage }, s)
  | .error .help => ({ ending := .help }, s)
  | .error .version => ({ ending := .exit 0, stdout := "safeflow " ++ version ++ "\n" }, s)
  | .ok i =>
      match i.task with
      | none => ({ ending := .help }, s)
      | some task =>
          match (performInvocation stdin i task).run { s with logged := [] } with
          | .ok (text, code) s' =>
              ({ ending := .exit code, stdout := text ++ "\n", logged := s'.logged }, s')
          | .error failure s' =>
              match failure.report? with
              | none => ({ ending := .broken failure, logged := s'.logged }, s')
              | some (message, code) =>
                  let report := if i.quiet then "" else "Error: " ++ message ++ "\n"
                  ({ ending := .exit code, logged := s'.logged, report }, s')

end FlowCheck.Command
