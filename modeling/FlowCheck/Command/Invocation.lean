import FlowCheck.Command.Arguments
import FlowCheck.InstructionSet
import FlowCheck.Log.Level
import FlowCheck.Output

/-!
# Invocations

The commands of the tool, the grammar of its command line, and what a command line asks for.
-/

namespace FlowCheck.Command

/-- What is to be done. -/
inductive Task where
  /-- Validate code against a table. -/
  | validate (code : String) (table : Option String) (mode : Option OperandMode)
  /-- Execute code. -/
  | run (code : String) (table : Option String) (calldata : String) (maxSteps : Option Int)
      (unchecked : Bool) (mode : Option OperandMode)
  /-- Assemble a text. -/
  | assemble (input : String) (output : Option String) (mode : Option OperandMode)
  /-- List the instructions of code. -/
  | disassemble (code : String) (mode : Option OperandMode)
  /-- Show one setting. -/
  | getSetting (path : String)
  /-- Change one setting. -/
  | setSetting (path value : String)
  /-- Show all settings. -/
  | showSettings
  /-- Check all settings. -/
  | checkSettings
  /-- Describe all settings. -/
  | describeSettings
  /-- A command that needs another one behind it. -/
  | incomplete (name : String)

/-- What a command line asks for. -/
structure Invocation where
  /-- How results are printed. -/
  format : OutputFormat := .json
  /-- The file that settings are read from. -/
  settings : Option String := none
  /-- The level of the log. -/
  level : Option String := none
  /-- Whether errors are kept silent. -/
  quiet : Bool := false
  /-- What is to be done. -/
  task : Option Task

/-- The option that asks for help. -/
def helpOption : OptionSpec :=
  ⟨["-h", "--help"], .help, "help"⟩

/-- The option for the operand mode. -/
def operandOption : OptionSpec :=
  ⟨["--operand", "-o"], .value (.oneOf ["immediate", "stack"]), "operand"⟩

/-- The option for the jump table. -/
def tableOption : OptionSpec :=
  ⟨["--jumptable", "-j"], .value .text, "jumptable"⟩

/-- The grammar of a command with options and operands. -/
def leaf (options : List OptionSpec) (operands : List String) : Grammar :=
  .node (helpOption :: options) operands []

/-- The grammar of the settings commands. -/
def settingsGrammar : Grammar :=
  .node [helpOption] []
    [("get", leaf [] ["path"]), ("set", leaf [] ["path", "value"]), ("show", leaf [] []),
      ("validate", leaf [] []), ("schema", leaf [] [])]

/-- The grammar of the command line. -/
def grammar : Grammar :=
  .node
    [helpOption,
      ⟨["--version", "-V"], .version, "version"⟩,
      ⟨["--format", "-f"], .value (.oneOf (OutputFormat.all.map OutputFormat.name)), "format"⟩,
      ⟨["--config", "-c"], .value .text, "config"⟩,
      ⟨["--log-level"], .value (.oneOf ["debug", "info", "warning", "error"]), "level"⟩,
      ⟨["--quiet", "-q"], .flag, "quiet"⟩]
    []
    [("validate", leaf [tableOption, operandOption] ["code"]),
      ("run", leaf
        [tableOption,
          ⟨["--calldata", "-d"], .value .text, "calldata"⟩,
          ⟨["--max-steps", "-s"], .value .integer, "steps"⟩,
          ⟨["--no-validate"], .flag, "unchecked"⟩,
          operandOption]
        ["code"]),
      ("assemble", leaf [⟨["--output"], .value .text, "output"⟩, operandOption] ["input"]),
      ("disassemble", leaf [operandOption] ["code"]),
      ("config", settingsGrammar)]

/-- The integer of a text that reads as one. -/
def integerOf (s : String) : Option Int :=
  match Text.Numeral.decimal s with
  | .ok n => some n
  | .error _ => none

/-- The task that arguments ask for. -/
def taskOf (a : Arguments) : Option Task :=
  let code := a.getD "code" ""
  let table := a.get? "jumptable"
  let mode := (a.get? "operand").bind OperandMode.ofName?
  match a.path with
  | ["validate"] => some (.validate code table mode)
  | ["run"] =>
      some (.run code table (a.getD "calldata" "") ((a.get? "steps").bind integerOf)
        (a.has "unchecked") mode)
  | ["assemble"] => some (.assemble (a.getD "input" "") (a.get? "output") mode)
  | ["disassemble"] => some (.disassemble code mode)
  | ["config", "get"] => some (.getSetting (a.getD "path" ""))
  | ["config", "set"] => some (.setSetting (a.getD "path" "") (a.getD "value" ""))
  | ["config", "show"] => some .showSettings
  | ["config", "validate"] => some .checkSettings
  | ["config", "schema"] => some .describeSettings
  | [name] => some (.incomplete name)
  | _ => none

/-- What a command line asks for. -/
def Invocation.ofArguments (args : List String) : Except Stop Invocation :=
  match grammar.read args with
  | .error e => .error e
  | .ok a =>
      .ok {
        format := ((a.get? "format").bind OutputFormat.ofName?).getD .json
        settings := a.get? "config"
        level := a.get? "level"
        quiet := a.has "quiet"
        task := taskOf a }

/-- The files that a task may read, as its arguments name them. -/
def Task.reads : Task → List String
  | .validate code table _ | .run code table _ _ _ _ => code :: table.toList
  | .assemble input output _ => input :: output.toList
  | .disassemble code _ => [code]
  | _ => []

/-- The file that a task writes, as its arguments name it. -/
def Task.writes? : Task → Option String
  | .assemble _ output _ => output
  | _ => none

/-- The files that an invocation may read, as its arguments name them. -/
def Invocation.reads (i : Invocation) : List String :=
  i.settings.toList ++ (i.task.map Task.reads).getD []

/-- The file that an invocation writes, as its arguments name it. -/
def Invocation.writes? (i : Invocation) : Option String :=
  i.task.bind Task.writes?

end FlowCheck.Command
