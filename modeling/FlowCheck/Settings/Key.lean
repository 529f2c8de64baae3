import FlowCheck.Settings.Setting

/-!
# The settings of the program

Eight settings in three sections, with their defaults, environment variables and checks.
-/

namespace FlowCheck

/-- A section of the settings. -/
inductive Section where
  | validator | runtime | observability
  deriving DecidableEq

/-- A setting. -/
inductive Key where
  | stackLimit | stepCeilingFactor | subroutineOperand
  | returnStackLimit | dataStackLimit | maxSteps
  | logLevel | logFormat
  deriving DecidableEq

namespace Section

/-- The name of a section. -/
def name : Section → String
  | validator => "validator"
  | runtime => "runtime"
  | observability => "observability"

/-- The sections in order. -/
def all : List Section := [validator, runtime, observability]

/-- The settings of a section, in order. -/
def keys : Section → List Key
  | validator => [.stackLimit, .stepCeilingFactor, .subroutineOperand]
  | runtime => [.returnStackLimit, .dataStackLimit, .maxSteps]
  | observability => [.logLevel, .logFormat]

/-- The section of a name. -/
def ofName? (s : String) : Option Section :=
  all.find? (fun x => x.name == s)

end Section

namespace Key

/-- The name of a setting within its section. -/
def name : Key → String
  | stackLimit => "stack_limit"
  | stepCeilingFactor => "step_ceiling_factor"
  | subroutineOperand => "subroutine_operand"
  | returnStackLimit => "return_stack_limit"
  | dataStackLimit => "data_stack_limit"
  | maxSteps => "max_steps"
  | logLevel => "log_level"
  | logFormat => "log_format"

/-- The setting of a name within a section. -/
def ofName? (x : Section) (s : String) : Option Key :=
  x.keys.find? (fun k => k.name == s)

/-- Texts as choices. -/
def texts (choices : List String) : Check :=
  .oneOf (choices.map Value.text)

/-- What each setting is. -/
def setting : Key → Setting
  | stackLimit =>
      { default := .int 1024
        envName := some "SAFEFLOW_STACK_LIMIT"
        description := "Maximum operand stack depth"
        check := .positive (some 4096) }
  | stepCeilingFactor =>
      { default := .int 64
        envName := some "SAFEFLOW_STEP_CEILING_FACTOR"
        description := "Traversal steps allowed per code byte and table entry"
        check := .positive none }
  | subroutineOperand =>
      { default := .text "immediate"
        envName := some "SAFEFLOW_SUBROUTINE_OPERAND"
        description := "JUMPSUB destination source (immediate, stack)"
        check := texts ["immediate", "stack"] }
  | returnStackLimit =>
      { default := .int 1024
        envName := some "SAFEFLOW_RETURN_STACK_LIMIT"
        description := "Maximum return stack depth"
        check := .positive (some 4096) }
  | dataStackLimit =>
      { default := .int 1024
        envName := some "SAFEFLOW_DATA_STACK_LIMIT"
        description := "Maximum data stack depth in the host interpreter"
        check := .positive (some 4096) }
  | maxSteps =>
      { default := .int 1000000
        envName := some "SAFEFLOW_MAX_STEPS"
        description := "Instruction budget for a single execution"
        check := .positive none }
  | logLevel =>
      { default := .text "warning"
        envName := some "SAFEFLOW_LOG_LEVEL"
        description := "Log level (debug, info, warning, error)"
        check := texts ["debug", "info", "warning", "error", "critical"] }
  | logFormat =>
      { default := .text "json"
        envName := some "SAFEFLOW_LOG_FORMAT"
        description := "Log format (json, text)"
        check := texts ["json", "text"] }

end Key

end FlowCheck
