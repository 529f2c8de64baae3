import FlowCheck.Machine.Run
import FlowCheck.Settings.Store
import FlowCheck.Validator.Report

/-!
# Validating and running under settings

What a caller leaves open is taken from the settings: the operand mode, the limits and the step
budget.
-/

namespace FlowCheck

/-- The settings of a machine. -/
structure Deployment where
  /-- Where calls take their target from. -/
  mode : OperandMode
  /-- The greatest height of the data stack. -/
  stackLimit : Amount
  /-- The greatest height of the return stack. -/
  returnLimit : Amount
  /-- The step budget of a run. -/
  maxSteps : Amount

/-- What a caller fixes itself. -/
structure Overrides where
  /-- Where calls take their target from. -/
  mode : Option OperandMode := none
  /-- The greatest height of the data stack. -/
  stackLimit : Option Amount := none
  /-- The greatest height of the return stack. -/
  returnLimit : Option Amount := none
  /-- The step budget of a run. -/
  maxSteps : Option Amount := none

namespace Store

/-- The given amount, or the effective one of a setting. -/
def amountOr (s : Store) (env : Environment) (given : Option Amount) (k : Key) :
    Except Text.Numeral.Error Amount :=
  match given with
  | some a => .ok a
  | none => s.amount env k

/-- The given mode, or the configured one. -/
def modeOr (s : Store) (env : Environment) (given : Option OperandMode) :
    Except ModeError OperandMode :=
  match given with
  | some m => .ok m
  | none => s.mode env

/-- The settings of a machine, those of the caller first. -/
def deployment (s : Store) (env : Environment) (o : Overrides) : Except ModeError Deployment := do
  let amount (given : Option Amount) (k : Key) : Except ModeError Amount :=
    match s.amountOr env given k with
    | .error e => .error (.numeral e)
    | .ok a => .ok a
  let mode ← s.modeOr env o.mode
  let stackLimit ← amount o.stackLimit .dataStackLimit
  let returnLimit ← amount o.returnLimit .returnStackLimit
  let maxSteps ← amount o.maxSteps .maxSteps
  return { mode, stackLimit, returnLimit, maxSteps }

/-- The job of validating a program; limit and factor come from the settings if not given. -/
def job (s : Store) (env : Environment) (program : Program) (table : JumpTable)
    (limit factor : Option Amount) : Except Text.Numeral.Error Validator.Job := do
  let limit ← s.amountOr env limit .stackLimit
  let factor ← s.amountOr env factor .stepCeilingFactor
  return Validator.Job.make program table limit factor

end Store

/-- The host of a run. -/
def Deployment.host (d : Deployment) (program : Program) (table : JumpTable)
    (calldata : Array UInt8) : Machine.Host where
  program := program
  table := table
  stackLimit := d.stackLimit
  returnLimit := d.returnLimit
  calldata := calldata

end FlowCheck
