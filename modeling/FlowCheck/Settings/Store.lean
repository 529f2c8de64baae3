import FlowCheck.InstructionSet
import FlowCheck.Settings.Key
import FlowCheck.UnknownName

/-!
# Stored settings

What has been set, and what is in effect once the environment is taken into account: the report of
all settings, the check of all settings and their description.
-/

namespace FlowCheck

/-- What has been set; null stands for nothing. -/
structure Store where
  /-- The value set for each setting. -/
  stored : Key → Value := fun _ => .null

namespace Store

/-- The store with one setting changed. -/
def put (s : Store) (k : Key) (v : Value) : Store :=
  ⟨fun k' => if k' = k then v else s.stored k'⟩

/-- The effective value of a setting. -/
def read (s : Store) (env : Environment) (k : Key) : Except Text.Numeral.Error Value :=
  k.setting.read env (s.stored k)

/-- The effective value of a setting that is an amount. -/
def amount (s : Store) (env : Environment) (k : Key) : Except Text.Numeral.Error Amount :=
  (s.read env k).map (fun v => v.amount?.getD (.whole 0))

/-- Why a configured operand mode cannot be used. -/
inductive ModeError where
  /-- The text cannot be read. -/
  | numeral (error : Text.Numeral.Error)
  /-- The text names no mode. -/
  | unknown (error : UnknownName)

/-- The wording of a mode error. -/
def ModeError.message : ModeError → String
  | numeral e => e.message
  | unknown e => e.message

/-- The mode of a name. -/
def modeOf (v : Value) : Except UnknownName OperandMode :=
  v.named "SubroutineOperand" OperandMode.ofName?

/-- The configured operand mode. -/
def mode (s : Store) (env : Environment) : Except ModeError OperandMode :=
  match s.read env .subroutineOperand with
  | .error e => .error (.numeral e)
  | .ok v =>
      match modeOf v with
      | .error e => .error (.unknown e)
      | .ok m => .ok m

/-- The effective values of a section. -/
def sectionReport (s : Store) (env : Environment) (x : Section) :
    Except Text.Numeral.Error Value := do
  let entries ← x.keys.mapM (fun k => do
    let v ← s.read env k
    return (k.name, v))
  return .record entries

/-- The effective values of all settings. -/
def report (s : Store) (env : Environment) : Except Text.Numeral.Error Value := do
  let entries ← Section.all.mapM (fun x => do
    let v ← s.sectionReport env x
    return (x.name, v))
  return .record entries

/-- What is wrong with the effective value of a setting, if anything. -/
def problem? (s : Store) (env : Environment) (x : Section) (k : Key) : Option String :=
  let path := x.name ++ "." ++ k.name
  match s.read env k with
  | .error e => some (path ++ ": " ++ e.message)
  | .ok v =>
      if k.setting.check.passes? v == some false then
        some (path ++ ": validation failed for value " ++ v.display)
      else none

/-- What is wrong with the effective values, in order. -/
def problems (s : Store) (env : Environment) : List String :=
  Section.all.flatMap (fun x => x.keys.filterMap (s.problem? env x))

end Store

/-- The description of a setting. -/
def Key.schema (k : Key) : Value :=
  let x := k.setting
  .record ([("type", .text x.default.kindName), ("default", .text x.default.display),
    ("description", .text x.description)] ++
      match x.envName with
      | some name => [("env_var", .text name)]
      | none => [])

/-- The description of all settings. -/
def schema : Value :=
  .record [("properties", .record (Section.all.map (fun x =>
    (x.name, .record (x.keys.map (fun k => (k.name, k.schema)))))))]

end FlowCheck
