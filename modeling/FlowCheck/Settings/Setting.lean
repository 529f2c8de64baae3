import FlowCheck.Decimal.Amount
import FlowCheck.Text.Numeral
import FlowCheck.Value.Compare

/-!
# Settings

A setting has a default, an optional environment variable and a check.  Text is read as the kind of
the default: truth values by a list of words, integers as decimal numerals.  The environment wins
over what was set, and what was set wins over the default.
-/

namespace FlowCheck

/-- Environment variables, by name. -/
abbrev Environment := List (String × String)

/-- The environment with a variable set, or removed if there is no value. -/
def Environment.put (env : Environment) (name : String) (value : Option String) : Environment :=
  env.filter (fun (k, _) => k != name) ++ (value.map (fun v => (name, v))).toList

/-- Which values a setting takes. -/
inductive Check where
  /-- Every value. -/
  | any
  /-- Values at or above the first and at or below the second. -/
  | between (low high : Value)
  /-- Values above zero, up to a greatest one if it is given. -/
  | positive (high : Option Nat)
  /-- The listed values. -/
  | oneOf (choices : List Value)

namespace Check

/-- Whether a value is below, equal to or above another; nothing if the two have no order. -/
def holds? (test : Ordering → Bool) (v w : Value) : Option Bool :=
  (v.order? w).map (fun o => o.any test)

/-- Whether a value passes; nothing if the check cannot compare it. -/
def passes? : Check → Value → Option Bool
  | any, _ => some true
  | between low high, v =>
      match holds? Ordering.isLE low v with
      | some true => holds? Ordering.isLE v high
      | other => other
  | positive high, v =>
      match holds? Ordering.isLT (.int 0) v, high with
      | some true, some n => holds? Ordering.isLE v (.nat n)
      | other, _ => other
  | oneOf choices, v => some (choices.any (fun c => v.same c))

end Check

/-- Why a value is not taken. -/
inductive SettingFault where
  /-- The value does not pass the check, or the text does not read as the wanted kind. -/
  | invalid (value : Value)
  /-- The value holds a number too long to be named in the message. -/
  | unprintable
  /-- The check cannot compare the value. -/
  | unorderable

/-- One setting. -/
structure Setting where
  /-- The value without any other. -/
  default : Value
  /-- The environment variable that overrides everything. -/
  envName : Option String := none
  /-- What the setting is for. -/
  description : String := ""
  /-- Which values it takes. -/
  check : Check := .any

namespace Setting

/-- The words for true. -/
def trueWords : List String := ["true", "1", "yes", "on"]

/-- Reads text as the kind of the default. -/
def coerce (s : Setting) (text : String) : Except Text.Numeral.Error Value :=
  match s.default with
  | .bool _ => .ok (.bool (trueWords.contains text.toLower))
  | .int _ => (Text.Numeral.decimal text).map Value.int
  | _ => .ok (.text text)

/-- The text of the environment variable, if there is one. -/
def override? (s : Setting) (env : Environment) : Option String :=
  match s.envName with
  | some name => if name.isEmpty then none else env.lookup name
  | none => none

/-- The effective value, given what was set; null stands for nothing set. -/
def read (s : Setting) (env : Environment) (stored : Value) : Except Text.Numeral.Error Value :=
  match s.override? env with
  | some text => s.coerce text
  | none =>
      match stored with
      | .null => .ok s.default
      | v => .ok v

/-- The refusal of a value. -/
def refuse (v : Value) : SettingFault :=
  if v.isPrintable then .invalid v else .unprintable

/-- The value to store for a given one. -/
def accept (s : Setting) (v : Value) : Except SettingFault Value :=
  let read : Except SettingFault Value :=
    match v, s.default with
    | .text _, .text _ => .ok v
    | .codes _, .int _ => .error (.invalid v)
    | .codes _, .bool _ => .ok (.bool false)
    | .text t, _ =>
        match s.coerce t with
        | .ok w => .ok w
        | .error _ => .error (.invalid v)
    | _, _ => .ok v
  match read with
  | .error e => .error e
  | .ok w =>
      match s.check.passes? w with
      | none => .error .unorderable
      | some true => .ok w
      | some false => .error (refuse w)

end Setting

/-- The amount that a value stands for. -/
def Value.amount? : Value → Option Amount
  | .int n => some (.whole n)
  | .bool b => some (.flag b)
  | .float x => some (.real x)
  | _ => none

end FlowCheck
