import FlowCheck.Settings.Setting

/-!
# A setting with listeners

One setting together with what was set and with those who hear of every change.
-/

namespace FlowCheck

/-- A setting and what was set. -/
structure Cell where
  /-- The setting. -/
  setting : Setting
  /-- What was set; null stands for nothing. -/
  stored : Value := .null
  /-- Who hears of changes, in the order in which they asked. -/
  listeners : List String := []

/-- What a listener hears. -/
structure Change where
  /-- The listener. -/
  listener : String
  /-- What was set before. -/
  old : Value
  /-- What is set now. -/
  new : Value

namespace Cell

/-- The effective value. -/
def read (c : Cell) (env : Environment) : Except Text.Numeral.Error Value :=
  c.setting.read env c.stored

/-- Sets a value and tells the listeners. -/
def set (c : Cell) (v : Value) : Except SettingFault (Cell × List Change) :=
  match c.setting.accept v with
  | .error e => .error e
  | .ok w => .ok ({ c with stored := w }, c.listeners.map (fun name => ⟨name, c.stored, w⟩))

/-- Forgets what was set. -/
def reset (c : Cell) : Cell :=
  { c with stored := .null }

/-- Adds a listener. -/
def listen (c : Cell) (name : String) : Cell :=
  { c with listeners := c.listeners ++ [name] }

end Cell

end FlowCheck
