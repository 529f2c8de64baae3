import FlowCheck.Settings.Key

/-!
# Names besides the settings

The settings as a whole, their sections and each setting answer to more names than those of settings:
names that describe them and names that act on them.  A document cannot set such a name, and a path
may lead to some of them.
-/

namespace FlowCheck

namespace Reserved

/-- The name under which a part of the settings keeps the description of its kind. -/
def kind : String := "__class__"

/-- Names that every part of the settings answers to. -/
def own : List String :=
  ["__annotations__", kind, "__dataclass_fields__", "__dataclass_params__", "__delattr__",
    "__dict__", "__dir__", "__doc__", "__eq__", "__format__", "__ge__", "__getattribute__",
    "__getstate__", "__gt__", "__hash__", "__init__", "__init_subclass__", "__le__", "__lt__",
    "__match_args__", "__module__", "__ne__", "__new__", "__reduce__", "__reduce_ex__", "__repr__",
    "__setattr__", "__sizeof__", "__str__", "__subclasshook__", "__weakref__"]

/-- Names that only the description of a kind answers to. -/
def ofKind : List String :=
  ["__base__", "__bases__", "__basicsize__", "__call__", "__dictoffset__", "__flags__",
    "__instancecheck__", "__itemsize__", "__mro__", "__name__", "__or__", "__prepare__",
    "__qualname__", "__ror__", "__subclasscheck__", "__subclasses__", "__text_signature__",
    "__weakrefoffset__", "mro"]

/-- Names that act on the settings as a whole. -/
def whole : List String :=
  ["to_dict", "to_yaml"]

/-- Names that act on a setting. -/
def actions : List String :=
  ["get", "set", "reset", "on_change"]

end Reserved

/-- What a path of settings leads to. -/
inductive Target where
  /-- The settings as a whole. -/
  | whole
  | part (s : Section)
  | setting (k : Key)
  /-- A property of a setting. -/
  | property (v : Value)

namespace Target

/-- Something that acts. -/
def action : Target :=
  property (.object "method")

/-- The property of a setting by name. -/
def ofSetting? (k : Key) (name : String) : Option Target :=
  match name with
  | "default" => some (property k.setting.default)
  | "env_var" => some (property (Value.ofOption Value.text k.setting.envName))
  | "description" => some (property (.text k.setting.description))
  | "validator" => some (property (.object "function"))
  | _ => if Reserved.actions.contains name then some action else none

/-- What a name leads to from a target. -/
def step? (t : Target) (name : String) : Option Target :=
  match t with
  | whole =>
      match Section.ofName? name with
      | some s => some (part s)
      | none => if Reserved.whole.contains name then some action else none
  | part s => (Key.ofName? s name).map setting
  | setting k => ofSetting? k name
  | property _ => none

/-- What the names on a path lead to. -/
def ofNames? (names : List String) : Option Target :=
  names.foldlM step? whole

end Target

end FlowCheck
