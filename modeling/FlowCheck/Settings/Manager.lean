import FlowCheck.Files
import FlowCheck.Settings.Reserved
import FlowCheck.Settings.Store
import FlowCheck.Yaml.Reader

/-!
# Managing settings

Settings change by path, by document and by file.  Files are remembered in the order in which they
were first loaded and can be loaded again.  Watchers hear of every change made by path and of every
reload.  A change that fails midway leaves the earlier ones in place.
-/

namespace FlowCheck

/-- Why settings cannot be read or changed. -/
inductive ConfigFault where
  /-- A value is not taken. -/
  | setting (fault : SettingFault)
  /-- A text cannot be read as a number. -/
  | numeral (error : Text.Numeral.Error)
  /-- A path leads to no setting. -/
  | invalidPath (path : String)
  /-- A document has a key that is no setting. -/
  | unknownKey (path : String)
  /-- A document has a key that is no setting, with code points that are no characters. -/
  | unknownPoints (path : String) (points : List Nat)
  /-- A document has a section that is no mapping. -/
  | notMapping (path : String)
  /-- A document has a key that is no text. -/
  | keyNotText
  /-- A file is missing. -/
  | fileNotFound (path : String)
  /-- A file cannot be read as a document. -/
  | malformed (path : String)
  /-- A file holds a document without a value. -/
  | document (fault : Yaml.Fault)
  /-- A file holds something else than a mapping. -/
  | fileNotMapping (path : String)
  /-- A file cannot be read. -/
  | file (fault : FileFault)
  /-- A file is not text. -/
  | notText

namespace ConfigFault

/-- The wording of a fault; the diagnosis of a malformed document is held by a mark. -/
def message : ConfigFault → String
  | setting (.invalid v) => "Invalid value for config: " ++ v.quoted
  | setting .unprintable => Text.Numeral.printRefusal
  | setting .unorderable => "value cannot be compared"
  | numeral e => e.message
  | invalidPath path => "Invalid config path: " ++ path
  | unknownKey path => "Unknown config key: " ++ path
  | unknownPoints path points => "Unknown config key: " ++ path ++ Text.shownPoints points
  | notMapping path => "Config section " ++ path ++ " expects a mapping"
  | keyNotText => "key is no text"
  | fileNotFound path => "Configuration file not found: " ++ path
  | malformed path => "Malformed configuration file " ++ path ++ ": <yaml>"
  | document fault => fault.message
  | fileNotMapping path => "Configuration file " ++ path ++ " must contain a mapping"
  | file fault => fault.message
  | notText => "file is not text"

end ConfigFault

/-- What a path leads to. -/
def Target.ofPath (path : String) : Except ConfigFault Target :=
  match ofNames? (Text.parts '.' path) with
  | some t => .ok t
  | none => .error (.invalidPath path)

/-- Settings with the files they came from and the parties that watch them. -/
structure Manager where
  /-- What has been set. -/
  store : Store := {}
  /-- The files loaded so far. -/
  paths : List FilePath := []
  /-- The names of the watchers. -/
  watchers : List String := []
  /-- What the watchers heard: their name and the step budget in effect. -/
  notices : List (String × Value) := []

namespace Manager

/-- A change of settings. -/
abbrev Action (α : Type) := EStateM ConfigFault Manager α

/-- Stores a value. -/
def putValue (k : Key) (v : Value) : Action Unit := do
  match k.setting.accept v with
  | .error e => throw (.setting e)
  | .ok w => modify (fun m => { m with store := m.store.put k w })

/-- Tells the watchers, in order. -/
def notify (env : Environment) : Action Unit := do
  let m ← get
  m.watchers.forM (fun name => do
    let m ← get
    match m.store.read env .maxSteps with
    | .error e => throw (.numeral e)
    | .ok v => set { m with notices := m.notices ++ [(name, v)] })

/-- Changes a setting by path. -/
def setPath (env : Environment) (path : String) (v : Value) : Action Unit := do
  match Target.ofPath path with
  | .error e => throw e
  | .ok (.setting k) =>
      putValue k v
      notify env
  | .ok _ => throw (.invalidPath path)

/-- What a path leads to, with settings read. -/
def getPath (m : Manager) (env : Environment) (path : String) : Except ConfigFault Target :=
  match Target.ofPath path with
  | .ok (.setting k) =>
      match m.store.read env k with
      | .error e => .error (.numeral e)
      | .ok v => .ok (.property v)
  | other => other

/-- Applies entries whose keys are names, under a path. -/
def applyNames (path : String) (entries : List (Value × Value))
    (apply : String → Value → Action Unit) : Action Unit :=
  entries.forM (fun (key, v) =>
    match key with
    | .text name => apply name v
    | .codes points => throw (.unknownPoints path points)
    | _ => throw .keyNotText)

/-- Applies entries to a name that holds no setting: a name that is taken needs a mapping, which only
the description of a kind has, and there no name can be set. -/
def applyReserved (path : String) (taken : List String) (name : String) (v : Value) : Action Unit :=
  if !taken.contains name then throw (.unknownKey (path ++ name))
  else
    match v with
    | .map inner =>
        if name == Reserved.kind then
          let inside := path ++ name ++ "."
          applyNames inside inner (fun below _ =>
            let full := inside ++ below
            if (taken ++ Reserved.ofKind).contains below then throw (.notMapping full)
            else throw (.unknownKey full))
        else throw (.notMapping (path ++ name))
    | _ => throw (.notMapping (path ++ name))

/-- Applies the entries of a section of a document. -/
def applySection (s : Section) (entries : List (Value × Value)) : Action Unit :=
  applyNames (s.name ++ ".") entries (fun name v =>
    match Key.ofName? s name with
    | some k => putValue k v
    | none => applyReserved (s.name ++ ".") Reserved.own name v)

/-- Applies the entries of a document. -/
def applyEntries (entries : List (Value × Value)) : Action Unit :=
  applyNames "" entries (fun name v =>
    match Section.ofName? name, v with
    | some s, .map inner => applySection s inner
    | some _, _ => throw (.notMapping name)
    | none, _ => applyReserved "" (Reserved.own ++ Reserved.whole) name v)

/-- Applies a document, unless it is empty, and remembers the file it came from. -/
def applyDocument (p : FilePath) (v : Value) : Action Unit := do
  if v.isTruthy then
    match v with
    | .map entries =>
        applyEntries entries
        modify (fun m => if m.paths.contains p then m else { m with paths := m.paths ++ [p] })
    | _ => throw (.fileNotMapping p.text)

/-- Loads a file. -/
def loadFile (reader : Yaml.Reader) (fs : Files) (p : FilePath) : Action Unit := do
  match fs.isPresent p with
  | .error e => throw (.file e)
  | .ok false => throw (.fileNotFound p.text)
  | .ok true =>
      match fs.read p with
      | .error e => throw (.file e)
      | .ok bytes =>
          match textOfBytes? bytes with
          | none => throw .notText
          | some s =>
              match reader s with
              | .error (.malformed _) => throw (.malformed p.text)
              | .error fault => throw (.document fault)
              | .ok v => applyDocument p v

/-- Where settings are looked for by default. -/
def defaultPaths (home : String) : List FilePath :=
  [⟨.working, ["safeflow.yaml"]⟩, ⟨.working, ["config", "safeflow.yaml"]⟩,
    ⟨.home home, [".safeflow", "config.yaml"]⟩]

/-- Loads those of some files that exist; yields their paths. -/
def loadPresent (reader : Yaml.Reader) (fs : Files) : List FilePath → Action (List FilePath)
  | [] => return []
  | p :: rest => do
      match fs.isPresent p with
      | .error e => throw (.file e)
      | .ok false => loadPresent reader fs rest
      | .ok true =>
          loadFile reader fs p
          return p :: (← loadPresent reader fs rest)

/-- Loads the default files that exist. -/
def loadDefaults (reader : Yaml.Reader) (fs : Files) (home : String) : Action (List FilePath) :=
  loadPresent reader fs (defaultPaths home)

/-- Loads every file again and tells the watchers. -/
def reload (reader : Yaml.Reader) (fs : Files) (env : Environment) : Action Unit := do
  let m ← get
  let _ ← loadPresent reader fs m.paths
  notify env

/-- Forgets what was set and which files were loaded. -/
def reset (m : Manager) : Manager :=
  { m with store := {}, paths := [] }

end Manager

end FlowCheck
