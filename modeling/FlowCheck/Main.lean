import FlowCheck.Command.Perform
import FlowCheck.Log.Timestamp
import Std.Time.DateTime.Timestamp

/-!
# The command line tool

Reads what a command line may need, carries it out, and prints and writes what comes of it.
-/

namespace FlowCheck.Main

open FlowCheck.Command

/-- The environment variables of the settings that are set. -/
def settingsEnvironment : IO Environment := do
  let names := Section.all.flatMap (fun x => x.keys.filterMap (fun k => k.setting.envName))
  names.filterMapM (fun name => do
    return (← IO.getEnv name).map (fun value => (name, value)))

/-- Whether a directory stands at a place. -/
def isDirectory (place : String) : IO Bool := do
  try
    let _ ← IO.FS.withFile (place ++ "/.") .read (fun _ => pure ())
    return true
  catch _ => return false

/-- The files with what stands at a path added. -/
def preload (files : Files) (p : FilePath) : IO Files := do
  try
    let bytes ← IO.FS.readBinFile p.text
    return files.put p (.file bytes.data)
  catch _ =>
    if ← isDirectory p.text then return files.put p .directory else return files

/-- The paths whose state matters for a named path: itself and the directories on the way. -/
def pathsOf (name : String) : List FilePath :=
  let p := FilePath.ofText name
  (List.range p.names.length).map (fun n => ⟨p.base, p.names.take (n + 1)⟩)

/-- What the tool says when it is asked for help. -/
def helpText : String :=
  "usage: safeflow [-h] [--version] [--format FORMAT] [--config FILE] [--log-level LEVEL] [--quiet]\n"
    ++ "                \x7bvalidate,run,assemble,disassemble,config\x7d ...\n"

/-- Writes the file that an invocation wrote. -/
def store (files : Files) (name : String) : IO Unit := do
  match files.file? (FilePath.ofText name) with
  | .ok (some bytes) => IO.FS.writeBinFile name ⟨bytes⟩
  | _ => return ()

/-- The microseconds of the present time. -/
def now : IO Int := do
  let t ← Std.Time.Timestamp.now
  return t.toNanosecondsSinceUnixEpoch.val / 1000

/-- The tool. -/
def tool (args : List String) : IO UInt32 := do
  let home := (← IO.getEnv "HOME").getD "/"
  let (reads, writes) := match Invocation.ofArguments args with
    | .ok i => (i.reads, i.writes?)
    | .error _ => ([], none)
  let paths := reads.flatMap pathsOf ++ Manager.defaultPaths home
  let files ← paths.foldlM preload {}
  let stdin ← if reads.contains "-" then (← IO.getStdin).readToEnd else pure ""
  let start ← now
  let (t, s) := execute { env := ← settingsEnvironment, home, files } stdin args
  let logged := t.logged.length
  let stop ← now
  let elapsed := if logged = 0 then 0.0 else Float.ofInt (stop - start) / 1000.0
  IO.eprint (t.stderr ⟨Log.timestamp stop, .float elapsed⟩)
  match t.ending with
  | .exit code =>
      match writes with
      | some name => if code = 0 then store s.files name
      | none => pure ()
      IO.print t.stdout
      return code.toUInt32
  | .usage =>
      IO.eprint helpText
      return 2
  | .help =>
      IO.print helpText
      return 0
  | .broken failure =>
      IO.eprintln failure.message
      return 1

end FlowCheck.Main

/-- The entry point of the command line tool. -/
def main (args : List String) : IO UInt32 :=
  FlowCheck.Main.tool args
