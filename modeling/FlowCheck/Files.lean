import FlowCheck.Text.Line
import FlowCheck.Text.Quoted

/-!
# Files

The files that the program can see, as a value: reading looks a path up, writing yields a changed
value.  Paths are relative to the working directory, to the home directory, or absolute; a name has
at most 255 bytes.  Two slashes in front of an absolute path are kept in its text, but lead to the
same place as one.
-/

namespace FlowCheck

/-- Where a path starts. -/
inductive PathBase where
  | working
  | home (text : String)
  | root
  /-- The root as it is written with two slashes. -/
  | doubleRoot
  deriving DecidableEq

/-- A path. -/
structure FilePath where
  /-- Where it starts. -/
  base : PathBase
  /-- The names on the way. -/
  names : List String
  deriving DecidableEq

namespace FilePath

/-- Where the path of a text starts. -/
def baseOf : List Char → PathBase
  | '/' :: '/' :: '/' :: _ => .root
  | '/' :: '/' :: _ => .doubleRoot
  | '/' :: _ => .root
  | _ => .working

/-- The path that a text stands for; empty names and single dots are dropped. -/
def ofText (s : String) : FilePath where
  base := baseOf s.toList
  names := (Text.parts '/' s).filter (fun n => !n.isEmpty && n != ".")

/-- The text of a path. -/
def text (p : FilePath) : String :=
  let tail := "/".intercalate p.names
  match p.base with
  | .working => if p.names.isEmpty then "." else tail
  | .root => "/" ++ tail
  | .doubleRoot => "//" ++ tail
  | .home dir => if p.names.isEmpty then dir else dir ++ "/" ++ tail

/-- The names from a directory on, given those that lead to it; two dots lead back, but not out of the
root. -/
def climb (base : PathBase) : (behind ahead : List String) → List String
  | behind, [] => behind
  | behind, n :: rest =>
      if n == ".." then
        if base == .working && (behind.isEmpty || behind.getLast? == some "..") then
          climb base (behind ++ [n]) rest
        else climb base behind.dropLast rest
      else climb base (behind ++ [n]) rest

/-- The place that a path leads to, if every directory on the way is there. -/
def place (p : FilePath) : FilePath where
  base := if p.base == .doubleRoot then .root else p.base
  names := climb p.base [] p.names

/-- The last name of a path. -/
def name (p : FilePath) : String :=
  p.names.getLast?.getD ""

/-- The part of the last name from its last dot on, unless the dot is its first or last character. -/
def extension (p : FilePath) : String :=
  let reversed := p.name.toList.reverse
  let tail := reversed.takeWhile (· != '.')
  if tail.isEmpty || reversed.length ≤ tail.length + 1 then ""
  else String.ofList ('.' :: tail.reverse)

end FilePath

/-- A file or a directory. -/
inductive FileNode where
  | file (bytes : Array UInt8)
  | directory

/-- What a path leads to. -/
inductive FileStatus where
  | missing
  | tooLong
  | blocked
  | directory
  | file (bytes : Array UInt8)

/-- Why a file cannot be read or written. -/
inductive FileFault where
  /-- There is no such file. -/
  | notFound (path : String)
  /-- The path leads through a file. -/
  | notDirectory (path : String)
  /-- The path leads to a directory. -/
  | isDirectory (path : String)
  /-- A name is too long. -/
  | nameTooLong (path : String)
  /-- The path holds a null character. -/
  | nullCharacter

/-- The wording of a fault. -/
def FileFault.message : FileFault → String
  | notFound path => "[Errno 2] No such file or directory: " ++ Text.quoted path
  | notDirectory path => "[Errno 20] Not a directory: " ++ Text.quoted path
  | isDirectory path => "[Errno 21] Is a directory: " ++ Text.quoted path
  | nameTooLong path => "[Errno 36] File name too long: " ++ Text.quoted path
  | nullCharacter => "embedded null byte"

/-- The files that the program can see. -/
structure Files where
  /-- The files and directories, by path. -/
  entries : List (FilePath × FileNode) := []

namespace Files

/-- The longest name, in bytes. -/
def maxName : Nat := 255

/-- The longest path, in bytes. -/
def maxPath : Nat := 4095

/-- What stands at a path whose names have been resolved. -/
def nodeAt (fs : Files) (p : FilePath) : Option FileNode :=
  match fs.entries.lookup p with
  | some node => some node
  | none =>
      if p.names.isEmpty then some .directory
      else if fs.entries.any (fun (q, _) => q.base == p.base && p.names.isPrefixOf q.names) then
        some .directory
      else none

/-- Follows names from a directory. -/
def walk (fs : Files) (base : PathBase) : (behind ahead : List String) → FileStatus
  | _, [] => .directory
  | behind, n :: rest =>
      let reached := FilePath.climb base behind [n]
      if n == ".." then walk fs base reached rest
      else if maxName < n.utf8ByteSize then .tooLong
      else
        match fs.nodeAt ⟨base, reached⟩ with
        | some .directory => walk fs base reached rest
        | some (.file bytes) => if rest.isEmpty then .file bytes else .blocked
        | none => .missing

/-- What a path leads to. -/
def status (fs : Files) (p : FilePath) : FileStatus :=
  if p.text.toList.contains '\x00' then .missing
  else if maxPath < p.text.utf8ByteSize then .tooLong
  else fs.walk p.place.base [] p.names

/-- Whether anything stands at a path. -/
def isPresent (fs : Files) (p : FilePath) : Except FileFault Bool :=
  match fs.status p with
  | .tooLong => .error (.nameTooLong p.text)
  | .file _ | .directory => .ok true
  | .missing | .blocked => .ok false

/-- The content of the file at a path, if there is one. -/
def file? (fs : Files) (p : FilePath) : Except FileFault (Option (Array UInt8)) :=
  match fs.status p with
  | .tooLong => .error (.nameTooLong p.text)
  | .file bytes => .ok (some bytes)
  | .directory | .missing | .blocked => .ok none

/-- The content of the file at a path. -/
def read (fs : Files) (p : FilePath) : Except FileFault (Array UInt8) :=
  if p.text.toList.contains '\x00' then .error .nullCharacter
  else
    match fs.status p with
    | .file bytes => .ok bytes
    | .directory => .error (.isDirectory p.text)
    | .missing => .error (.notFound p.text)
    | .blocked => .error (.notDirectory p.text)
    | .tooLong => .error (.nameTooLong p.text)

/-- The files with one entry added or replaced. -/
def put (fs : Files) (p : FilePath) (node : FileNode) : Files :=
  let place := p.place
  if fs.entries.any (fun (q, _) => q == place) then
    ⟨fs.entries.map (fun (q, n) => if q == place then (q, node) else (q, n))⟩
  else ⟨fs.entries ++ [(place, node)]⟩

/-- The files without an entry. -/
def remove (fs : Files) (p : FilePath) : Files :=
  ⟨fs.entries.filter (fun (q, _) => q != p.place)⟩

/-- The files after a file is written. -/
def write (fs : Files) (p : FilePath) (bytes : Array UInt8) : Except FileFault Files :=
  if p.text.toList.contains '\x00' then .error .nullCharacter
  else
    match fs.status p with
    | .file _ => .ok (fs.put p (.file bytes))
    | .directory => .error (.isDirectory p.text)
    | .blocked => .error (.notDirectory p.text)
    | .tooLong => .error (.nameTooLong p.text)
    | .missing =>
        match fs.status ⟨p.base, p.names.dropLast⟩ with
        | .directory => .ok (fs.put p (.file bytes))
        | .file _ | .blocked => .error (.notDirectory p.text)
        | _ => .error (.notFound p.text)

end Files

/-- The text of a file in the usual encoding, with every line end as a line feed. -/
def textOfBytes? (bytes : Array UInt8) : Option String :=
  (String.fromUTF8? ⟨bytes⟩).map (fun s => String.ofList (Text.unifyLineEnds s.toList))

end FlowCheck
