/-!
# Command - Files

The files a command can read and write, by their paths.  A file is found by the
very path it is listed under; any other path is followed part by part from the
directory at hand, so every part of it must be there.  Of what lies outside of that
directory only the directories that all systems have are known, and the file that
is always empty.

Main definitions:

- `Directory`, files by their paths.
- `FileError`, with its wording.
- `Spot`, where a path leads to, and `Directory.follow`.
- `Directory.read` and `Directory.write?`.
- `baseName`, the last part of a path.
-/

namespace Stepwise

/-- The parts of a path between slashes. -/
def pathParts (path : String) : List String :=
  (path.splitOn "/").filter fun part => part != "" && part != "."

/-- The last part of a path; a path without parts is itself, and no path is a dot. -/
def baseName (path : String) : String :=
  if path == "" then "."
  else
    match ((path.splitOn "/").filter (· != "")).getLast? with
    | some part => part
    | none => "/"

/-! ## Errors -/

/-- What keeps a file from being read. -/
inductive FileFault where
  | missing
  | isDirectory
  | notADirectory
  | nameTooLong
  /-- A path with a character that no path can have. -/
  | invalidPath
  deriving DecidableEq, Repr, Inhabited

/-- Why a file cannot be read. -/
structure FileError where
  path : String
  fault : FileFault
  deriving DecidableEq, Repr, Inhabited

/-- The message of an error.  A directory is opened before it turns out to be one. -/
def FileError.message (e : FileError) : String :=
  match e.fault with
  | .missing => "open " ++ e.path ++ ": no such file or directory"
  | .isDirectory => "read " ++ e.path ++ ": is a directory"
  | .notADirectory => "open " ++ e.path ++ ": not a directory"
  | .nameTooLong => "open " ++ e.path ++ ": file name too long"
  | .invalidPath => "open " ++ e.path ++ ": invalid argument"

/-! ## Paths -/

/-- Files by their paths. -/
structure Directory where
  files : List (String × String)
  deriving DecidableEq, Repr, Inhabited

/-- Where a path leads to. -/
inductive Spot where
  /-- A file of the directory at hand. -/
  | file (parts : List String)
  /-- The directory at hand, or one inside of it. -/
  | inside (parts : List String)
  /-- A directory around the one at hand. -/
  | around
  /-- A directory reached from the topmost one. -/
  | system (parts : List String)
  /-- The file that is always empty. -/
  | emptyFile
  deriving DecidableEq, Repr, Inhabited

namespace Directory

/-- How many octets a part of a path may have. -/
def partLimit : Nat := 255

/-- How many octets a path may have. -/
def pathLimit : Nat := 4095

/-- The directories that all systems have. -/
def systemDirectories : List String :=
  ["bin", "dev", "etc", "home", "lib", "media", "mnt", "opt", "proc", "root", "run", "sbin", "srv",
    "sys", "tmp", "usr", "var"]

/-- The parts of the path of every file. -/
def places (d : Directory) : List (List String) := d.files.map (pathParts ·.1)

/-- Whether parts lead to a directory: to the one at hand, or to one with files in
it. -/
def hasDirectory (d : Directory) (parts : List String) : Bool :=
  parts.isEmpty || d.places.any fun p => parts.isPrefixOf p && parts.length < p.length

/-- The text of the file at the parts of a path. -/
def find? (d : Directory) (parts : List String) : Option String :=
  (d.files.find? fun f => pathParts f.1 == parts).map (·.2)

/-- Go to what has a name in a directory. -/
def enter (d : Directory) (spot : Spot) (name : String) : Except FileFault Spot :=
  if partLimit < name.utf8ByteSize then .error .nameTooLong
  else
    match spot with
    | .inside parts =>
      let next := parts ++ [name]
      if d.hasDirectory next then .ok (.inside next)
      else if (d.find? next).isSome then .ok (.file next)
      else .error .missing
    | .system [] =>
      if systemDirectories.contains name then .ok (.system [name]) else .error .missing
    | .system ["dev"] => if name == "null" then .ok .emptyFile else .error .missing
    | _ => .error .missing

/-- Go on along a path by one part, which is possible from directories only.  A dot
says nothing, and two dots go to the directory around. -/
def advance (d : Directory) (spot : Spot) (part : String) : Except FileFault Spot :=
  match spot with
  | .file _ | .emptyFile => .error .notADirectory
  | spot =>
    if part == "" || part == "." then .ok spot
    else if part == ".." then
      match spot with
      | .inside [] => .ok .around
      | .inside parts => .ok (.inside parts.dropLast)
      | .system parts => .ok (.system parts.dropLast)
      | spot => .ok spot
    else d.enter spot part

/-- Where the parts of a path lead to from its start. -/
def followParts (d : Directory) (path : String) (parts : List String) : Except FileFault Spot :=
  if path.contains '\x00' then .error .invalidPath
  else if path == "" then .error .missing
  else if pathLimit < path.utf8ByteSize then .error .nameTooLong
  else parts.foldlM d.advance (if path.startsWith "/" then .system [] else .inside [])

/-- Where a path leads to. -/
def follow (d : Directory) (path : String) : Except FileFault Spot :=
  d.followParts path (path.splitOn "/")

/-! ## Reading and writing -/

/-- The text of the file that a path leads to. -/
def readFollowing (d : Directory) (path : String) : Except FileError String :=
  match d.follow path with
  | .error fault => .error ⟨path, fault⟩
  | .ok (.file parts) => .ok ((d.find? parts).getD "")
  | .ok .emptyFile => .ok ""
  | .ok _ => .error ⟨path, .isDirectory⟩

/-- The text of a file. -/
def read (d : Directory) (path : String) : Except FileError String :=
  match d.files.lookup path with
  | some text => .ok text
  | none => d.readFollowing path

/-- The parts of the path of a file that can be written: the directory it is in must
be there, and no directory may have its name. -/
def target? (d : Directory) (path : String) : Option (List String) :=
  let parts := path.splitOn "/"
  match d.followParts path parts.dropLast with
  | .ok (.inside inner) =>
    let name := parts.getLastD ""
    let place := inner ++ [name]
    if ["", ".", ".."].contains name || partLimit < name.utf8ByteSize || d.hasDirectory place then
      none
    else some place
  | _ => none

/-- The directory after a file was written, if it can be. -/
def write? (d : Directory) (path text : String) : Option Directory := do
  let parts ← d.target? path
  let others := d.files.filter fun f => pathParts f.1 != parts
  return ⟨others ++ [("/".intercalate parts, text)]⟩

/-- The files that are new or changed since an earlier time. -/
def changes (before after : Directory) : List (String × String) :=
  after.files.filter fun f => before.find? (pathParts f.1) != some f.2

end Directory

end Stepwise
