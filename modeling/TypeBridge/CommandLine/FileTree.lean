import TypeBridge.CommandLine.Files

/-!
# Trees of files

A store of files in memory that refuses what a hierarchical file system refuses.  A path is followed
part by part, and the first part that fails decides: all but the last have to be directories, and a
name or a path may be too long before anything is looked up under it.  Of the last part it depends
on the purpose what is right: a path that ends in a slash never names a file, but reading says so of
the file that stands there, and writing of the path.
-/

namespace TypeBridge.CommandLine

/-- Files and directories, named by the parts of their paths from the root. -/
structure FileTree where
  files : List (List String × String)
  /-- Directories besides those that files stand in. -/
  directories : List (List String) := []
  /-- Where a path without a slash in front starts. -/
  current : List String := []

namespace FileTree

/-- The bytes of a name are at most these. -/
def nameLimit : Nat := 255

/-- The bytes of a path are fewer than these. -/
def pathLimit : Nat := 4096

def isFile (t : FileTree) (place : List String) : Bool :=
  t.files.any (·.1 == place)

/-- The root, a directory by itself, or one with something in it. -/
def isDirectory (t : FileTree) (place : List String) : Bool :=
  place.isEmpty
    || t.files.any (fun f => place.isPrefixOf f.1 && place.length < f.1.length)
    || t.directories.any (place.isPrefixOf ·)
    || place.isPrefixOf t.current

/-- What a path leads to. -/
inductive Place where
  | directory (place : List String)
  /-- A name in a directory that is there; under the name there may be anything or nothing. -/
  | entry (directory : List String) (name : String)

/-- Follow the parts of a path from a directory. -/
def follow (t : FileTree) (start : List String) : List String → Except FileError Place
  | [] => .ok (.directory start)
  | part :: rest =>
    if part = "." then
      follow t start rest
    else if part = ".." then
      follow t start.dropLast rest
    else if rest.isEmpty then
      .ok (.entry start part)
    else
      let inner := start ++ [part]
      if part.utf8ByteSize > nameLimit then .error .nameTooLong
      else if t.isDirectory inner then follow t inner rest
      else if t.isFile inner then .error .notDirectory
      else .error .notFound

/-- The parts of a path, without the empty ones of repeated slashes. -/
def parts (path : String) : List String :=
  (path.splitOn "/").filter (· != "")

/-- A path from the root has a slash in front. -/
def locate (t : FileTree) (path : String) : Except FileError Place :=
  if path.isEmpty then
    .error .notFound
  else if path.utf8ByteSize ≥ pathLimit then
    .error .nameTooLong
  else
    t.follow (if path.startsWith "/" then [] else t.current) (parts path)

def read (t : FileTree) (path : String) : Except FileError String := do
  match ← t.locate path with
  | .directory _ => .error .isDirectory
  | .entry directory name =>
    let place := directory ++ [name]
    if name.utf8ByteSize > nameLimit then
      .error .nameTooLong
    else if t.isDirectory place then
      .error .isDirectory
    else
      match t.files.lookup place with
      | none => .error .notFound
      | some text => if path.endsWith "/" then .error .notDirectory else .ok text

def write (t : FileTree) (path text : String) : Except FileError FileTree := do
  match ← t.locate path with
  | .directory _ => .error .isDirectory
  | .entry directory name =>
    let place := directory ++ [name]
    if path.endsWith "/" then
      .error .isDirectory
    else if name.utf8ByteSize > nameLimit then
      .error .nameTooLong
    else if t.isDirectory place then
      .error .isDirectory
    else
      .ok { t with files := t.files.filter (·.1 != place) ++ [(place, text)] }

/-- Access to the files of a tree that is the state. -/
def access : Files (StateM FileTree) where
  read path := do return (← get).read path
  write path text := do
    match (← get).write path text with
    | .ok later =>
      set later
      return .ok ()
    | .error error => return .error error

end FileTree

end TypeBridge.CommandLine
