import TreeRewrite.Storage.Disk

/-!
# A file system in memory

A `FileSystem` maps locations, lists of names from the root, to files and directories, and has a
working directory.  `FileSystem.disk` gives the operations of a `Disk` on it, with the errors of a
POSIX system: a path is followed step by step, and every step starts from a directory.  There are no
links, so `..` leads back to where the path came from.
-/

set_option autoImplicit false

namespace TreeRewrite

/-- What can be at a location. -/
inductive FileEntry where
  | file (content : ByteArray)
  | directory
deriving Inhabited

instance : DecidableEq FileEntry
  | .file a, .file b =>
    match ByteArray.instDecidableEq a b with
    | .isTrue h => .isTrue (congrArg _ h)
    | .isFalse h => .isFalse fun e => h (FileEntry.file.inj e)
  | .file _, .directory => .isFalse nofun
  | .directory, .file _ => .isFalse nofun
  | .directory, .directory => .isTrue rfl

/-- The names from the root to a file or directory. -/
abbrev Location := List String

/-- Files and directories by location.  The root is a directory without an entry. -/
structure FileSystem where
  entries : List (Location × FileEntry) := []
  /-- The working directory, where relative paths start. -/
  home : Location := []

namespace FileSystem

/-- What is at a location. -/
def entry? (fs : FileSystem) (loc : Location) : Option FileEntry :=
  if loc = [] then some .directory else fs.entries.lookup loc

/-- Puts an entry at a location, in place of what was there. -/
def put (fs : FileSystem) (loc : Location) (entry : FileEntry) : FileSystem :=
  { fs with entries := (loc, entry) :: fs.entries.filter fun e => e.1 != loc }

/-- The most bytes that a name may have. -/
def maxNameBytes : Nat := 255

/-- The most bytes that a path may have. -/
def maxPathBytes : Nat := 4095

/-- Follows a piece of a path from a location, which must be a directory. -/
def step (fs : FileSystem) (loc : Location) (piece : List Char) : Except FileError Location :=
  match fs.entry? loc with
  | none => .error .notFound
  | some (.file _) => .error .notDirectory
  | some .directory =>
    match piece with
    | [] => .ok loc
    | ['.'] => .ok loc
    | ['.', '.'] => .ok loc.dropLast
    | piece =>
      let name := String.ofList piece
      if maxNameBytes < name.utf8ByteSize then .error .nameTooLong else .ok (loc ++ [name])

/-- The location that a path leads to; nothing need be there. -/
def locate (fs : FileSystem) (path : String) : Except FileError Location :=
  if path.toList.contains '\x00' then .error .nulInPath
  else if path.isEmpty then .error .notFound
  else if maxPathBytes < path.utf8ByteSize then .error .nameTooLong
  else
    let start := if path.toList.head? = some '/' then [] else fs.home
    (Path.segments path.toList).foldlM fs.step start

/-- The text of a file. -/
def read (fs : FileSystem) (path : String) : Except FileError String := do
  match fs.entry? (← fs.locate path) with
  | none => throw .notFound
  | some .directory => throw .isDirectory
  | some (.file content) =>
    match String.fromUTF8? content with
    | some text => return text
    | none => throw .notText

/-- The file system after a text has been written to a file. -/
def write (fs : FileSystem) (path text : String) : Except FileError FileSystem := do
  let loc ← fs.locate path
  if fs.entry? loc = some .directory then throw .isDirectory
  return fs.put loc (.file text.toUTF8)

/-- The file system after a directory has been created. -/
def makeDirectory (fs : FileSystem) (path : String) : Except FileError FileSystem := do
  let loc ← fs.locate path
  if (fs.entry? loc).isSome then throw .alreadyExists
  return fs.put loc .directory

/-- Is there a directory? -/
def isDirectory (fs : FileSystem) (path : String) : Bool :=
  match fs.locate path with
  | .ok loc => fs.entry? loc == some .directory
  | .error _ => false

/-- Keeps the file system that an operation gives; one that fails changes nothing. -/
def commit (op : FileSystem → Except FileError FileSystem) :
    StateM FileSystem (Except FileError Unit) := fun fs =>
  match op fs with
  | .ok fs' => (.ok (), fs')
  | .error e => (.error e, fs)

/-- The operations on a file system as a state. -/
def disk : Disk (StateM FileSystem) where
  read path := fun fs => (fs.read path, fs)
  write path text := commit fun fs => fs.write path text
  makeDirectory path := commit fun fs => fs.makeDirectory path
  isDirectory path := fun fs => (fs.isDirectory path, fs)

/-- Puts an entry at a place below the working directory, and directories above it. -/
def plant (fs : FileSystem) (path : Location) (entry : FileEntry) : FileSystem :=
  let above := (List.range path.length).map path.take
  let fs := above.foldl (fun fs loc =>
    if (fs.entry? (fs.home ++ loc)).isSome then fs else fs.put (fs.home ++ loc) .directory) fs
  fs.put (fs.home ++ path) entry

/-- The entries that are not in an earlier file system as they are. -/
def changesSince (fs earlier : FileSystem) : List (Location × FileEntry) :=
  fs.entries.filter fun (loc, entry) => earlier.entry? loc != some entry

end FileSystem

end TreeRewrite
