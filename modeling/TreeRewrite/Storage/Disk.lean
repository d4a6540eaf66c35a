import TreeRewrite.Storage.Path

/-!
# Files and directories, as a command uses them

A `Disk` gives the few operations on files that commands need, in a monad of the caller's choice:
the commands are the same for the real disk and for a file system held in memory.
-/

set_option autoImplicit false

namespace TreeRewrite

/-- Why an operation on a file failed. -/
inductive FileError where
  | notFound
  | alreadyExists
  | notDirectory
  | isDirectory
  | nameTooLong
  /-- The content is not UTF-8. -/
  | notText
  /-- The path holds a NUL character. -/
  | nulInPath
  | other (message : String)
deriving DecidableEq, Repr

/-- The words for an operation that failed. -/
def FileError.message : FileError → String
  | .notFound => "No such file or directory (os error 2)"
  | .alreadyExists => "File exists (os error 17)"
  | .notDirectory => "Not a directory (os error 20)"
  | .isDirectory => "Is a directory (os error 21)"
  | .nameTooLong => "File name too long (os error 36)"
  | .notText => "stream did not contain valid UTF-8"
  | .nulInPath => "file name contained an unexpected NUL byte"
  | .other message => message

/-- Operations on files, by path. -/
structure Disk (m : Type → Type) where
  /-- The text of a file. -/
  read : String → m (Except FileError String)
  /-- Makes the text the content of a file, which is created if it is not there. -/
  write : String → String → m (Except FileError Unit)
  /-- Creates a directory in one that is there. -/
  makeDirectory : String → m (Except FileError Unit)
  /-- Is there a directory? -/
  isDirectory : String → m Bool

namespace Disk

variable {m : Type → Type} [Monad m]

/-- A directory that is there already is as good as a new one. -/
def settle (disk : Disk m) (path : String) :
    Except FileError Unit → m (Except FileError Unit)
  | .error .alreadyExists => do
    if ← disk.isDirectory path then return .ok () else return .error .alreadyExists
  | result => return result

/-- Creates a directory and, as far as they are missing, those above it, the nearest of which comes
next. -/
def makeDirectories (disk : Disk m) : List String → m (Except FileError Unit)
  | [] => return .ok ()
  | path :: above => do
    match ← disk.makeDirectory path with
    | .error .notFound => do
      match ← disk.makeDirectories above with
      | .error e => return .error e
      | .ok () => disk.settle path (← disk.makeDirectory path)
    | result => disk.settle path result

/-- Creates the directory of a file and those above it. -/
def makeParents (disk : Disk m) (path : String) : m (Except FileError Unit) :=
  disk.makeDirectories (Path.above path)

end Disk

end TreeRewrite
