import TreeRewrite.CommandLine.Execute

/-!
# The program

Connects the commands with the disk, the environment and the standard output of the process.
-/

set_option autoImplicit false

namespace TreeRewrite

/-- An error of the system, by its number where commands look at it. -/
def FileError.ofSystem (e : IO.Error) : FileError :=
  match e with
  | .noFileOrDirectory _ _ _ => .notFound
  | .alreadyExists _ _ _ => .alreadyExists
  | .inappropriateType _ code _ => if code = 20 then .notDirectory else .isDirectory
  | .invalidArgument _ 36 _ => .nameTooLong
  | e => .other e.toString

/-- Runs an operation of the system on a path. -/
def attempt {α : Type} (path : String) (op : IO α) : IO (Except FileError α) := do
  if path.toList.contains '\x00' then return .error .nulInPath
  try return .ok (← op) catch e => return .error (.ofSystem e)

/-- The disk of the system. -/
def systemDisk : Disk IO where
  read path := do
    match ← attempt path (IO.FS.readBinFile path) with
    | .error e => return .error e
    | .ok bytes =>
      match String.fromUTF8? bytes with
      | some text => return .ok text
      | none => return .error .notText
  write path text := attempt path (IO.FS.writeFile path text)
  makeDirectory path := attempt path (IO.FS.createDir path)
  isDirectory path := return (← attempt path (IO.FS.realPath (path ++ "/."))).isOk

/-- Reads variables of the environment. -/
def readEnvironment (names : List String) : IO (List (String × String)) := do
  let pairs ← names.mapM fun name => return (name, ← IO.getEnv name)
  return pairs.filterMap fun (name, value?) => value?.map (name, ·)

end TreeRewrite

open TreeRewrite in
/-- Executes the command that the arguments of the process ask for. -/
def main (args : List String) : IO UInt32 := do
  let env ← readEnvironment Layer.environmentVariables
  let outcome ← Command.executeArguments systemDisk (env.lookup ·) args
  IO.print outcome.printed
  return outcome.status.toUInt32
