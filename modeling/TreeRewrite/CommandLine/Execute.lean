import TreeRewrite.CommandLine.Arguments
import TreeRewrite.Run

/-!
# Executing a command

Every command prints one JSON document, on success and on failure alike, and the status of the
process is that of the failure.  Mistaken arguments print nothing.
-/

set_option autoImplicit false

namespace TreeRewrite

/-- What a process leaves behind, its files apart. -/
structure Outcome where
  status : UInt8
  printed : String
deriving DecidableEq, Repr

namespace Outcome

/-- A response after a success. -/
def ofResponse (response : Json) : Outcome := ⟨0, response.emit⟩

/-- The response to a failure. -/
def ofFailure (f : Failure) : Outcome :=
  ⟨f.exitCode.code, (ErrorResponse.ofFailure f).toJson.emit⟩

/-- What stands in for a command. -/
def ofStop : Stop → Outcome
  | .help =>
    ⟨0, s!"Usage: {programName} [--log-level LEVEL] [--log-json] <run|kinds|recipes> [OPTIONS]\n"⟩
  | .version => ⟨0, s!"{programName} {programVersion}\n"⟩
  | .mistake => ⟨2, ""⟩

end Outcome

namespace Command

variable {m : Type → Type} [Monad m]

/-- Runs recipes with the settings of the environment and the flags. -/
def runWith (disk : Disk m) (env : String → Option String) (arguments : RunArguments) :
    ExceptT Failure m RunResponse := do
  let settings ← ((Settings.resolve env arguments.flags).mapError .ofSetting :
    Except Failure Settings)
  runRecipes disk KindTable.builtin
    { input := arguments.input
      recipes := arguments.recipes
      outputDir? := arguments.outputDir?
      settings }

/-- Executes a command. -/
def execute (disk : Disk m) (env : String → Option String) : Command → m Outcome
  | .kinds => return .ofResponse (KindsResponse.ofTable KindTable.builtin).toJson
  | .recipes => return .ofResponse ({} : RecipesResponse).toJson
  | .run arguments => do
    match ← (runWith disk env arguments).run with
    | .ok response => return .ofResponse response.toJson
    | .error failure => return .ofFailure failure

/-- Executes the command that arguments amount to. -/
def executeArguments (disk : Disk m) (env : String → Option String) (texts : List String) :
    m Outcome :=
  match Arguments.read texts with
  | .ok command => command.execute disk env
  | .error stop => return .ofStop stop

end Command

end TreeRewrite
