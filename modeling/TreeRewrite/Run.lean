import TreeRewrite.Response
import TreeRewrite.Storage.Disk

/-!
# Running recipes over a tree

A run reads a tree from a file, rewrites it by recipes, and either writes the resulting trees into a
directory or puts them into the response.

* `Run.rewriteText` — everything between reading and writing, as a function.
* `Run.checkNames` — the names of the trees come from the trees, so before anything is written they
  must be plain relative paths, each different from the others.
* `runRecipes` — the whole run, on a `Disk`.
-/

set_option autoImplicit false

namespace TreeRewrite

/-- What is to be run. -/
structure RunRequest where
  /-- The file with the tree. -/
  input : String
  /-- The recipes, in order. -/
  recipes : List String
  /-- The directory for the trees; without it they go into the response. -/
  outputDir? : Option String := none
  settings : Settings

namespace Run

/-- The recipes that ran and the trees that they made of a text. -/
def rewriteText (kinds : KindTable) (request : RunRequest) (text : String) :
    Except Failure (List String × Bundle) := do
  let t ← (Tree.read kinds text).mapError .ofDocument
  let pipeline ← (Recipe.pipeline request.settings.recipeOptions kinds
    request.settings.bundleFeed.value request.recipes).mapError .ofRecipe
  let output ← (pipeline.run t).mapError .ofRule
  return (pipeline.names, output.toBundle)

/-- The path of the file for a tree. -/
def outputPath (dir name : String) : String := Path.join dir (name ++ ".json")

/-- Refuses names that lead out of the directory and names that occur twice. -/
def checkNames (dir : String) (seen : List String) : List String → Except Failure Unit
  | [] => .ok ()
  | name :: rest =>
    if !Path.isPlain name then
      .error (.writeFailed (outputPath dir name)
        s!"output name '{name}' is not a relative file name")
    else if seen.contains name then
      .error (.writeFailed (outputPath dir name)
        s!"more than one output tree is named '{name}'")
    else checkNames dir (name :: seen) rest

/-- A tree as the response holds it. -/
def inlined (kinds : KindTable) (name : String) (t : Tree) : Except Failure OutputTree := do
  let value ← (t.toJson kinds).mapError .ofDocument
  return { name, nodes := .ofNat t.count, tree? := some value }

variable {m : Type → Type} [Monad m]

/-- A result of an operation on files as a step of a run. -/
def orFail {α : Type} (failure : FileError → Failure) (action : m (Except FileError α)) :
    ExceptT Failure m α := do
  match ← action with
  | .ok x => return x
  | .error e => throw (failure e)

/-- The failure to read a file. -/
def readFailure (path : String) : FileError → Failure
  | .notFound => .fileNotFound path
  | e => .invalidArguments s!"cannot read {path}: {e.message}"

/-- Writes a tree into the directory. -/
def written (disk : Disk m) (kinds : KindTable) (dir name : String) (t : Tree) :
    ExceptT Failure m OutputTree := do
  let path := outputPath dir name
  let failure (e : FileError) : Failure := .writeFailed path e.message
  let text ← ((t.write kinds).mapError .ofDocument : Except Failure String)
  orFail failure (disk.makeParents path)
  orFail failure (disk.write path (text ++ "\n"))
  return { name, nodes := .ofNat t.count, path? := some path }

/-- Delivers the trees one by one. -/
def deliver (disk : Disk m) (kinds : KindTable) (dir? : Option String) :
    List (String × Tree) → ExceptT Failure m (List OutputTree)
  | [] => return []
  | (name, t) :: rest => do
    let output ← match dir? with
      | some dir => written disk kinds dir name t
      | none => (inlined kinds name t : Except Failure OutputTree)
    return output :: (← deliver disk kinds dir? rest)

end Run

/-- Runs recipes. -/
def runRecipes {m : Type → Type} [Monad m] (disk : Disk m) (kinds : KindTable)
    (request : RunRequest) : ExceptT Failure m RunResponse := do
  if request.recipes.isEmpty then
    throw (.invalidArguments "at least one --recipe is required")
  let text ← Run.orFail (Run.readFailure request.input) (disk.read request.input)
  let (stages, bundle) ← (Run.rewriteText kinds request text : Except Failure _)
  if let some dir := request.outputDir? then
    (Run.checkNames dir [] bundle.names : Except Failure Unit)
  let outputs ← Run.deliver disk kinds request.outputDir? bundle.entries
  return { stages, bundleFeed := request.settings.bundleFeed.value.name, outputs }

end TreeRewrite
