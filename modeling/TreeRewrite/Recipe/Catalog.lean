import TreeRewrite.Recipe.ScopeToThis
import TreeRewrite.Recipe.ServiceMocks

/-!
# The catalog of recipes

Recipes are chosen by name and chained into a pipeline in the order in which they are named.
-/

set_option autoImplicit false

namespace TreeRewrite

/-- Why a recipe could not be built. -/
inductive RecipeError where
  | unknown (name : String)
  | table (error : TableError)
deriving DecidableEq, Repr

/-- The words for a recipe that could not be built. -/
def RecipeError.message : RecipeError → String
  | .unknown name => s!"unknown recipe '{name}'"
  | .table error => error.message

/-- A line of the catalog. -/
structure RecipeInfo where
  name : String
  description : String
deriving DecidableEq, Repr

namespace Recipe

/-- All recipes. -/
def catalog : List RecipeInfo :=
  [⟨ScopeToThis.name, "Inject a replacement for a constructor's scope parameter and move scope " ++
      "members onto the class"⟩,
    ⟨ServiceMocks.name, "Add interfaces for @Injectable() classes and emit a mock class file " ++
      "for each"⟩]

/-- The recipe of a name. -/
def find (options : RecipeOptions) (kinds : KindTable) (name : String) :
    Except RecipeError (Pass (Except RuleError)) :=
  if name = ScopeToThis.name then (ScopeToThis.pass options kinds).mapError .table
  else if name = ServiceMocks.name then (ServiceMocks.pass kinds).mapError .table
  else .error (.unknown name)

/-- The pipeline of the recipes with the names; the first that cannot be built is the error. -/
def pipeline (options : RecipeOptions) (kinds : KindTable) (feed : Feed) (names : List String) :
    Except RecipeError (Pipeline (Except RuleError)) := do
  let passes ← names.mapM (find options kinds)
  let start : Pipeline (Except RuleError) := Pipeline.forKinds kinds
  return { start with passes, feed }

end Recipe

end TreeRewrite
