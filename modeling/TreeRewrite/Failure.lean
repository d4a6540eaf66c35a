import TreeRewrite.Recipe.Catalog
import TreeRewrite.Settings
import TreeRewrite.Tree.Document

/-!
# Failures of a command

Whatever goes wrong in a command becomes a `Failure`.  Its `ExitCode` is also the status of the
process.
-/

set_option autoImplicit false

namespace TreeRewrite

/-- Classes of failures. -/
inductive ExitCode where
  /-- The caller gave bad arguments, settings or trees. -/
  | invalidArguments
  /-- A file or recipe was not found. -/
  | resolution
  /-- A rule failed, or a tree could not be written. -/
  | apply
  /-- What should never happen. -/
  | internal
deriving DecidableEq, Repr

/-- The number of a class. -/
def ExitCode.code : ExitCode → UInt8
  | .invalidArguments => 2
  | .resolution => 3
  | .apply => 4
  | .internal => 10

/-- Why a command failed. -/
inductive Failure where
  | invalidArguments (message : String)
  | invalidTree (message : String)
  | fileNotFound (path : String)
  | unknownRecipe (name : String)
  | ruleFailed (message : String)
  | writeFailed (path message : String)
  | internal (message : String)
deriving DecidableEq, Repr

namespace Failure

/-- The words for a failure. -/
def message : Failure → String
  | .invalidArguments message => "invalid arguments: " ++ message
  | .invalidTree message => "invalid tree: " ++ message
  | .fileNotFound path => "file not found: " ++ path
  | .unknownRecipe name => s!"unknown recipe '{name}'"
  | .ruleFailed message => "rule failed: " ++ message
  | .writeFailed path message => s!"failed to write {path}: {message}"
  | .internal message => "internal error: " ++ message

/-- The class of a failure. -/
def exitCode : Failure → ExitCode
  | .invalidArguments _ => .invalidArguments
  | .invalidTree _ => .invalidArguments
  | .fileNotFound _ => .resolution
  | .unknownRecipe _ => .resolution
  | .ruleFailed _ => .apply
  | .writeFailed _ _ => .apply
  | .internal _ => .internal

/-- A callback that gave up. -/
def ofRule (e : RuleError) : Failure := .ruleFailed e.message

/-- A document that is no tree, or a tree without document. -/
def ofDocument (e : DocumentError) : Failure := .invalidTree e.message

/-- The tables of the recipes are fixed, so one that is refused is unexpected. -/
def ofTable (e : TableError) : Failure := .internal e.message

/-- A recipe that could not be built. -/
def ofRecipe : RecipeError → Failure
  | .unknown name => .unknownRecipe name
  | .table e => ofTable e

/-- A value that a setting does not admit. -/
def ofSetting (e : SettingError) : Failure := .invalidArguments e.message

end Failure

end TreeRewrite
