import TreeRewrite.Pipeline
import TreeRewrite.Recipe.ScopeToThis
import TreeRewrite.Text.Characters

/-!
# Settings

A setting comes from the defaults, from the environment or from a flag, and the later of these
outranks the earlier.  Every value that is given is checked, also one that is outranked: names of
parameters must be identifiers, and a feed must exist.

* `Setting.merge` — of two values the one of the higher source, and the second of equals.
* `Settings.resolve` — the environment's layer, then the flags' layer, over the defaults.
-/

set_option autoImplicit false

namespace TreeRewrite

/-- Where the value of a setting comes from. -/
inductive Source where
  | default
  | environment
  | flag
deriving DecidableEq, Repr, Inhabited

/-- The place of a source in the order of precedence. -/
def Source.rank : Source → Nat
  | .default => 0
  | .environment => 1
  | .flag => 2

/-- A value and its source. -/
structure Setting (α : Type) where
  value : α
  source : Source
deriving DecidableEq, Repr

/-- The other setting, unless its source is lower. -/
def Setting.merge {α : Type} (s other : Setting α) : Setting α :=
  if s.source.rank ≤ other.source.rank then other else s

/-- Values from one source, those that are given. -/
structure Layer where
  scopeParam? : Option String := none
  renamedParam? : Option String := none
  injectToken? : Option String := none
  bundleFeed? : Option String := none
deriving DecidableEq, Repr, Inhabited

namespace Layer

/-- The environment variables of the settings, in the order of the layer. -/
def environmentVariables : List String :=
  ["TUGPATTERN_SCOPE_PARAM", "TUGPATTERN_RENAMED_PARAM", "TUGPATTERN_INJECT_TOKEN",
    "TUGPATTERN_BUNDLE_FEED"]

/-- The layer of the environment. -/
def ofEnvironment (env : String → Option String) : Layer where
  scopeParam? := env "TUGPATTERN_SCOPE_PARAM"
  renamedParam? := env "TUGPATTERN_RENAMED_PARAM"
  injectToken? := env "TUGPATTERN_INJECT_TOKEN"
  bundleFeed? := env "TUGPATTERN_BUNDLE_FEED"

end Layer

/-- A value that a setting does not admit. -/
inductive SettingError where
  | notIdentifier (what value : String)
  | unknownFeed (error : UnknownFeed)

/-- The words for a value that a setting does not admit. -/
def SettingError.message : SettingError → String
  | .notIdentifier what value => s!"invalid {what} '{value}': expected an identifier"
  | .unknownFeed error => error.message

/-- Is the text an identifier?  It must have characters, and no blank among them. -/
def isIdentifier (text : String) : Bool := !text.isEmpty && !text.toList.any Text.isBlank

/-- All settings of a run. -/
structure Settings where
  scopeParam : Setting String
  renamedParam : Setting String
  injectToken : Setting String
  bundleFeed : Setting Feed
deriving DecidableEq, Repr

namespace Settings

/-- The settings without any layer. -/
def defaults : Settings :=
  let options : RecipeOptions := {}
  { scopeParam := ⟨options.scopeParam, .default⟩
    renamedParam := ⟨options.renamedParam, .default⟩
    injectToken := ⟨options.injectToken, .default⟩
    bundleFeed := ⟨.whole, .default⟩ }

/-- Merges a value into a setting, if one is given and admitted. -/
def put {α : Type} (s : Setting α) (source : Source)
    (check : String → Except SettingError α) : Option String → Except SettingError (Setting α)
  | none => .ok s
  | some text => do return s.merge ⟨← check text, source⟩

/-- Admits identifiers; `what` is what the message calls the setting. -/
def identifier (what : String) (text : String) : Except SettingError String :=
  if isIdentifier text then .ok text else .error (.notIdentifier what text)

/-- Puts a layer on top. -/
def apply (s : Settings) (source : Source) (layer : Layer) : Except SettingError Settings := do
  let scopeParam ← put s.scopeParam source (identifier "scope parameter") layer.scopeParam?
  let renamedParam ← put s.renamedParam source (identifier "renamed parameter") layer.renamedParam?
  let injectToken ← put s.injectToken source .ok layer.injectToken?
  let bundleFeed ←
    put s.bundleFeed source (fun text => (Feed.ofName text).mapError .unknownFeed) layer.bundleFeed?
  return { scopeParam, renamedParam, injectToken, bundleFeed }

/-- The settings from the environment and the flags. -/
def resolve (env : String → Option String) (flags : Layer) : Except SettingError Settings := do
  let s ← defaults.apply .environment (.ofEnvironment env)
  s.apply .flag flags

/-- The names that recipes put into the trees they build. -/
def recipeOptions (s : Settings) : RecipeOptions where
  scopeParam := s.scopeParam.value
  renamedParam := s.renamedParam.value
  injectToken := s.injectToken.value

end Settings

end TreeRewrite
