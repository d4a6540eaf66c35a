import TreeRewrite.Pattern.Summary
import TreeRewrite.Pipeline
import TreeRewrite.Recipe.Vocabulary

/-!
# From a scope parameter to class members

The recipe `scope-to-this` works inside the constructors of classes:

* the scope parameter becomes `@Inject('token') renamed`, in front of what it held before;
* every access `scope.name` becomes `this.name`.

The names accessed are recorded, each once; when a class is left, those that it does not declare
are declared in it as `name: any;`, and the record is emptied.
-/

set_option autoImplicit false

namespace TreeRewrite

/-- The names that recipes put into the trees they build. -/
structure RecipeOptions where
  /-- The constructor parameter to do away with. -/
  scopeParam : String := "$scope"
  /-- The parameter in its place. -/
  renamedParam : String := "rootScope"
  /-- The token with which that parameter is injected. -/
  injectToken : String := "$rootScope"
deriving DecidableEq, Repr, Inhabited

namespace ScopeToThis

/-- The name of the recipe. -/
def name : String := "scope-to-this"

/-- The members accessed in the class at hand, in the order in which they were first seen. -/
structure Members where
  names : List String := []
deriving DecidableEq, Repr, Inhabited

/-- Records a member once. -/
def Members.record (members : Members) (name : String) : Members :=
  if members.names.contains name then members else ⟨members.names ++ [name]⟩

variable (v : Vocabulary) (options : RecipeOptions)

/-- Is the node the scope parameter? -/
def isScopeParameter (t : Tree) : Bool := t.attrStr? nameAttr == some options.scopeParam

/-- The parameter that takes the place of the scope parameter. -/
def injected (t : Tree) : Tree :=
  let inject := v.mkDecorator "Inject" [v.mkStringLiteral options.injectToken]
  (t.rebuilt (inject :: t.children)).withAttr nameAttr (.str options.renamedParam)

/-- Is the node an access to a member of the scope? -/
def isScopeAccess (t : Tree) : Bool :=
  match t.child? 0 with
  | some target => target.is v.identifier && target.attrStr? textAttr == some options.scopeParam
  | none => false

/-- The member that a property access names. -/
def memberName (t : Tree) : Except RuleError String :=
  match (t.child? 1).bind (·.attrStr? textAttr) with
  | some name => .ok name
  | none => .error (.shape "property access with a member name" "no member name")

/-- The access `this.name`, whose name is recorded. -/
def accessThroughThis (t : Tree) : Action Members RuleError Rewrite := do
  let name ← memberName t
  modify (·.record name)
  return .replaced (v.mkPropertyAccess v.mkThis name)

/-- The names of the properties that a class declares itself. -/
def declaredProperties (t : Tree) : List String :=
  (t.childrenOf v.propertyDeclaration).filterMap (·.attrStr? nameAttr)

/-- The class with declarations for the names that it does not declare itself. -/
def declareMembers (names : List String) (t : Tree) : Rewrite :=
  match names.filter fun name => !(declaredProperties v t).contains name with
  | [] => .unchanged
  | missing => .replaced (t.withChildren (missing.map (v.mkPropertyDeclaration · v.mkAny)))

/-- Declares the recorded names, and empties the record. -/
def leaveClass (t : Tree) : Action Members RuleError Rewrite := do
  let members ← get
  set ({} : Members)
  return declareMembers v members.names t

/-- The hooks for parameters. -/
def parameterHooks : Hooks Members RuleError where
  filter? := some fun t => return isScopeParameter options t
  visit? := some fun t => return .replaced (injected v options t)

/-- The hooks for property accesses. -/
def accessHooks : Hooks Members RuleError where
  filter? := some fun t => return isScopeAccess v options t
  visit? := some (accessThroughThis v)

/-- The table of the recipe. -/
def table (kinds : KindTable) : Except TableError (Table Members RuleError) := do
  let v ← Vocabulary.ofKinds kinds
  let constructor ← Table.ofClauses kinds
    [.matched "Parameter" (parameterHooks v options) [],
      .matched "PropertyAccessExpression" (accessHooks v options) []]
  Table.ofClauses kinds
    [.matched "ClassDeclaration" { leave? := some (leaveClass v) }
      [.nested "Constructor" constructor]]

/-- The recipe as a pass. -/
def pass (kinds : KindTable) : Except TableError (Pass (Except RuleError)) := do
  return .ofTable name (← table options kinds) {}

end ScopeToThis

end TreeRewrite
