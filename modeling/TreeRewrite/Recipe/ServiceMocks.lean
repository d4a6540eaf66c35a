import TreeRewrite.Pattern.Summary
import TreeRewrite.Pipeline
import TreeRewrite.Recipe.Vocabulary

/-!
# Interfaces and mocks for services

The recipe `service-mocks` turns a source file into a bundle.  For every class with the decorator
`@Injectable()` whose name is not the end of the name of an interface of the file,

* the file gains `export interface IName` with the signatures of the methods of the class;
* the bundle gains a file `name.mock.ts`, the name with its first letter in lower case, with a class
  `NameMock` that implements the interface by methods that return `undefined`.

Interfaces and injectable classes are recorded wherever they are found in the file, but not below
one another.
-/

set_option autoImplicit false

namespace TreeRewrite.ServiceMocks

/-- The name of the recipe. -/
def name : String := "service-mocks"

/-- The decorator of services. -/
def injectable : String := "Injectable"

/-- What has been found in the source file at hand. -/
structure Found where
  interfaces : List String := []
  classes : List Tree := []
deriving Repr, Inhabited

/-- Does the name of an interface end with the name of the class? -/
def Found.covers (found : Found) (className : String) : Bool :=
  found.interfaces.any fun name => className.toList.isSuffixOf name.toList

variable (v : Vocabulary)

/-- Has the class the decorator of services? -/
def isInjectable (t : Tree) : Bool :=
  (t.childrenOf v.decorator).any fun d => v.decoratorCallee? d == some injectable

/-- Records an interface. -/
def visitInterface (t : Tree) : Action Found RuleError Rewrite := do
  let name ← t.declaredName
  modify fun found => { found with interfaces := found.interfaces ++ [name] }
  return .unchanged

/-- Records a class. -/
def visitClass (t : Tree) : Action Found RuleError Rewrite := do
  modify fun found => { found with classes := found.classes ++ [t] }
  return .unchanged

/-- The parameters of a method. -/
def parameters (method : Tree) : List Tree := method.childrenOf v.parameter

/-- The return type of a method: its first child that is no parameter, block or decorator. -/
def returnType? (method : Tree) : Option Tree :=
  method.children.find? fun t => !(t.is v.parameter || t.is v.block || t.is v.decorator)

/-- The signature of a method in the interface. -/
def signature (method : Tree) : Except RuleError Tree := do
  return v.mkMethodSignature (← method.declaredName) (parameters v method) (returnType? v method)

/-- The method of the mock, which returns `undefined`. -/
def mockMethod (method : Tree) : Except RuleError Tree := do
  return v.mkMethod (← method.declaredName) (parameters v method) (returnType? v method)
    [v.mkReturn (v.mkIdentifier "undefined")]

/-- The name of the interface of a class. -/
def interfaceName (className : String) : String := "I" ++ className

/-- The name of the mock of a class. -/
def mockName (className : String) : String := className ++ "Mock"

/-- The name of the file with the mock of a class. -/
def mockFileName (className : String) : String := Text.lowerFirst className ++ ".mock.ts"

/-- What the recipe makes of a class. -/
structure Companion where
  interface : Tree
  mockFile : Tree

/-- The interface of a class and the file with its mock. -/
def companion (className : String) (t : Tree) : Except RuleError Companion := do
  let methods := t.childrenOf v.methodDeclaration
  let signatures ← methods.mapM (signature v)
  let mockMethods ← methods.mapM (mockMethod v)
  let interface := v.mkExportedInterface (interfaceName className) signatures
  let mock := v.mkExportedClass (mockName className)
    [v.mkImplements [interfaceName className]] mockMethods
  return ⟨interface, v.mkSourceFile (mockFileName className) [mock]⟩

/-- What the recipe makes of the classes of a file, those covered by an interface left out. -/
def companions (found : Found) : List Tree → Except RuleError (List Companion)
  | [] => return []
  | t :: rest => do
    let className ← t.declaredName
    if found.covers className then companions found rest
    else do
      let c ← companion v className t
      return c :: (← companions found rest)

/-- The bundle of a file and its mocks. -/
def bundleOf (file : Tree) (made : List Companion) : Tree :=
  v.mkBundle (.ofTrees
    (file.withChildren (made.map Companion.interface) :: made.map Companion.mockFile))

/-- Turns a source file into a bundle, and forgets what was found in it. -/
def leaveFile (t : Tree) : Action Found RuleError Rewrite := do
  let found ← get
  set ({} : Found)
  return .replaced (bundleOf v t (← companions v found found.classes))

/-- The hooks for classes. -/
def classHooks : Hooks Found RuleError where
  filter? := some fun t => return isInjectable v t
  visit? := some visitClass

/-- The table of the recipe. -/
def table (kinds : KindTable) : Except TableError (Table Found RuleError) := do
  let v ← Vocabulary.ofKinds kinds
  Table.ofClauses kinds
    [.matched "SourceFile" { leave? := some (leaveFile v) }
      [.matched "InterfaceDeclaration" { visit? := some visitInterface } [],
        .matched "ClassDeclaration" (classHooks v) []]]

/-- The recipe as a pass. -/
def pass (kinds : KindTable) : Except TableError (Pass (Except RuleError)) := do
  return .ofTable name (← table kinds) {}

end TreeRewrite.ServiceMocks
