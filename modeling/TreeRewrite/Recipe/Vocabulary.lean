import TreeRewrite.Bundle
import TreeRewrite.Pattern.Basic
import TreeRewrite.Text.Characters

/-!
# The nodes that recipes build

A `Vocabulary` holds the kinds that recipes match and build, and its functions build the nodes.  It
is taken from a kind table; `Vocabulary.builtin` is the one of the built-in kinds.  How trees are
laid out:

* identifiers and string literals carry their `text`, declarations their `name`;
* the children of a property access are its target and the identifier of the member;
* a decorator holds a call, whose first child is the callee;
* the children of a method are its parameters, its return type if it has one, then its block;
* an exported declaration starts with an export keyword;
* a source file carries its `fileName`.
-/

set_option autoImplicit false

namespace TreeRewrite

/-- The attribute with the text of an identifier or literal. -/
def textAttr : String := "text"

/-- The attribute with the name of a declaration. -/
def nameAttr : String := "name"

/-- The attribute with the keyword of a heritage clause. -/
def tokenAttr : String := "token"

/-- The kinds that recipes match and build. -/
structure Vocabulary where
  identifier : Kind
  stringLiteral : Kind
  thisKeyword : Kind
  exportKeyword : Kind
  anyKeyword : Kind
  propertyAccess : Kind
  call : Kind
  decorator : Kind
  parameter : Kind
  propertyDeclaration : Kind
  methodSignature : Kind
  methodDeclaration : Kind
  constructor : Kind
  heritageClause : Kind
  expressionWithTypeArguments : Kind
  returnStatement : Kind
  block : Kind
  classDeclaration : Kind
  interfaceDeclaration : Kind
  sourceFile : Kind
  bundle : Kind
deriving DecidableEq, Repr

namespace Vocabulary

/-- The kinds of a table; the first that it lacks is the error. -/
def ofKinds (kinds : KindTable) : Except TableError Vocabulary := do
  return {
    identifier := ← kinds.require "Identifier"
    stringLiteral := ← kinds.require "StringLiteral"
    thisKeyword := ← kinds.require "ThisKeyword"
    exportKeyword := ← kinds.require "ExportKeyword"
    anyKeyword := ← kinds.require "AnyKeyword"
    propertyAccess := ← kinds.require "PropertyAccessExpression"
    call := ← kinds.require "CallExpression"
    decorator := ← kinds.require "Decorator"
    parameter := ← kinds.require "Parameter"
    propertyDeclaration := ← kinds.require "PropertyDeclaration"
    methodSignature := ← kinds.require "MethodSignature"
    methodDeclaration := ← kinds.require "MethodDeclaration"
    constructor := ← kinds.require "Constructor"
    heritageClause := ← kinds.require "HeritageClause"
    expressionWithTypeArguments := ← kinds.require "ExpressionWithTypeArguments"
    returnStatement := ← kinds.require "ReturnStatement"
    block := ← kinds.require "Block"
    classDeclaration := ← kinds.require "ClassDeclaration"
    interfaceDeclaration := ← kinds.require "InterfaceDeclaration"
    sourceFile := ← kinds.require "SourceFile"
    bundle := ← kinds.require "Bundle" }

/-- The built-in kinds. -/
def builtin : Vocabulary where
  identifier := ⟨71⟩
  stringLiteral := ⟨9⟩
  thisKeyword := ⟨99⟩
  exportKeyword := ⟨84⟩
  anyKeyword := ⟨119⟩
  propertyAccess := ⟨179⟩
  call := ⟨181⟩
  decorator := ⟨147⟩
  parameter := ⟨146⟩
  propertyDeclaration := ⟨149⟩
  methodSignature := ⟨150⟩
  methodDeclaration := ⟨151⟩
  constructor := ⟨152⟩
  heritageClause := ⟨259⟩
  expressionWithTypeArguments := ⟨201⟩
  returnStatement := ⟨219⟩
  block := ⟨207⟩
  classDeclaration := ⟨229⟩
  interfaceDeclaration := ⟨230⟩
  sourceFile := ⟨265⟩
  bundle := ⟨266⟩

theorem ofKinds_builtin : ofKinds .builtin = .ok builtin := rfl

variable (v : Vocabulary)

/-- An identifier. -/
def mkIdentifier (text : String) : Tree := (Tree.leaf v.identifier).withAttr textAttr (.str text)

/-- A string literal. -/
def mkStringLiteral (text : String) : Tree :=
  (Tree.leaf v.stringLiteral).withAttr textAttr (.str text)

/-- The keyword `this`. -/
def mkThis : Tree := .leaf v.thisKeyword

/-- The keyword `export`. -/
def mkExport : Tree := .leaf v.exportKeyword

/-- The type `any`. -/
def mkAny : Tree := .leaf v.anyKeyword

/-- `target.name` -/
def mkPropertyAccess (target : Tree) (name : String) : Tree :=
  { kind := v.propertyAccess, children := [target, v.mkIdentifier name] }

/-- `@callee(args)` -/
def mkDecorator (callee : String) (args : List Tree) : Tree :=
  let call : Tree := { kind := v.call, children := v.mkIdentifier callee :: args }
  { kind := v.decorator, children := [call] }

/-- A node of a kind with a name. -/
def mkNamed (kind : Kind) (name : String) (children : List Tree) : Tree :=
  ((Tree.leaf kind).withAttr nameAttr (.str name)).withChildren children

/-- A parameter behind its decorators. -/
def mkParameter (name : String) (decorators : List Tree) (type? : Option Tree) : Tree :=
  mkNamed v.parameter name (decorators ++ type?.toList)

/-- `name: type;` in a class -/
def mkPropertyDeclaration (name : String) (type : Tree) : Tree :=
  mkNamed v.propertyDeclaration name [type]

/-- `name(params): type;` in an interface -/
def mkMethodSignature (name : String) (params : List Tree) (type? : Option Tree) : Tree :=
  mkNamed v.methodSignature name (params ++ type?.toList)

/-- Statements between braces. -/
def mkBlock (statements : List Tree) : Tree := { kind := v.block, children := statements }

/-- `name(params): type {body}` in a class -/
def mkMethod (name : String) (params : List Tree) (type? : Option Tree) (body : List Tree) : Tree :=
  mkNamed v.methodDeclaration name (params ++ type?.toList ++ [v.mkBlock body])

/-- `implements` and the names of interfaces -/
def mkImplements (names : List String) : Tree :=
  let type (name : String) : Tree :=
    { kind := v.expressionWithTypeArguments, children := [v.mkIdentifier name] }
  ((Tree.leaf v.heritageClause).withAttr tokenAttr (.str "implements")).withChildren
    (names.map type)

/-- `return expr;` -/
def mkReturn (expr : Tree) : Tree := { kind := v.returnStatement, children := [expr] }

/-- `export class name heritage {members}` -/
def mkExportedClass (name : String) (heritage members : List Tree) : Tree :=
  mkNamed v.classDeclaration name (v.mkExport :: heritage ++ members)

/-- `export interface name {members}` -/
def mkExportedInterface (name : String) (members : List Tree) : Tree :=
  mkNamed v.interfaceDeclaration name (v.mkExport :: members)

/-- A source file. -/
def mkSourceFile (fileName : String) (statements : List Tree) : Tree :=
  ((Tree.leaf v.sourceFile).withAttr fileNameAttr (.str fileName)).withChildren statements

/-- A bundle node. -/
def mkBundle (b : Bundle) : Tree := b.toTree v.bundle

/-- The callee of a decorator, if it is an identifier. -/
def decoratorCallee? (decorator : Tree) : Option String := do
  let callee ← (← decorator.firstChildOf? v.call).child? 0
  if callee.is v.identifier then callee.attrStr? textAttr else none

end Vocabulary

/-- The name of a declaration. -/
def Tree.declaredName (t : Tree) : Except RuleError String :=
  match t.attrStr? nameAttr with
  | some name => .ok name
  | none => .error (.shape "named declaration" s!"kind {t.kind.code}")

end TreeRewrite
