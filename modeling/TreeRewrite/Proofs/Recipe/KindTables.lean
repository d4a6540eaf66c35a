import TreeRewrite.Proofs.Pattern.Clauses
import TreeRewrite.Proofs.Recipe.Migration
import TreeRewrite.Proofs.Recipe.Services
import TreeRewrite.Proofs.Results
import TreeRewrite.Recipe.Catalog

/-!
# Recipes over other tables of kinds

A recipe asks a table for the kinds that it needs, by their names.  Whatever table has all of these
names will do, and several of them may stand for one kind, unless the recipe has a rule for two of
these in the same place.

## What is here

* `Vocabulary.entries` — the names that recipes ask for, each with its kind.
* `ScopeToThis.table_eq`, `ServiceMocks.table_eq` — the tables of the recipes, from any table of
  kinds.
* `Recipe.of_find_eq_ok`, `Recipe.of_pipeline_eq_ok` — **recipes that can be built** are rewrites by
  these tables, and so are the passes of a pipeline.
-/

set_option autoImplicit false

namespace TreeRewrite

variable {kinds : KindTable} {v : Vocabulary}

namespace Vocabulary

/-- The names by which a table is asked for kinds, with the kinds that it gives. -/
def entries (v : Vocabulary) : List (String × Kind) :=
  [("Identifier", v.identifier), ("StringLiteral", v.stringLiteral),
    ("ThisKeyword", v.thisKeyword), ("ExportKeyword", v.exportKeyword),
    ("AnyKeyword", v.anyKeyword), ("PropertyAccessExpression", v.propertyAccess),
    ("CallExpression", v.call), ("Decorator", v.decorator), ("Parameter", v.parameter),
    ("PropertyDeclaration", v.propertyDeclaration), ("MethodSignature", v.methodSignature),
    ("MethodDeclaration", v.methodDeclaration), ("Constructor", v.constructor),
    ("HeritageClause", v.heritageClause),
    ("ExpressionWithTypeArguments", v.expressionWithTypeArguments),
    ("ReturnStatement", v.returnStatement), ("Block", v.block),
    ("ClassDeclaration", v.classDeclaration), ("InterfaceDeclaration", v.interfaceDeclaration),
    ("SourceFile", v.sourceFile), ("Bundle", v.bundle)]

/-- A table that gives a vocabulary has all its names. -/
theorem kindOf_of_ofKinds (h : ofKinds kinds = .ok v) :
    ∀ entry ∈ v.entries, kinds.kindOf entry.1 = some entry.2 := by
  cases v
  simp only [ofKinds, bind_eq_ok, KindTable.require_eq_ok_iff, pure, Except.pure, Except.ok.injEq,
    mk.injEq] at h
  simp only [entries, List.forall_mem_cons]
  grind

end Vocabulary

/-! ## From a scope parameter to class members -/

namespace ScopeToThis

variable (options : RecipeOptions)

/-- A parameter must not be a property access: both have a rule inside constructors. -/
theorem table_eq (h : Vocabulary.ofKinds kinds = .ok v) :
    table options kinds = if v.parameter = v.propertyAccess then
        .error (.duplicateKind v.propertyAccess "Parameter" "PropertyAccessExpression")
      else .ok (classTable v options) := by
  have stands := Vocabulary.kindOf_of_ofKinds h
  have parameter : kinds.kindOf "Parameter" = some v.parameter :=
    stands (_, v.parameter) (by simp [Vocabulary.entries])
  have access : kinds.kindOf "PropertyAccessExpression" = some v.propertyAccess :=
    stands (_, v.propertyAccess) (by simp [Vocabulary.entries])
  have constructor : kinds.kindOf "Constructor" = some v.constructor :=
    stands (_, v.constructor) (by simp [Vocabulary.entries])
  have classes : kinds.kindOf "ClassDeclaration" = some v.classDeclaration :=
    stands (_, v.classDeclaration) (by simp [Vocabulary.entries])
  rw [table, h]
  show (Table.ofClauses kinds _ >>= fun sites => Table.ofClauses kinds _) = _
  simp only [Table.ofClauses_pair parameter access, Table.ofClauses_matched classes,
    Table.ofClauses_nested constructor]
  split <;> rfl

theorem of_pass_eq_ok {pass : Pass (Except RuleError)}
    (h : ScopeToThis.pass options kinds = .ok pass) :
    ∃ v, Vocabulary.ofKinds kinds = .ok v ∧ v.parameter ≠ v.propertyAccess ∧
      pass = .ofTable name (classTable v options) {} := by
  obtain ⟨table, built, ⟨⟩⟩ := bind_eq_ok.mp h
  obtain ⟨v, hv, -⟩ := bind_eq_ok.mp built
  rw [table_eq options hv] at built
  split at built
  · cases built
  · next distinct =>
    cases built
    exact ⟨v, hv, distinct, rfl⟩

end ScopeToThis

/-! ## Services -/

namespace ServiceMocks

/-- An interface must not be a class: both have a rule inside files. -/
theorem table_eq (h : Vocabulary.ofKinds kinds = .ok v) :
    table kinds = if v.interfaceDeclaration = v.classDeclaration then
        .error (.duplicateKind v.classDeclaration "InterfaceDeclaration" "ClassDeclaration")
      else .ok (sourceTable v) := by
  have stands := Vocabulary.kindOf_of_ofKinds h
  have interface : kinds.kindOf "InterfaceDeclaration" = some v.interfaceDeclaration :=
    stands (_, v.interfaceDeclaration) (by simp [Vocabulary.entries])
  have classes : kinds.kindOf "ClassDeclaration" = some v.classDeclaration :=
    stands (_, v.classDeclaration) (by simp [Vocabulary.entries])
  have file : kinds.kindOf "SourceFile" = some v.sourceFile :=
    stands (_, v.sourceFile) (by simp [Vocabulary.entries])
  rw [table, h]
  show Table.ofClauses kinds _ = _
  rw [Table.ofClauses_matched file, Table.ofClauses_pair interface classes]
  split <;> rfl

theorem of_pass_eq_ok {pass : Pass (Except RuleError)} (h : ServiceMocks.pass kinds = .ok pass) :
    ∃ v, Vocabulary.ofKinds kinds = .ok v ∧ v.interfaceDeclaration ≠ v.classDeclaration ∧
      pass = .ofTable name (sourceTable v) {} := by
  obtain ⟨table, built, ⟨⟩⟩ := bind_eq_ok.mp h
  obtain ⟨v, hv, -⟩ := bind_eq_ok.mp built
  rw [table_eq hv] at built
  split at built
  · cases built
  · next distinct =>
    cases built
    exact ⟨v, hv, distinct, rfl⟩

end ServiceMocks

/-! ## The catalog -/

namespace Recipe

variable {options : RecipeOptions}

/-- What is found in the catalog is one of two rewrites. -/
theorem of_find_eq_ok {name : String} {pass : Pass (Except RuleError)}
    (h : find options kinds name = .ok pass) :
    ∃ v, Vocabulary.ofKinds kinds = .ok v ∧
      ((v.parameter ≠ v.propertyAccess ∧
          pass = .ofTable name (ScopeToThis.classTable v options) {}) ∨
        (v.interfaceDeclaration ≠ v.classDeclaration ∧
          pass = .ofTable name (ServiceMocks.sourceTable v) {})) := by
  rw [find] at h
  split at h
  · next same =>
    obtain ⟨v, hv, distinct, eq⟩ := ScopeToThis.of_pass_eq_ok options (mapError_eq_ok.mp h)
    exact ⟨v, hv, .inl ⟨distinct, same ▸ eq⟩⟩
  · split at h
    · next same =>
      obtain ⟨v, hv, distinct, eq⟩ := ServiceMocks.of_pass_eq_ok (mapError_eq_ok.mp h)
      exact ⟨v, hv, .inr ⟨distinct, same ▸ eq⟩⟩
    · cases h

/-- The passes of a pipeline are found in the catalog, by the names for which it was built. -/
theorem of_pipeline_eq_ok {feed : Feed} {names : List String} {p : Pipeline (Except RuleError)}
    (h : pipeline options kinds feed names = .ok p) :
    ∀ pass ∈ p.passes, ∃ name ∈ names, find options kinds name = .ok pass := by
  obtain ⟨passes, found, ⟨⟩⟩ := bind_eq_ok.mp h
  exact exists_of_mem_mapM found

end Recipe

end TreeRewrite
