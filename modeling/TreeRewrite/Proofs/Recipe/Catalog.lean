import TreeRewrite.Proofs.Pipeline.Feeds
import TreeRewrite.Proofs.Recipe.FlatFiles
import TreeRewrite.Recipe.Catalog

/-!
# The recipes of the catalog

Both recipes keep a context while they walk through a tree.  This file says how far it reaches, and
what comes of naming both recipes in one order or in the other.

## What is here

* `Recipe.recipes_separate` — nothing is carried over from class to class, or from file to file.
* `Recipe.pipeline_pair` — two recipes that are fed with whole bundles run one after the other.
* `Recipe.Flat.members_then_mocks`, `Recipe.Flat.mocks_then_members` — what both recipes make of a
  flat file, in either order.
* `Recipe.recipes_commute` — the orders give the same bundle, or both fail.  The failures may be
  different ones: where both recipes find fault with a file, the first to run reports it.
-/

set_option autoImplicit false

namespace TreeRewrite.Recipe

open Vocabulary (builtin)

variable (options : RecipeOptions)

/-! ## Apart: nothing is carried over -/

/-- **Recipes work class by class and file by file.**  Each recipe comes back to the context from
which it starts, and it goes from child to child; only inside a class, or inside a file, does one
node hear of another. -/
theorem recipes_separate :
    (∃ table, ScopeToThis.table options .builtin = .ok table ∧
      ScopeToThis.pass options .builtin = .ok (.ofTable ScopeToThis.name table {}) ∧
      table.Separates {} builtin.classDeclaration) ∧
    ∃ table, ServiceMocks.table .builtin = .ok table ∧
      ServiceMocks.pass .builtin = .ok (.ofTable ServiceMocks.name table {}) ∧
      table.Separates {} builtin.sourceFile := by
  refine ⟨⟨_, ScopeToThis.table_builtin options, ScopeToThis.pass_builtin options, ?_⟩,
    _, ServiceMocks.table_builtin, ServiceMocks.pass_builtin, ?_⟩
  · exact (ScopeToThis.targets_classTable builtin options ScopeToThis.distinct_builtin).separates
      (fun t _ => (ScopeToThis.settles_changeClass builtin options t).drains) fun _ h => eq_of_beq h
  · exact (ServiceMocks.targets_sourceTable builtin).separates
      (fun t _ => (ServiceMocks.settles_changeFile builtin ServiceMocks.distinct_builtin t).drains)
      fun _ h => eq_of_beq h

/-! ## One recipe after the other -/

/-- The recipe that turns scopes into members, as a pass. -/
def scopeToThis : Pass (Except RuleError) :=
  .ofTable ScopeToThis.name (ScopeToThis.classTable builtin options) {}

/-- The recipe that makes mocks, as a pass. -/
def serviceMocks : Pass (Except RuleError) :=
  .ofTable ServiceMocks.name (ServiceMocks.sourceTable builtin) {}

theorem find_scopeToThis : find options .builtin ScopeToThis.name = .ok (scopeToThis options) := by
  rw [find, if_pos rfl, ScopeToThis.pass_builtin]
  rfl

theorem find_serviceMocks : find options .builtin ServiceMocks.name = .ok serviceMocks := by
  rw [find, if_neg (by decide), if_pos rfl, ServiceMocks.pass_builtin]
  rfl

theorem run_scopeToThis (t : Tree) : (scopeToThis options).run t
    = if ScopeToThis.wellFormed builtin options t then .ok (ScopeToThis.migrated builtin options t)
      else .error ScopeToThis.noMember :=
  ScopeToThis.rewrite_classTable builtin options ScopeToThis.distinct_builtin t

theorem run_serviceMocks {file : Tree} (h : file.kind = builtin.sourceFile) :
    serviceMocks.run file = Tree.unlessFault (ServiceMocks.fileFault? builtin file)
      (ServiceMocks.bundled builtin file) := by
  have root : file.is builtin.sourceFile = true := beq_iff_eq.mpr h
  have run := ServiceMocks.rewrite_sourceTable builtin ServiceMocks.distinct_builtin file
  rw [ServiceMocks.fault?, ServiceMocks.mocked, Tree.mapOutermost_of_pos root,
    Tree.outermost_of_pos root, List.flatMap_singleton] at run
  exact run

namespace Flat

variable {file : Tree} (flat : Flat file)

include flat

theorem members_then_mocks : (scopeToThis options).run file >>= serviceMocks.run
    = if ScopeToThis.wellFormed builtin options file then
        Tree.unlessFault (ServiceMocks.fileFault? builtin file)
          (ServiceMocks.bundled builtin (ScopeToThis.migrated builtin options file))
      else .error ScopeToThis.noMember := by
  have isFile : (ScopeToThis.migrated builtin options file).kind = builtin.sourceFile := by
    rw [flat.migrated_eq options]
    exact flat.isFile
  rw [run_scopeToThis]
  split
  · rw [← flat.fileFault?_migrated options]
    exact run_serviceMocks isFile
  · rfl

theorem mocks_then_members : serviceMocks.run file >>= (scopeToThis options).run
    = match ServiceMocks.fileFault? builtin file with
      | none =>
        if ScopeToThis.wellFormed builtin options file then
          .ok (ServiceMocks.bundled builtin (ScopeToThis.migrated builtin options file))
        else .error ScopeToThis.noMember
      | some e => .error e := by
  rw [run_serviceMocks flat.isFile]
  cases ServiceMocks.fileFault? builtin file with
  | none =>
    show (scopeToThis options).run (ServiceMocks.bundled builtin file) = _
    rw [run_scopeToThis, flat.wellFormed_bundled, flat.migrated_bundled]
  | some e => rfl

end Flat

/-- A pipeline of two recipes that are fed with whole bundles. -/
theorem pipeline_pair {name name' : String} {pass pass' : Pass (Except RuleError)}
    (h : find options .builtin name = .ok pass) (h' : find options .builtin name' = .ok pass') :
    ∃ p, pipeline options .builtin .whole [name, name'] = .ok p ∧
      p.bundleKind? = some builtin.bundle ∧
      ∀ t, p.run t = p.classify <$> (pass.run t >>= pass'.run) := by
  have passes : [name, name'].mapM (find options .builtin) = .ok [pass, pass'] := by
    rw [List.mapM_cons, List.mapM_cons, h, h']
    rfl
  refine ⟨{ passes := [pass, pass'], bundleKind? := some builtin.bundle, feed := .whole }, ?_, rfl,
    fun t => ?_⟩
  · rw [pipeline, passes]
    rfl
  · rw [Pipeline.run, Pipeline.runPasses_whole rfl, Pass.chain_cons, Pass.chain_singleton]

theorem classify_bundled {m : Type → Type} {p : Pipeline m}
    (h : p.bundleKind? = some builtin.bundle) (file : Tree) :
    p.classify (ServiceMocks.bundled builtin file)
      = .bundle (.ofTree (ServiceMocks.bundled builtin file)) := by
  rw [Pipeline.classify, Pipeline.isBundle, h]
  rfl

/-- **The recipes commute** on flat files: in both orders they fail, or they give one bundle. -/
theorem recipes_commute {file : Tree} (flat : Flat file) :
    ∃ p q, pipeline options .builtin .whole [ScopeToThis.name, ServiceMocks.name] = .ok p ∧
      pipeline options .builtin .whole [ServiceMocks.name, ScopeToThis.name] = .ok q ∧
      ((∃ b, p.run file = .ok (.bundle b) ∧ q.run file = .ok (.bundle b)) ∨
        ∃ e e', p.run file = .error e ∧ q.run file = .error e') := by
  obtain ⟨p, hp, bundleP, runP⟩ :=
    pipeline_pair options (find_scopeToThis options) (find_serviceMocks options)
  obtain ⟨q, hq, bundleQ, runQ⟩ :=
    pipeline_pair options (find_serviceMocks options) (find_scopeToThis options)
  refine ⟨p, q, hp, hq, ?_⟩
  rw [runP, runQ, flat.members_then_mocks options, flat.mocks_then_members options]
  cases ServiceMocks.fileFault? builtin file with
  | some e => cases ScopeToThis.wellFormed builtin options file with
    | true => exact .inr ⟨e, e, rfl, rfl⟩
    | false => exact .inr ⟨ScopeToThis.noMember, e, rfl, rfl⟩
  | none => cases ScopeToThis.wellFormed builtin options file with
    | true =>
      let bundle := ServiceMocks.bundled builtin (ScopeToThis.migrated builtin options file)
      refine .inl ⟨.ofTree bundle, ?_, ?_⟩
      · exact congrArg Except.ok (classify_bundled bundleP _)
      · exact congrArg Except.ok (classify_bundled bundleQ _)
    | false => exact .inr ⟨ScopeToThis.noMember, ScopeToThis.noMember, rfl, rfl⟩

/-- A file with a service whose constructor keeps what it finds in the scope. -/
def scopedService : Tree :=
  let access := builtin.mkPropertyAccess (builtin.mkIdentifier "$scope") "title"
  let constructor : Tree := ⟨builtin.constructor, [],
    [builtin.mkParameter "$scope" [] none, builtin.mkBlock [builtin.mkReturn access]]⟩
  builtin.mkSourceFile "greeter.ts" [builtin.mkExportedInterface "Greeting" [],
    Vocabulary.mkNamed builtin.classDeclaration "Greeter"
      [builtin.mkDecorator "Injectable" [], constructor, builtin.mkMethod "greet" [] none []]]

theorem flat_scopedService : Flat scopedService := by
  refine ⟨rfl, ?_, ?_⟩ <;>
  simp [scopedService, Vocabulary.mkSourceFile, Vocabulary.mkExportedInterface,
    Vocabulary.mkExport, Vocabulary.mkNamed, Vocabulary.mkDecorator, Vocabulary.mkMethod,
    Vocabulary.mkBlock, Vocabulary.mkReturn, Vocabulary.mkParameter, Vocabulary.mkPropertyAccess,
    Vocabulary.mkIdentifier, Tree.every_mk, Plain, builtin, Tree.leaf, Tree.withAttr,
    Tree.withChildren]

/-- Both orders give the file with its interface and a member, and a file with a mock. -/
theorem recipes_commute_scopedService : ∃ p q b,
    pipeline {} .builtin .whole [ScopeToThis.name, ServiceMocks.name] = .ok p ∧
      pipeline {} .builtin .whole [ServiceMocks.name, ScopeToThis.name] = .ok q ∧
      p.run scopedService = .ok (.bundle b) ∧ q.run scopedService = .ok (.bundle b) := by
  obtain ⟨p, q, hp, hq, ⟨b, runP, runQ⟩ | ⟨e, e', failed, -⟩⟩ :=
    recipes_commute {} flat_scopedService
  · exact ⟨p, q, b, hp, hq, runP, runQ⟩
  · exfalso
    obtain ⟨p', hp', -, run⟩ := pipeline_pair {} (find_scopeToThis {}) (find_serviceMocks {})
    have same : p = p' := Except.ok.inj (hp.symm.trans hp')
    have wellFormed : ScopeToThis.wellFormed builtin {} scopedService = true := by rfl
    have named : ServiceMocks.fileFault? builtin scopedService = none := by rfl
    rw [same, run, flat_scopedService.members_then_mocks, wellFormed, named] at failed
    cases failed

end TreeRewrite.Recipe
