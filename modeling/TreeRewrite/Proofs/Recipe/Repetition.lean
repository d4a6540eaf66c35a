import TreeRewrite.Proofs.Recipe.Catalog
import TreeRewrite.Proofs.Recipe.Leftovers
import TreeRewrite.Proofs.Traversal.Quiet

/-!
# Running a recipe again

A recipe that has nothing left to do changes nothing.  So it is enough to say when a tree is such
that there is nothing left, and that the recipe makes such trees: trees without sites for the one,
files whose services all have an interface for the other.

## What is here

* `ScopeToThis.keeps_classTable` — on a tree that is `ScopeToThis.Settled` the walk replaces nothing
  and records nothing.
* `ScopeToThis.rewrite_twice` — what the recipe has made, it leaves alone.
* `ServiceMocks.Finished` — files for which no mock is left to be made.  The file with its new
  interfaces is finished, for they cover all its services (`ServiceMocks.finished_extended`), and so
  are the files with the mocks (`ServiceMocks.finished_mockFileOf`).
* `ServiceMocks.rewrite_finished` — all that is done to finished files in a bundle is to put each
  into a bundle of its own.
* `ServiceMocks.run_twice` — the bundle has the same files, however often the recipe is run.
-/

set_option autoImplicit false

namespace TreeRewrite

open Vocabulary (builtin)

/-- A tree gives the same to a bundle whether it stands there alone or in a bundle of its own. -/
theorem Bundle.spreadAll_map_single (kind : Kind) (ts : List Tree) :
    spreadAll kind (ts.map fun t => ⟨kind, [], [t]⟩) = spreadAll kind ts := by
  induction ts with
  | nil => rfl
  | cons t rest ih =>
    rw [List.map_cons, spreadAll_node, List.singleton_append, spreadAll, spreadAll, ih]

/-! ## From a scope parameter to class members -/

namespace ScopeToThis

variable (options : RecipeOptions)

theorem keeps_siteTable {c : Members} {t : Tree}
    (h : t.Every fun s => isSite builtin options s = false) :
    Walk.Keeps c (Walk.examine t (siteTable builtin options)) .unchanged := by
  refine (targets_siteTable builtin options distinct_builtin).keeps fun s hs => ?_
  rw [Tree.outermost_eq_nil h] at hs
  cases hs

theorem keeps_constructorTable {c : Members} {t : Tree} (h : t.Every fun k =>
      k.kind = builtin.constructor → k.EveryBelow fun s => isSite builtin options s = false) :
    Walk.Keeps c (Walk.examine t (constructorTable builtin options)) .unchanged := by
  refine (targets_constructorTable builtin options distinct_builtin).keeps fun k hk => ?_
  have isConstructor : k.kind = builtin.constructor := eq_of_beq (Tree.of_mem_outermost hk)
  have below := (Tree.every_of_mem_outermost h hk).here isConstructor
  have entry : (constructorTable builtin options).find? k.kind
      = some (.mk builtin.constructor "Constructor" (.nested (siteTable builtin options))) := by
    rw [isConstructor]
    rfl
  exact Walk.examine_keeps_of_applied (Walk.admitted_keeps_of_some (b := true) entry rfl)
    (Walk.keeps_pure _) (fun child hc => keeps_siteTable options (below child hc))
    (Walk.keeps_pure _)

/-- Where nothing is left to be changed, the recipe changes nothing: no name is recorded, so no
class has anything to declare. -/
theorem keeps_classTable {t : Tree} (h : Settled options t) :
    Walk.Keeps {} (Walk.examine t (classTable builtin options)) .unchanged := by
  refine (targets_classTable builtin options distinct_builtin).keeps fun c hc => ?_
  have isClass : c.kind = builtin.classDeclaration := eq_of_beq (Tree.of_mem_outermost hc)
  have below := (Tree.every_of_mem_outermost h hc).here isClass
  have entry : (classTable builtin options).find? c.kind
      = some (.mk builtin.classDeclaration "ClassDeclaration"
        (.matched { leave? := some (leaveClass builtin) } (constructorTable builtin options))) := by
    rw [isClass]
    rfl
  have left : leaveClass builtin c {} = (.ok .unchanged, {}) := rfl
  exact Walk.examine_keeps_of_applied (Walk.admitted_keeps_of_some (b := true) entry rfl)
    (Walk.keeps_pure _) (fun child hc => keeps_constructorTable options (below child hc))
    ((Walk.keeps_call left).bind (Walk.keeps_pure _))

/-- **Members stay members.**  Run again on what it has made, the recipe gives the same tree and
replaces nothing, as long as the parameter has got another name than the scope and nothing was to be
changed below a parameter with the name of the scope. -/
theorem rewrite_twice (renamed : options.renamedParam ≠ options.scopeParam) :
    ∃ table, ScopeToThis.table options .builtin = .ok table ∧
      ScopeToThis.pass options .builtin = .ok (.ofTable name table {}) ∧
      ∀ t t', (t.Every fun s => isScope builtin options s = true →
          s.EveryBelow fun u => isScope builtin options u = false ∧
            isAccess builtin options u = false) →
        table.rewrite {} t = .ok t' →
        table.rewrite {} t' = .ok t' ∧
          ∃ session, ({ context := {} } : Session Members).rewrite table t' = (.ok t', session) ∧
            session.stats.replaced = 0 := by
  refine ⟨_, table_builtin options, pass_builtin options, fun t t' apart run => ?_⟩
  have settled : Settled options t' := by
    obtain ⟨-, rfl⟩ := eq_migrated_of_rewrite options run
    refine settled_migrated options renamed fun position s hs scope child hc below u hu => ?_
    exact Bool.or_eq_false_iff.mpr (apart position s hs scope child hc below u hu)
  obtain ⟨session, again, counted⟩ := Session.rewrite_of_keeps (keeps_classTable options settled)
  refine ⟨?_, session, again, counted⟩
  rw [Table.rewrite, Table.rewriteWith, again]
  rfl

/-- The parameter of the panel has a default value in which nothing is to be changed. -/
theorem rewrite_twice_panel :
    ({} : RecipeOptions).renamedParam ≠ ({} : RecipeOptions).scopeParam ∧
    ∃ table t', ScopeToThis.table {} .builtin = .ok table ∧
      table.rewrite {} (panel (some (builtin.mkStringLiteral "main"))) = .ok t' ∧
      table.rewrite {} t' = .ok t' := by
  let given := panel (some (builtin.mkStringLiteral "main"))
  have renamed : ({} : RecipeOptions).renamedParam ≠ ({} : RecipeOptions).scopeParam := by decide
  obtain ⟨table, htable, -, twice⟩ := rewrite_twice {} renamed
  obtain rfl : table = _ := Except.ok.inj (htable.symm.trans (table_builtin {}))
  refine ⟨renamed, _, migrated builtin {} given, htable, rfl, (twice given _ ?_ rfl).1⟩
  simp [given, panel, Vocabulary.mkNamed, Vocabulary.mkParameter, Vocabulary.mkBlock,
    Vocabulary.mkReturn, Vocabulary.mkPropertyAccess, Vocabulary.mkIdentifier,
    Vocabulary.mkStringLiteral, Tree.every_mk, Tree.EveryBelow, isScope, isAccess, builtin, Tree.is,
    Tree.leaf, Tree.withAttr, Tree.withChildren]

end ScopeToThis

/-! ## Interfaces and mocks for services -/

namespace ServiceMocks

/-- The file with the interfaces of its services. -/
def extended (file : Tree) : Tree :=
  file.withChildren ((services builtin file).map (interfaceOf builtin))

variable {file : Tree}

theorem recorded_extended : (extended file).outermostBelow (isRecorded builtin)
    = file.outermostBelow (isRecorded builtin)
      ++ (services builtin file).map (interfaceOf builtin) := by
  rw [extended, Tree.outermostBelow_withChildren, Tree.flatMap_outermost_of_pos]
  intro interface hi
  obtain ⟨c, -, rfl⟩ := List.mem_map.mp hi
  rfl

theorem recordedInterfaces_extended : recordedInterfaces builtin (extended file)
    = recordedInterfaces builtin file ++ (services builtin file).map (interfaceOf builtin) := by
  have all : ∀ interface ∈ (services builtin file).map (interfaceOf builtin),
      interface.is builtin.interfaceDeclaration = true := by
    intro interface hi
    obtain ⟨c, -, rfl⟩ := List.mem_map.mp hi
    rfl
  rw [recordedInterfaces, recorded_extended, List.filter_append, List.filter_eq_self.mpr all,
    recordedInterfaces]

theorem recordedClasses_extended :
    recordedClasses builtin (extended file) = recordedClasses builtin file := by
  have none : ∀ interface ∈ (services builtin file).map (interfaceOf builtin),
      ¬ interface.is builtin.classDeclaration = true := by
    intro interface hi
    obtain ⟨c, -, rfl⟩ := List.mem_map.mp hi
    exact Bool.false_ne_true
  rw [recordedClasses, recorded_extended, List.filter_append, List.filter_eq_nil_iff.mpr none,
    List.append_nil, recordedClasses]

theorem nameOf_interfaceOf (c : Tree) : nameOf (interfaceOf builtin c) = "I" ++ nameOf c := rfl

/-- The name of the interface of a class ends with that of the class. -/
theorem isSuffixOf_interfaceOf (c : Tree) :
    (nameOf c).toList.isSuffixOf (nameOf (interfaceOf builtin c)).toList = true := by
  rw [nameOf_interfaceOf, String.toList_append, List.isSuffixOf_iff_suffix]
  exact List.suffix_append _ _

/-- The interface of a service covers it. -/
theorem isCovered_extended {c : Tree} (hc : c ∈ recordedClasses builtin file) :
    isCovered builtin (extended file) c = true := by
  rw [isCovered, recordedInterfaces_extended, List.any_append, Bool.or_eq_true]
  cases covered : isCovered builtin file c with
  | true => exact .inl covered
  | false =>
    have service : c ∈ services builtin file :=
      List.mem_filter.mpr ⟨hc, by rw [covered]; rfl⟩
    exact .inr (List.any_eq_true.mpr ⟨interfaceOf builtin c, List.mem_map_of_mem service,
      isSuffixOf_interfaceOf c⟩)

/-- Nothing is left to be made for a file with the interfaces of its services. -/
theorem services_extended : services builtin (extended file) = [] := by
  rw [services, recordedClasses_extended, List.filter_eq_nil_iff]
  intro c hc
  rw [isCovered_extended hc]
  exact Bool.false_ne_true

theorem fileFault?_extended (h : fileFault? builtin file = none) :
    fileFault? builtin (extended file) = none := by
  rw [fileFault?, List.findSome?_eq_none_iff] at h ⊢
  intro t ht
  rw [asked, recordedInterfaces_extended, recordedClasses_extended, List.append_assoc] at ht
  rcases List.mem_append.mp ht with old | ht
  · exact h t (List.mem_append_left _ old)
  · rcases List.mem_append.mp ht with new | ht
    · obtain ⟨c, -, rfl⟩ := List.mem_map.mp new
      rfl
    · -- a class that is covered is asked for no names but its own
      obtain ⟨c, hc, ht⟩ := List.mem_flatMap.mp ht
      rw [askedBy, if_pos (isCovered_extended hc), List.mem_singleton] at ht
      subst ht
      exact h t (List.mem_append_right _ (List.mem_flatMap.mpr ⟨t, hc, List.mem_cons_self⟩))

/-- The file has all that the recipe would make for it, and the recipe finds no fault with it. -/
structure Finished (file : Tree) : Prop where
  isFile : file.kind = builtin.sourceFile
  services : services builtin file = []
  named : fileFault? builtin file = none

theorem finished_extended (isFile : file.kind = builtin.sourceFile)
    (h : fileFault? builtin file = none) : Finished (extended file) :=
  ⟨isFile, services_extended, fileFault?_extended h⟩

/-- A file in which nothing is recorded is finished. -/
theorem finished_of_recorded (isFile : file.kind = builtin.sourceFile)
    (h : file.outermostBelow (isRecorded builtin) = []) : Finished file := by
  have interfaces : recordedInterfaces builtin file = [] := by
    rw [recordedInterfaces, h, List.filter_nil]
  have classes : recordedClasses builtin file = [] := by rw [recordedClasses, h, List.filter_nil]
  refine ⟨isFile, ?_, ?_⟩
  · rw [services, classes, List.filter_nil]
  · rw [fileFault?, asked, interfaces, classes]
    rfl

theorem isRecorded_of_plain {t : Tree} (h : Recipe.Plain t) : isRecorded builtin t = false := by
  simp [isRecorded, Tree.is, h.1, h.2]

/-- A mock has no decorator. -/
theorem isRecorded_mockOf (c : Tree) : isRecorded builtin (mockOf builtin c) = false := by
  have decorators : (mockOf builtin c).childrenOf builtin.decorator = [] := by
    refine List.filter_eq_nil_iff.mpr (List.forall_mem_cons.mpr ⟨Bool.false_ne_true,
      List.forall_mem_cons.mpr ⟨Bool.false_ne_true, fun t ht => ?_⟩⟩)
    obtain ⟨method, -, rfl⟩ := List.mem_map.mp ht
    exact Bool.false_ne_true
  rw [isRecorded, isInjectable, decorators]
  rfl

/-- In the file with a mock nothing is recorded: the mock is no service, and in it there is nothing
but what the methods of the class have brought along. -/
theorem finished_mockFileOf {c : Tree}
    (plain : ∀ method ∈ methods builtin c, method.EveryBelow Recipe.Plain) :
    Finished (mockFileOf builtin c) := by
  have members := everyBelow_mockOf (fun _ h => (Recipe.calm_of_companionKinds h).1) plain
  have noService := isRecorded_mockOf c
  refine finished_of_recorded rfl (List.flatMap_eq_nil_iff.mpr (List.forall_mem_singleton.mpr ?_))
  rw [Tree.outermost_of_neg noService, Tree.outermostBelow, List.flatMap_eq_nil_iff]
  exact fun t ht => Tree.outermost_eq_nil fun position s hs =>
    isRecorded_of_plain (members t ht position s hs)

/-- Each finished file in a bundle becomes a bundle of its own. -/
theorem rewrite_finished {b : Tree} (root : b.kind = builtin.bundle)
    (finished : ∀ file ∈ b.children, Finished file) :
    (sourceTable builtin).rewrite {} b
      = .ok (b.rebuilt (b.children.map fun file => ⟨builtin.bundle, [], [file]⟩)) := by
  have notFile : b.is builtin.sourceFile = false := by
    rw [Tree.is, root]
    rfl
  have isFile : ∀ file ∈ b.children, file.is builtin.sourceFile = true :=
    fun file hf => beq_iff_eq.mpr (finished file hf).isFile
  have noFault : fault? builtin b = none := by
    rw [fault?, Tree.outermost_of_neg notFile, Tree.outermostBelow,
      Tree.flatMap_outermost_of_pos isFile, Tree.findSome?_flatMap, List.findSome?_eq_none_iff]
    exact fun file hf => (finished file hf).named
  have files : mocked builtin b
      = b.rebuilt (b.children.map fun file => ⟨builtin.bundle, [], [file]⟩) := by
    rw [mocked, Tree.mapOutermost_of_neg notFile, Tree.mapBelow]
    refine congrArg b.rebuilt (List.map_congr_left fun file hf => ?_)
    rw [Tree.mapOutermost_of_pos (isFile file hf), bundled, (finished file hf).services,
      List.map_nil, List.map_nil, Tree.withChildren_nil]
  rw [rewrite_sourceTable builtin distinct_builtin, noFault, files]
  rfl

/-- Where no method of a service holds a declaration, all files in the bundle are finished. -/
theorem finished_of_mem_bundled (isFile : file.kind = builtin.sourceFile)
    (named : fileFault? builtin file = none)
    (plain : file.Every fun c => c.kind = builtin.classDeclaration → isInjectable builtin c = true →
      ∀ method ∈ methods builtin c, method.EveryBelow Recipe.Plain) :
    ∀ t ∈ (bundled builtin file).children, Finished t := by
  refine List.forall_mem_cons.mpr ⟨finished_extended isFile named, fun t ht => ?_⟩
  obtain ⟨c, hc, rfl⟩ := List.mem_map.mp ht
  obtain ⟨found, isClass⟩ := List.mem_filter.mp (List.mem_filter.mp hc).1
  have isClass : c.kind = builtin.classDeclaration := eq_of_beq isClass
  have injectable : isInjectable builtin c = true := by
    have recorded := Tree.of_mem_outermostBelow found
    rw [isRecorded, Tree.is, Tree.is, isClass] at recorded
    exact recorded
  have here := (Tree.every_of_mem_outermostBelow plain.below found).here
  exact finished_mockFileOf (here isClass injectable)

/-- **Mocks are made once.**  Run again on the bundle that it has made of a file, the recipe gives a
bundle with the same files under the same names, as long as no method of a service of the file holds
a class or an interface. -/
theorem run_twice : ∃ pass, ServiceMocks.pass .builtin = .ok pass ∧
    ∀ file b, file.kind = builtin.sourceFile →
      (file.Every fun c => c.kind = builtin.classDeclaration → isInjectable builtin c = true →
        ∀ method ∈ methods builtin c, method.EveryBelow fun t =>
          t.kind ≠ builtin.classDeclaration ∧ t.kind ≠ builtin.interfaceDeclaration) →
      pass.run file = .ok b →
      ∃ b', pass.run b = .ok b' ∧ Bundle.ofTree b' = Bundle.ofTree b := by
  refine ⟨Recipe.serviceMocks, pass_builtin, fun file b isFile plain run => ?_⟩
  rw [Recipe.run_serviceMocks isFile] at run
  cases named : fileFault? builtin file with
  | some e =>
    rw [named] at run
    cases run
  | none =>
    rw [named] at run
    obtain rfl : bundled builtin file = b := Except.ok.inj run
    have again := rewrite_finished rfl (finished_of_mem_bundled isFile named plain)
    refine ⟨_, again, congrArg Bundle.ofTrees ?_⟩
    exact Bundle.spreadAll_map_single _ _

/-- A file with one service gets one mock, however often the recipe is run. -/
theorem run_twice_scopedService : ∃ pass b b', ServiceMocks.pass .builtin = .ok pass ∧
    pass.run Recipe.scopedService = .ok b ∧ pass.run b = .ok b' ∧
    (Bundle.ofTree b').names = ["greeter.ts", "greeter.mock.ts"] := by
  obtain ⟨pass, hpass, twice⟩ := run_twice
  obtain rfl : pass = Recipe.serviceMocks := Except.ok.inj (hpass.symm.trans pass_builtin)
  obtain ⟨b', again, same⟩ := twice Recipe.scopedService (bundled builtin Recipe.scopedService) rfl
    (by
      simp [Recipe.scopedService, Vocabulary.mkSourceFile, Vocabulary.mkExportedInterface,
        Vocabulary.mkExport, Vocabulary.mkNamed, Vocabulary.mkDecorator, Vocabulary.mkMethod,
        Vocabulary.mkBlock, Vocabulary.mkReturn, Vocabulary.mkParameter,
        Vocabulary.mkPropertyAccess, Vocabulary.mkIdentifier, Tree.every_mk, Tree.EveryBelow,
        methods, Tree.childrenOf, builtin, Tree.is, Tree.leaf, Tree.withAttr, Tree.withChildren])
    rfl
  exact ⟨_, _, b', hpass, rfl, again, by rw [same]; rfl⟩

end ServiceMocks

end TreeRewrite
