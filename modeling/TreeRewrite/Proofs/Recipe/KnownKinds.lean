import TreeRewrite.Proofs.Pipeline.Feeds
import TreeRewrite.Proofs.Recipe.KindTables
import TreeRewrite.Proofs.Tree.Documents

/-!
# Recipes stay within their table of kinds

A recipe makes nodes of the kinds that its table gave it, and takes all others from the tree that it
was given.  So where the table has names for all kinds of a tree, it has names for all kinds of what
recipes make of the tree, and this can be written.

## What is here

* `Vocabulary.Within` — a table has names for all kinds of a vocabulary.
* `ScopeToThis.known_migrated`, `ServiceMocks.known_mocked` — what the recipes make of known kinds.
* `Recipe.known_of_run` — **all trees that a pipeline of recipes makes are known**, whatever the
  table, the names and the feed.
* `Tree.exists_write`, `Tree.exists_toJson` — known trees can be written.
-/

set_option autoImplicit false

namespace TreeRewrite

variable {kinds : KindTable} {v : Vocabulary} {t : Tree}

/-! ## The kinds of a table -/

/-- Has a table names for all kinds of the vocabulary? -/
def Vocabulary.Within (v : Vocabulary) (kinds : KindTable) : Prop :=
  ∀ kind ∈ v.entries.map Prod.snd, kinds.contains kind = true

theorem Vocabulary.within_of_ofKinds (h : ofKinds kinds = .ok v) : v.Within kinds :=
  List.forall_mem_map.mpr fun entry mem =>
    KindTable.contains_of_kindOf (kindOf_of_ofKinds h entry mem)

namespace Tree

theorem known_mk {kind : Kind} {attrs : Fields} {children : List Tree} :
    (⟨kind, attrs, children⟩ : Tree).Known kinds
      ↔ kinds.contains kind = true ∧ ∀ child ∈ children, child.Known kinds := every_mk

theorem known_withChildren {more : List Tree} (h : t.Known kinds)
    (known : ∀ child ∈ more, child.Known kinds) : (t.withChildren more).Known kinds := by
  obtain ⟨root, below⟩ := every_iff.mp h
  exact every_iff.mpr ⟨root, List.forall_mem_append.mpr ⟨below, known⟩⟩

theorem exists_write (h : t.Known kinds) : ∃ text, t.write kinds = .ok text := by
  obtain ⟨r, recorded, -⟩ := exists_record t h
  exact ⟨_, by rw [write, recorded]; rfl⟩

theorem exists_toJson (h : t.Known kinds) : ∃ value, t.toJson kinds = .ok value := by
  obtain ⟨r, recorded, -⟩ := exists_record t h
  exact ⟨_, by rw [toJson, recorded]; rfl⟩

end Tree

/-! ## From a scope parameter to class members -/

namespace ScopeToThis

variable (options : RecipeOptions) (within : v.Within kinds)

include within

theorem known_migratedSite (h : t.Known kinds) : (migratedSite v options t).Known kinds := by
  simp only [Vocabulary.Within, Vocabulary.entries, List.map_cons, List.forall_mem_cons] at within
  rw [migratedSite]
  split
  · obtain ⟨root, below⟩ := Tree.every_iff.mp h
    refine Tree.known_mk.mpr ⟨root, List.forall_mem_cons.mpr ⟨?_, below⟩⟩
    simp [Vocabulary.mkDecorator, Vocabulary.mkIdentifier, Vocabulary.mkStringLiteral, Tree.leaf,
      Tree.withAttr, Tree.known_mk, within]
  · simp [migratedAccess, Vocabulary.mkPropertyAccess, Vocabulary.mkThis, Vocabulary.mkIdentifier,
      Tree.leaf, Tree.withAttr, Tree.known_mk, within]

theorem known_mkPropertyDeclaration (name : String) :
    (v.mkPropertyDeclaration name v.mkAny).Known kinds := by
  simp only [Vocabulary.Within, Vocabulary.entries, List.map_cons, List.forall_mem_cons] at within
  simp [Vocabulary.mkPropertyDeclaration, Vocabulary.mkNamed, Vocabulary.mkAny, Tree.leaf,
    Tree.withAttr, Tree.withChildren, Tree.known_mk, within]

theorem known_migratedClass (h : t.Known kinds) : (migratedClass v options t).Known kinds := by
  refine Tree.known_withChildren ?_ ?_
  · refine Tree.every_mapBelow (fun _ _ root => root) (fun _ _ hs => ?_) h
    exact Tree.every_mapBelow (fun _ _ root => root)
      (fun _ _ hsite => known_migratedSite options within hsite) hs
  · exact List.forall_mem_map.mpr fun name _ => known_mkPropertyDeclaration within name

theorem known_migrated (h : t.Known kinds) : (migrated v options t).Known kinds :=
  Tree.every_mapOutermost (fun _ _ root => root)
    (fun _ _ hc => known_migratedClass options within hc) h

end ScopeToThis

/-! ## Services -/

namespace ServiceMocks

variable (within : v.Within kinds)

include within

theorem contains_companionKinds :
    ∀ s : Tree, s.kind ∈ companionKinds v → kinds.contains s.kind = true := by
  have entries : companionKinds v ⊆ v.entries.map Prod.snd := by
    simp [companionKinds, Vocabulary.entries]
  exact fun s hs => within _ (entries hs)

theorem known_companion (h : t.Known kinds) :
    (interfaceOf v t).Known kinds ∧ (mockFileOf v t).Known kinds := by
  have methods : ∀ method ∈ methods v t,
      method.EveryBelow fun s => kinds.contains s.kind = true := by
    intro method hm
    have child : method ∈ t.children := (List.mem_filter.mp hm).1
    exact (Tree.every_iff.mp ((Tree.every_iff.mp h).2 method child)).2
  have new := contains_companionKinds within
  have mock : (mockOf v t).Known kinds :=
    Tree.every_iff.mpr ⟨within v.classDeclaration (by simp [Vocabulary.entries]),
      everyBelow_mockOf new methods⟩
  constructor
  · exact Tree.every_iff.mpr ⟨within v.interfaceDeclaration (by simp [Vocabulary.entries]),
      everyBelow_interfaceOf new methods⟩
  · exact Tree.every_iff.mpr ⟨within v.sourceFile (by simp [Vocabulary.entries]),
      List.forall_mem_singleton.mpr mock⟩

theorem known_bundled (h : t.Known kinds) : (bundled v t).Known kinds := by
  have services : ∀ c ∈ services v t, c.Known kinds := fun c hc =>
    Tree.every_of_mem_outermostBelow (Tree.every_iff.mp h).2
      (List.mem_filter.mp (List.mem_filter.mp hc).1).1
  have bundle : kinds.contains v.bundle = true := within _ (by simp [Vocabulary.entries])
  refine Tree.known_mk.mpr ⟨bundle, List.forall_mem_cons.mpr ⟨Tree.known_withChildren h ?_, ?_⟩⟩
  · exact List.forall_mem_map.mpr fun c hc => (known_companion within (services c hc)).1
  · exact List.forall_mem_map.mpr fun c hc => (known_companion within (services c hc)).2

theorem known_mocked (h : t.Known kinds) : (mocked v t).Known kinds :=
  Tree.every_mapOutermost (fun _ _ root => root) (fun _ _ hfile => known_bundled within hfile) h

end ServiceMocks

/-! ## Pipelines of recipes -/

namespace Recipe

variable {options : RecipeOptions}

/-- A recipe keeps to the table from which it was built. -/
theorem known_of_find {name : String} {pass : Pass (Except RuleError)} {made : Tree}
    (found : find options kinds name = .ok pass) (h : t.Known kinds) (run : pass.run t = .ok made) :
    made.Known kinds := by
  obtain ⟨v, hv, ⟨distinct, rfl⟩ | ⟨distinct, rfl⟩⟩ := of_find_eq_ok found
  · change (ScopeToThis.classTable v options).rewrite {} t = _ at run
    rw [ScopeToThis.rewrite_classTable v options distinct] at run
    split at run
    · exact Except.ok.inj run ▸
        ScopeToThis.known_migrated options (Vocabulary.within_of_ofKinds hv) h
    · cases run
  · change (ServiceMocks.sourceTable v).rewrite {} t = _ at run
    rw [ServiceMocks.rewrite_sourceTable v distinct] at run
    obtain rfl := (Tree.unlessFault_eq_ok.mp run).2
    exact ServiceMocks.known_mocked (Vocabulary.within_of_ofKinds hv) h

/-- **What recipes make is known** to their table if the tree is. -/
theorem known_of_run {feed : Feed} {names : List String} {p : Pipeline (Except RuleError)}
    {output : Output} (built : pipeline options kinds feed names = .ok p) (h : t.Known kinds)
    (run : p.run t = .ok output) : ∀ u ∈ output.toBundle.trees, u.Known kinds := by
  refine Pipeline.every_of_runPasses (fun pass mem s made hs run => ?_) h run
  obtain ⟨name, -, found⟩ := of_pipeline_eq_ok built pass mem
  exact known_of_find found hs run

end Recipe

end TreeRewrite
