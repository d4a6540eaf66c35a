import TreeRewrite.Proofs.Recipe.KnownKinds

/-!
# Recipes set no attributes but texts

A recipe takes most attributes from the tree that it is given, and those that it sets are texts.  So
what holds of no attributes, and goes on to hold when a text is set, holds of all attributes in what
recipes make of a tree if it holds of all in the tree.

## What is here

* `Fields.Textual` — a property of attributes that setting a text keeps, and `Tree.Held`, such a
  property at every node.
* `ScopeToThis.held_migrated`, `ServiceMocks.held_mocked` — what the recipes make of such trees.
* `Recipe.held_of_run` — **what all attributes have, they keep** in the trees that a pipeline of
  recipes makes.
* `Recipe.canonical_floatFree_of_run` — so these can be held and have no floats, if the tree could
  and had none.
-/

set_option autoImplicit false

namespace TreeRewrite

variable {kinds : KindTable} {v : Vocabulary} {t : Tree} {p : Fields → Prop}

/-! ## Attributes that are held -/

/-- Does a property hold of no attributes, and go on to hold when a text is set? -/
structure Fields.Textual (p : Fields → Prop) : Prop where
  empty : p []
  insert (attrs : Fields) (key text : String) (h : p attrs) : p (attrs.insert key (.str text))

namespace Tree

/-- Have the attributes of all nodes the property? -/
def Held (p : Fields → Prop) (t : Tree) : Prop := t.Every fun node => p node.attrs

theorem held_mk {kind : Kind} {attrs : Fields} {children : List Tree} :
    (⟨kind, attrs, children⟩ : Tree).Held p ↔ p attrs ∧ ∀ child ∈ children, child.Held p := every_mk

theorem held_leaf (textual : Fields.Textual p) (kind : Kind) : (leaf kind).Held p :=
  held_mk.mpr ⟨textual.empty, fun _ h => nomatch h⟩

theorem held_withAttr (textual : Fields.Textual p) (h : t.Held p) (key text : String) :
    (t.withAttr key (.str text)).Held p :=
  every_iff.mpr ⟨textual.insert _ _ _ h.here, h.below⟩

theorem held_withChildren {more : List Tree} (h : t.Held p) (held : ∀ child ∈ more, child.Held p) :
    (t.withChildren more).Held p :=
  every_iff.mpr ⟨h.here, List.forall_mem_append.mpr ⟨h.below, held⟩⟩

end Tree

/-! ## Nodes that are built -/

namespace Vocabulary

variable (textual : Fields.Textual p)
include textual

theorem held_mkIdentifier (text : String) : (v.mkIdentifier text).Held p :=
  Tree.held_withAttr textual (Tree.held_leaf textual _) _ _

theorem held_mkStringLiteral (text : String) : (v.mkStringLiteral text).Held p :=
  Tree.held_withAttr textual (Tree.held_leaf textual _) _ _

theorem held_mkNamed (kind : Kind) (name : String) {children : List Tree}
    (held : ∀ child ∈ children, child.Held p) : (mkNamed kind name children).Held p :=
  Tree.held_withChildren (Tree.held_withAttr textual (Tree.held_leaf textual _) _ _) held

theorem held_mkImplements (names : List String) : (v.mkImplements names).Held p := by
  refine Tree.held_withChildren (Tree.held_withAttr textual (Tree.held_leaf textual _) _ _) ?_
  exact List.forall_mem_map.mpr fun name _ => Tree.held_mk.mpr
    ⟨textual.empty, List.forall_mem_singleton.mpr (held_mkIdentifier textual name)⟩

/-- A node without attributes over others. -/
theorem held_node (kind : Kind) {children : List Tree} (held : ∀ child ∈ children, child.Held p) :
    (⟨kind, [], children⟩ : Tree).Held p := Tree.held_mk.mpr ⟨textual.empty, held⟩

theorem held_mkDecorator (callee : String) {args : List Tree} (held : ∀ arg ∈ args, arg.Held p) :
    (v.mkDecorator callee args).Held p :=
  held_node textual _ (List.forall_mem_singleton.mpr
    (held_node textual _ (List.forall_mem_cons.mpr ⟨held_mkIdentifier textual _, held⟩)))

end Vocabulary

/-! ## From a scope parameter to class members -/

namespace ScopeToThis

variable (textual : Fields.Textual p) (options : RecipeOptions)
include textual

theorem held_migratedSite (h : t.Held p) : (migratedSite v options t).Held p := by
  rw [migratedSite]
  split
  · refine Tree.held_mk.mpr ⟨textual.insert _ _ _ h.here, List.forall_mem_cons.mpr ⟨?_, h.below⟩⟩
    exact Vocabulary.held_mkDecorator textual _
      (List.forall_mem_singleton.mpr (Vocabulary.held_mkStringLiteral textual _))
  · exact Vocabulary.held_node textual _ (List.forall_mem_cons.mpr
      ⟨Tree.held_leaf textual _,
        List.forall_mem_singleton.mpr (Vocabulary.held_mkIdentifier textual _)⟩)

theorem held_migratedClass (h : t.Held p) : (migratedClass v options t).Held p := by
  refine Tree.held_withChildren ?_ (List.forall_mem_map.mpr fun name _ => ?_)
  · refine Tree.every_mapBelow (fun _ _ root => root) (fun _ _ hs => ?_) h
    exact Tree.every_mapBelow (fun _ _ root => root)
      (fun _ _ hsite => held_migratedSite textual options hsite) hs
  · exact Vocabulary.held_mkNamed textual _ _
      (List.forall_mem_singleton.mpr (Tree.held_leaf textual _))

theorem held_migrated (h : t.Held p) : (migrated v options t).Held p :=
  Tree.every_mapOutermost (fun _ _ root => root)
    (fun _ _ hc => held_migratedClass textual options hc) h

end ScopeToThis

/-! ## Services -/

namespace ServiceMocks

/-- What is kept of a method of a class. -/
theorem held_parts (h : t.Held p) {method part : Tree} (hm : method ∈ methods v t)
    (hp : part ∈ parameters v method ++ (returnType? v method).toList) : part.Held p :=
  (h.below method (List.mem_filter.mp hm).1).below part (mem_children_of_parts v hp)

variable (textual : Fields.Textual p)
include textual

theorem held_interfaceOf (h : t.Held p) : (interfaceOf v t).Held p := by
  refine Vocabulary.held_mkNamed textual _ _ (List.forall_mem_cons.mpr
    ⟨Tree.held_leaf textual _, List.forall_mem_map.mpr fun method hm => ?_⟩)
  exact Vocabulary.held_mkNamed textual _ _ fun part hp => held_parts h hm hp

theorem held_mockFileOf (h : t.Held p) : (mockFileOf v t).Held p := by
  refine Tree.held_withChildren (Tree.held_withAttr textual (Tree.held_leaf textual _) _ _)
    (List.forall_mem_singleton.mpr ?_)
  refine Vocabulary.held_mkNamed textual _ _ (List.forall_mem_cons.mpr
    ⟨Tree.held_leaf textual _, List.forall_mem_cons.mpr ⟨Vocabulary.held_mkImplements textual _,
      List.forall_mem_map.mpr fun method hm => ?_⟩⟩)
  refine Vocabulary.held_mkNamed textual _ _ (List.forall_mem_append.mpr
    ⟨fun part hp => held_parts h hm hp, List.forall_mem_singleton.mpr ?_⟩)
  refine Vocabulary.held_node textual _ (List.forall_mem_singleton.mpr ?_)
  exact Vocabulary.held_node textual _
    (List.forall_mem_singleton.mpr (Vocabulary.held_mkIdentifier textual _))

theorem held_bundled (h : t.Held p) : (bundled v t).Held p := by
  have services : ∀ c ∈ services v t, c.Held p := fun c hc =>
    Tree.every_of_mem_outermostBelow h.below (List.mem_filter.mp (List.mem_filter.mp hc).1).1
  refine Vocabulary.held_node textual _
    (List.forall_mem_cons.mpr ⟨Tree.held_withChildren h ?_, ?_⟩)
  · exact List.forall_mem_map.mpr fun c hc => held_interfaceOf textual (services c hc)
  · exact List.forall_mem_map.mpr fun c hc => held_mockFileOf textual (services c hc)

theorem held_mocked (h : t.Held p) : (mocked v t).Held p :=
  Tree.every_mapOutermost (fun _ _ root => root) (fun _ _ hfile => held_bundled textual hfile) h

end ServiceMocks

/-! ## Pipelines of recipes -/

namespace Recipe

variable {options : RecipeOptions}

theorem held_of_find (textual : Fields.Textual p) {name : String} {pass : Pass (Except RuleError)}
    {made : Tree} (found : find options kinds name = .ok pass) (h : t.Held p)
    (run : pass.run t = .ok made) : made.Held p := by
  obtain ⟨v, hv, ⟨distinct, rfl⟩ | ⟨distinct, rfl⟩⟩ := of_find_eq_ok found
  · change (ScopeToThis.classTable v options).rewrite {} t = _ at run
    rw [ScopeToThis.rewrite_classTable v options distinct] at run
    split at run
    · exact Except.ok.inj run ▸ ScopeToThis.held_migrated textual options h
    · cases run
  · change (ServiceMocks.sourceTable v).rewrite {} t = _ at run
    rw [ServiceMocks.rewrite_sourceTable v distinct] at run
    obtain rfl := (Tree.unlessFault_eq_ok.mp run).2
    exact ServiceMocks.held_mocked textual h

variable {feed : Feed} {names : List String} {pipe : Pipeline (Except RuleError)} {output : Output}

/-- **What recipes make has the attributes of the tree**, and texts. -/
theorem held_of_run (textual : Fields.Textual p)
    (built : pipeline options kinds feed names = .ok pipe) (h : t.Held p)
    (run : pipe.run t = .ok output) : ∀ u ∈ output.toBundle.trees, u.Held p := by
  refine Pipeline.every_of_runPasses (fun pass mem s made hs run => ?_) h run
  obtain ⟨name, -, found⟩ := of_pipeline_eq_ok built pass mem
  exact held_of_find textual found hs run

theorem textual_canonical : Fields.Textual fun attrs => (Json.obj attrs).Canonical where
  empty := Json.canonical_empty
  insert _ _ _ h := Json.canonical_insert h trivial

theorem textual_floatFree : Fields.Textual fun attrs => (Json.obj attrs).FloatFree where
  empty := ⟨trivial, trivial⟩
  insert attrs key text h := by
    refine Json.every_obj.mpr ⟨trivial, fun member mem => ?_⟩
    rcases Fields.mem_of_mem_insert mem with rfl | mem
    · trivial
    · exact (Json.every_obj.mp h).2 member mem

/-- **What recipes make of a tree can be held and has no floats**, if the same holds of the tree. -/
theorem canonical_floatFree_of_run (built : pipeline options kinds feed names = .ok pipe)
    (canonical : t.Canonical) (float_free : t.FloatFree) (run : pipe.run t = .ok output) :
    ∀ u ∈ output.toBundle.trees, u.Canonical ∧ u.FloatFree :=
  fun u mem => ⟨held_of_run textual_canonical built canonical run u mem,
    held_of_run textual_floatFree built float_free run u mem⟩

end Recipe

end TreeRewrite
