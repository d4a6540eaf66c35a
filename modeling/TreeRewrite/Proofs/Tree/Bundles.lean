import Mathlib.Data.List.Basic
import Mathlib.Data.List.Induction
import Mathlib.Logic.Relation
import TreeRewrite.Bundle
import TreeRewrite.Proofs.Tree.Outermost

/-!
# What is in a bundle node

A bundle node gives its children to a bundle, and in the place of those that are bundle nodes
themselves what these give.  So the trees of a bundle are the nodes that are reached through bundle
nodes alone, and how they are grouped on the way does not matter.  Neither does it matter for their
names: a tree that has no name of its own is named by its place among the trees.

## What is here

* `Tree.held` — the nodes that are reached from a node through nodes of its own kind alone.  They
  are the trees that it gives to a bundle (`Bundle.ofTree_eq`).
* `Bundle.entries_ofTrees` — trees in a bundle and their names.
* `Bundle.Wraps`, `Bundle.Regrouped` — lists of trees that differ by nodes of a kind around some of
  them.
* `Bundle.Built` — bundles in which every tree stands under the name of its own.
* `Bundle.views_keep_trees` — **nothing is lost, doubled or moved** on the way from nodes to bundles
  and from bundles to nodes.
-/

set_option autoImplicit false

namespace TreeRewrite

/-- The nodes below a node that are of another kind than it, while all that are above them are of
its kind; from left to right. -/
def Tree.held (n : Tree) : List Tree :=
  (n.preorder.filter fun (position, s) =>
    !s.is n.kind && (n.above position).all (·.is n.kind)).map Prod.snd

namespace Bundle

/-! ## Names -/

@[simp] theorem trees_pushTree (b : Bundle) (t : Tree) : (b.pushTree t).trees = b.trees ++ [t] :=
  List.map_append

theorem ofTrees_concat (ts : List Tree) (t : Tree) :
    ofTrees (ts ++ [t]) = (ofTrees ts).pushTree t := List.foldl_concat ..

@[simp] theorem trees_ofTrees (ts : List Tree) : (ofTrees ts).trees = ts := by
  induction ts using List.reverseRecOn with
  | nil => rfl
  | append_singleton ts t ih => rw [ofTrees_concat, trees_pushTree, ih]

/-- **A tree is named by itself**, or by its place among the trees. -/
theorem entries_ofTrees (ts : List Tree) :
    (ofTrees ts).entries = ts.mapIdx fun index t => (nameAt index t, t) := by
  induction ts using List.reverseRecOn with
  | nil => rfl
  | append_singleton ts t ih =>
    rw [ofTrees_concat, List.mapIdx_concat, pushTree, push, size, ih, List.length_mapIdx]

/-! ## The trees of a bundle node -/

section

variable (kind : Kind)

theorem spreadAll_eq (ts : List Tree) : spreadAll kind ts = ts.flatMap (spread kind) := by
  induction ts with
  | nil => rfl
  | cons t rest ih => rw [spreadAll, ih, List.flatMap_cons]

theorem spreadAll_append (ts ts' : List Tree) :
    spreadAll kind (ts ++ ts') = spreadAll kind ts ++ spreadAll kind ts' := by
  simp only [spreadAll_eq, List.flatMap_append]

/-- A node of the kind gives what its children give. -/
theorem spreadAll_node (attrs : Fields) (ts rest : List Tree) :
    spreadAll kind (⟨kind, attrs, ts⟩ :: rest) = spreadAll kind (ts ++ rest) := by
  rw [spreadAll, spread, if_pos (beq_self_eq_true kind), spreadAll_append]

/-- A tree gives its outermost nodes of another kind. -/
theorem spread_eq : spread kind = Tree.outermost fun s => !s.is kind := by
  funext t
  induction t using Tree.induction with
  | node t ih =>
    rw [Tree.outermost_eq, Tree.outermostBelow, ← List.flatMap_congr ih, Tree.is]
    obtain ⟨k, attrs, children⟩ := t
    rw [spread, spreadAll_eq]
    cases k == kind <;> rfl

/-- Trees of other kinds give themselves. -/
theorem spreadAll_of_forall_ne {ts : List Tree} (h : ∀ t ∈ ts, t.kind ≠ kind) :
    spreadAll kind ts = ts := by
  rw [spreadAll_eq, spread_eq]
  exact Tree.flatMap_outermost_of_pos fun t ht => by simpa [Tree.is] using h t ht

end

/-- What a node gives to a bundle are the outermost nodes of another kind below it. -/
theorem held_eq (n : Tree) : n.held = n.outermostBelow fun s => !s.is n.kind := by
  have root : (!n.is n.kind) = false := by simp [Tree.is]
  rw [← Tree.outermost_of_neg root, Tree.outermost_eq_filter, Tree.held]
  congr 2
  funext place
  simp [Tree.isOutermostAt]

/-- **What is reached through bundle nodes is in the bundle**, and nothing else. -/
theorem ofTree_eq (n : Tree) : ofTree n = ofTrees n.held := by
  rw [ofTree, spreadAll_eq, spread_eq, held_eq, Tree.outermostBelow]

/-- What holds of all nodes of a tree holds of all nodes of the trees that it gives to a bundle. -/
theorem every_of_mem_ofTree {q : Tree → Prop} {n u : Tree} (h : n.Every q)
    (hu : u ∈ (ofTree n).trees) : u.Every q := by
  rw [ofTree_eq, trees_ofTrees, held_eq] at hu
  exact Tree.every_of_mem_outermostBelow (Tree.every_iff.mp h).2 hu

/-! ## Other groupings -/

/-- The second trees are the first ones with a node of the kind around some neighbours among them,
or in a node of the kind among them. -/
inductive Wraps (kind : Kind) : List Tree → List Tree → Prop
  | around (before inside after : List Tree) (attrs : Fields) :
      Wraps kind (before ++ inside ++ after) (before ++ ⟨kind, attrs, inside⟩ :: after)
  | within (before after : List Tree) (attrs : Fields) {ts ts' : List Tree}
      (h : Wraps kind ts ts') :
      Wraps kind (before ++ ⟨kind, attrs, ts⟩ :: after) (before ++ ⟨kind, attrs, ts'⟩ :: after)

/-- The trees come from each other by putting nodes of the kind around neighbours and by taking them
away, any number of times. -/
def Regrouped (kind : Kind) : List Tree → List Tree → Prop := Relation.EqvGen (Wraps kind)

theorem Wraps.spreadAll_eq {kind : Kind} {ts ts' : List Tree} (h : Wraps kind ts ts') :
    spreadAll kind ts = spreadAll kind ts' := by
  induction h with
  | around before inside after attrs =>
    rw [List.append_assoc, spreadAll_append, spreadAll_append _ before, spreadAll_node]
  | within before after attrs _ ih =>
    simp only [spreadAll_append, spreadAll_node, ih]

theorem Regrouped.spreadAll_eq {kind : Kind} {ts ts' : List Tree} (h : Regrouped kind ts ts') :
    spreadAll kind ts = spreadAll kind ts' := by
  induction h with
  | rel _ _ wraps => exact wraps.spreadAll_eq
  | refl _ => rfl
  | symm _ _ _ ih => exact ih.symm
  | trans _ _ _ _ _ ih ih' => exact ih.trans ih'

/-! ## Bundles from trees -/

/-- Bundles that are made of a tree, or by a bundle node, or by adding trees under their own
names. -/
inductive Built : Bundle → Prop
  | single (t : Tree) : Built (.single t)
  | ofTree (n : Tree) : Built (.ofTree n)
  | pushTree {b : Bundle} (h : Built b) (t : Tree) : Built (b.pushTree t)

/-- In such a bundle the names are what the trees make them. -/
theorem Built.ofTrees_trees {b : Bundle} (h : Built b) : ofTrees b.trees = b := by
  induction h with
  | single t => rw [Bundle.single, trees_ofTrees]
  | ofTree n => rw [ofTree_eq, trees_ofTrees]
  | pushTree _ t ih => rw [trees_pushTree, ofTrees_concat, ih]

/-- **Bundles and nodes are views of each other.**  A node gives to a bundle exactly the nodes of
another kind that are reached through nodes of its own kind, in order; how they are grouped into
nodes of this kind on the way does not change the bundle.  The node that is made of the bundle gives
the bundle again, and so does every node that is made of a bundle of trees of other kinds. -/
theorem views_keep_trees :
    (∀ n, (ofTree n).entries = n.held.mapIdx fun index t => (nameAt index t, t)) ∧
    (∀ n n' : Tree, n.kind = n'.kind → Regrouped n.kind n.children n'.children →
      ofTree n = ofTree n') ∧
    (∀ n, ofTree ((ofTree n).toTree n.kind) = ofTree n) ∧
    ∀ b kind, Built b → (∀ t ∈ b.trees, t.kind ≠ kind) → ofTree (b.toTree kind) = b := by
  have back (b : Bundle) (kind : Kind) (built : Built b) (others : ∀ t ∈ b.trees, t.kind ≠ kind) :
      ofTree (b.toTree kind) = b := by
    rw [ofTree, toTree, spreadAll_of_forall_ne kind others, built.ofTrees_trees]
  refine ⟨fun n => ?_, fun n n' kinds h => ?_, fun n => back _ _ (.ofTree n) fun t ht => ?_, back⟩
  · rw [ofTree_eq, entries_ofTrees]
  · rw [ofTree, ofTree, h.spreadAll_eq, kinds]
  · rw [ofTree_eq, trees_ofTrees, held_eq] at ht
    simpa [Tree.is] using Tree.of_mem_outermostBelow ht

/-- A bundle in a bundle: whether its trees are grouped or not, the second is named by its place. -/
theorem views_keep_trees_nested :
    let file : Tree := ⟨⟨265⟩, [(fileNameAttr, .str "a.ts")], [.leaf ⟨207⟩]⟩
    let block : Tree := ⟨⟨207⟩, [], [.leaf ⟨266⟩]⟩
    let nested : Tree := ⟨⟨266⟩, [], [⟨⟨266⟩, [], [file, .leaf ⟨266⟩]⟩, block]⟩
    (ofTree nested).entries = [("a.ts", file), ("output-1", block)] ∧
      ofTree nested = ofTree ⟨⟨266⟩, [], [file, .leaf ⟨266⟩, block]⟩ ∧
      ofTree ((ofTree nested).toTree ⟨99⟩) = ofTree nested := by
  intro file block nested
  obtain ⟨held, regrouped, -, rebuilt⟩ := views_keep_trees
  refine ⟨(held nested).trans rfl, regrouped nested _ rfl ?_, rebuilt _ _ (.ofTree nested) ?_⟩
  · exact .symm _ _ (.rel _ _ (.around [] [file, .leaf ⟨266⟩] [block] []))
  · decide

end Bundle

end TreeRewrite
