import TreeRewrite.Tree.Basic

/-!
# Bundles of trees

A rewrite that makes several trees of one returns them as the children of a single node, the bundle
node.  A `Bundle` is the list of these trees with their names: a tree is named by its `fileName`
attribute, and by its position if it has none.

* `Bundle.ofTree` — the trees of a bundle node.  Children of the node's own kind are bundles
  themselves and give their trees in place, at any depth (`Bundle.spread`).
* `Bundle.toTree` — the bundle node of a kind.
-/

set_option autoImplicit false

namespace TreeRewrite

/-- The attribute that names the file of a tree. -/
def fileNameAttr : String := "fileName"

/-- Named trees, in the order in which they were produced. -/
structure Bundle where
  entries : List (String × Tree) := []

namespace Bundle

/-- The bundle without trees. -/
def empty : Bundle := {}

/-- The number of trees. -/
def size (b : Bundle) : Nat := b.entries.length

/-- The names, in order. -/
def names (b : Bundle) : List String := b.entries.map Prod.fst

/-- The trees, in order. -/
def trees (b : Bundle) : List Tree := b.entries.map Prod.snd

/-- Adds a tree under a name. -/
def push (b : Bundle) (name : String) (t : Tree) : Bundle := ⟨b.entries ++ [(name, t)]⟩

/-- The name of a tree at a position. -/
def nameAt (index : Nat) (t : Tree) : String :=
  (t.attrStr? fileNameAttr).getD s!"output-{index}"

/-- Adds a tree under the name of its own. -/
def pushTree (b : Bundle) (t : Tree) : Bundle := b.push (nameAt b.size t) t

/-- The bundle of several trees. -/
def ofTrees (trees : List Tree) : Bundle := trees.foldl pushTree empty

/-- The bundle of one tree. -/
def single (t : Tree) : Bundle := ofTrees [t]

mutual

/-- The trees that a tree gives to a bundle node of the kind: itself, unless it is such a node. -/
def spread (kind : Kind) : Tree → List Tree
  | ⟨k, attrs, children⟩ =>
    if k == kind then spreadAll kind children else [⟨k, attrs, children⟩]

/-- The trees that several trees give, in order. -/
def spreadAll (kind : Kind) : List Tree → List Tree
  | [] => []
  | t :: rest => spread kind t ++ spreadAll kind rest

end

/-- The trees of a bundle node. -/
def ofTree (t : Tree) : Bundle := ofTrees (spreadAll t.kind t.children)

/-- The node that holds the trees. -/
def toTree (b : Bundle) (kind : Kind) : Tree := { kind, children := b.trees }

/-- The first tree, which is the rewritten input. -/
def primary? (b : Bundle) : Option Tree := b.trees.head?

/-- The first tree with the name. -/
def get? (b : Bundle) (name : String) : Option Tree := b.entries.lookup name

end Bundle

end TreeRewrite
