import TreeRewrite.Json.Basic
import TreeRewrite.Kind.Basic

/-!
# Trees

A tree is a node: a kind, named attributes and an ordered list of children.  Attributes are kept
sorted by name, so that trees with the same attributes are equal.  Everything here is a plain
operation on one node; `Tree.count` and `Tree.same` are the two that go through the whole tree.
-/

set_option autoImplicit false

namespace TreeRewrite

/-- A syntax tree. -/
structure Tree where
  kind : Kind
  attrs : Fields := []
  children : List Tree := []
deriving Repr, Inhabited

namespace Tree

/-- A node without attributes and children. -/
def leaf (kind : Kind) : Tree := { kind }

/-- Sets an attribute. -/
def withAttr (t : Tree) (key : String) (value : Json) : Tree :=
  { t with attrs := t.attrs.insert key value }

/-- Adds children behind those already there. -/
def withChildren (t : Tree) (more : List Tree) : Tree :=
  { t with children := t.children ++ more }

/-- Adds a child behind those already there. -/
def withChild (t : Tree) (child : Tree) : Tree := t.withChildren [child]

/-- The same kind and attributes over other children. -/
def rebuilt (t : Tree) (children : List Tree) : Tree := { t with children }

/-- Is the node of the kind? -/
def is (t : Tree) (kind : Kind) : Bool := t.kind == kind

/-- An attribute. -/
def attr? (t : Tree) (key : String) : Option Json := t.attrs.get? key

/-- An attribute that is a string. -/
def attrStr? (t : Tree) (key : String) : Option String := (t.attr? key).bind Json.str?

/-- The child at a position. -/
def child? (t : Tree) (index : Nat) : Option Tree := t.children[index]?

/-- The first child of a kind. -/
def firstChildOf? (t : Tree) (kind : Kind) : Option Tree := t.children.find? (·.is kind)

/-- The children of a kind, in order. -/
def childrenOf (t : Tree) (kind : Kind) : List Tree := t.children.filter (·.is kind)

mutual

/-- The number of nodes. -/
def count : Tree → Nat
  | ⟨_, _, children⟩ => 1 + countAll children

/-- The number of nodes of several trees. -/
def countAll : List Tree → Nat
  | [] => 0
  | t :: rest => t.count + countAll rest

end

mutual

/-- Are two trees equal?  Attributes are compared by `Json.same`. -/
def same : Tree → Tree → Bool
  | ⟨kind, attrs, children⟩, ⟨kind', attrs', children'⟩ =>
    kind == kind' && Json.sameFields attrs attrs' && sameAll children children'

/-- Are two lists of trees equal, one by one? -/
def sameAll : List Tree → List Tree → Bool
  | [], [] => true
  | t :: rest, u :: rest' => t.same u && sameAll rest rest'
  | _, _ => false

end

end Tree

end TreeRewrite
