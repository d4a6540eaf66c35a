import TreeRewrite.Tree.Basic

/-!
# Rules and tables

What to do with a tree is said by a `Table`: for some kinds, a rule.  A rule either only descends
with another table, or it matches: it carries up to three callbacks and the table for what lies
below the matched node.  So a path such as "a parameter inside the constructor of a class" is a
table inside a table.

Callbacks read and change a context of type `σ` and may fail with an `ε`; what they did to the
context stays done when they fail.
-/

set_option autoImplicit false

namespace TreeRewrite

/-- The result of a callback or of a walk below a node. -/
inductive Rewrite where
  /-- Keep the node that was handed in. -/
  | unchanged
  /-- Use this tree instead. -/
  | replaced (t : Tree)
deriving Repr, Inhabited

namespace Rewrite

/-- Is another tree used? -/
def isReplaced : Rewrite → Bool
  | .unchanged => false
  | .replaced _ => true

/-- The resulting tree, given the one that was handed in. -/
def resolve (r : Rewrite) (given : Tree) : Tree :=
  match r with
  | .unchanged => given
  | .replaced t => t

end Rewrite

/-- Why a callback gave up. -/
inductive RuleError where
  | shape (expected found : String)
  | failed (rule message : String)
deriving DecidableEq, Repr

/-- The words for a callback that gave up. -/
def RuleError.message : RuleError → String
  | .shape expected found =>
    s!"unexpected node shape: expected {expected}, found {found}"
  | .failed rule message => s!"rule '{rule}' failed: {message}"

/-- A computation of a callback: it changes the context, then gives a result or fails. -/
abbrev Action (σ ε α : Type) : Type := ExceptT ε (StateM σ) α

/-- The callbacks of a rule that matches. -/
structure Hooks (σ ε : Type) where
  /-- Decides whether a node of the kind is matched at all. -/
  filter? : Option (Tree → Action σ ε Bool) := none
  /-- Is called on the node as it was found, before what lies below it. -/
  visit? : Option (Tree → Action σ ε Rewrite) := none
  /-- Is called on the node over its rewritten children. -/
  leave? : Option (Tree → Action σ ε Rewrite) := none

mutual

/-- Rules by kind, and the names that were given a rule but stand for no kind. -/
inductive Table (σ ε : Type) where
  | mk (entries : List (Entry σ ε)) (ignored : List String)

/-- The rule for a kind, labelled with the name by which the kind was given. -/
inductive Entry (σ ε : Type) where
  | mk (kind : Kind) (label : String) (rule : Rule σ ε)

/-- What happens at a node of a kind. -/
inductive Rule (σ ε : Type) where
  /-- Descend with the table. -/
  | nested (table : Table σ ε)
  /-- Call the hooks, and descend with the table. -/
  | matched (hooks : Hooks σ ε) (table : Table σ ε)

end

variable {σ ε : Type}

namespace Entry

/-- The kind whose nodes the entry is for. -/
def kind : Entry σ ε → Kind
  | .mk kind _ _ => kind

/-- The name by which the kind was given. -/
def label : Entry σ ε → String
  | .mk _ label _ => label

/-- The rule of the entry. -/
def rule : Entry σ ε → Rule σ ε
  | .mk _ _ rule => rule

end Entry

namespace Rule

/-- The table for what lies below a matched node. -/
def table : Rule σ ε → Table σ ε
  | .nested table => table
  | .matched _ table => table

/-- The callbacks; a rule that only descends has none. -/
def hooks : Rule σ ε → Hooks σ ε
  | .nested _ => {}
  | .matched hooks _ => hooks

end Rule

namespace Table

/-- The table that matches nothing. -/
def empty : Table σ ε := .mk [] []

/-- The entries, in the order of their registration. -/
def entries : Table σ ε → List (Entry σ ε)
  | .mk entries _ => entries

/-- The names that stand for no kind, in the order of their registration. -/
def ignored : Table σ ε → List String
  | .mk _ ignored => ignored

/-- The entry for a kind. -/
def find? (table : Table σ ε) (kind : Kind) : Option (Entry σ ε) :=
  table.entries.find? (·.kind == kind)

/-- The number of kinds with a rule. -/
def size (table : Table σ ε) : Nat := table.entries.length

end Table

end TreeRewrite
