import TreeRewrite.Bundle
import TreeRewrite.Traversal

/-!
# Pipelines

A pipeline runs passes one after the other, each on the tree that the one before it made.  When a
pass other than the last makes a bundle node, the `Feed` decides how to go on: with the whole
bundle, with its first tree, or not at all.

Passes are functions into a monad of the caller's choice; `Except` is the usual one.
-/

set_option autoImplicit false

namespace TreeRewrite

/-- What the next pass receives after a pass has made a bundle node. -/
inductive Feed where
  /-- The bundle node itself. -/
  | whole
  /-- The first tree of the bundle, or the bundle node if there is none. -/
  | primary
  /-- Nothing: the bundle is the result. -/
  | halt
deriving DecidableEq, Repr, Inhabited

/-- A text that names no feed, in lower case. -/
structure UnknownFeed where
  text : String

/-- The words for a text that names no feed. -/
def UnknownFeed.message (e : UnknownFeed) : String :=
  s!"invalid bundle feed '{e.text}', expected one of: whole, primary, halt"

namespace Feed

/-- The name of a feed. -/
def name : Feed → String
  | .whole => "whole"
  | .primary => "primary"
  | .halt => "halt"

/-- The feed that a text names; ASCII letters may be of either case. -/
def ofName (text : String) : Except UnknownFeed Feed :=
  match text.map Char.toLower with
  | "whole" => .ok .whole
  | "primary" => .ok .primary
  | "halt" => .ok .halt
  | other => .error ⟨other⟩

end Feed

/-- A named step of a pipeline. -/
structure Pass (m : Type → Type) where
  name : String
  run : Tree → m Tree

/-- The pass that rewrites by a table, each time from a fresh context. -/
def Pass.ofTable {σ ε : Type} (name : String) (table : Table σ ε) (fresh : σ) :
    Pass (Except ε) :=
  ⟨name, table.rewrite fresh⟩

/-- The result of a pipeline. -/
inductive Output where
  | tree (t : Tree)
  | bundle (b : Bundle)

/-- All trees of a result. -/
def Output.toBundle : Output → Bundle
  | .tree t => .single t
  | .bundle b => b

/-- Passes in order, the kind of bundle nodes, and what follows a bundle. -/
structure Pipeline (m : Type → Type) where
  passes : List (Pass m) := []
  /-- Without a kind, no node is a bundle. -/
  bundleKind? : Option Kind := none
  feed : Feed := .whole

/-- The name of the kind of bundle nodes. -/
def bundleName : String := "Bundle"

namespace Pipeline

variable {m : Type → Type}

/-- The pipeline without passes whose bundle nodes are of the kind of that name, if there is one. -/
def forKinds (kinds : KindTable) : Pipeline m := { bundleKind? := kinds.kindOf bundleName }

/-- Adds a pass behind those already there. -/
def push (p : Pipeline m) (pass : Pass m) : Pipeline m := { p with passes := p.passes ++ [pass] }

/-- The names of the passes. -/
def names (p : Pipeline m) : List String := p.passes.map Pass.name

/-- Is the node a bundle? -/
def isBundle (p : Pipeline m) (t : Tree) : Bool := p.bundleKind? == some t.kind

/-- The result that ends with a tree. -/
def classify (p : Pipeline m) (t : Tree) : Output :=
  if p.isBundle t then .bundle (.ofTree t) else .tree t

/-- Runs passes of the pipeline on a tree. -/
def runPasses [Monad m] (p : Pipeline m) : List (Pass m) → Tree → m Output
  | [], t => return p.classify t
  | [pass], t => do return p.classify (← pass.run t)
  | pass :: next :: rest, t => do
    let t ← pass.run t
    if p.isBundle t then
      match p.feed with
      | .whole => p.runPasses (next :: rest) t
      | .primary => p.runPasses (next :: rest) ((Bundle.ofTree t).primary?.getD t)
      | .halt => return .bundle (.ofTree t)
    else p.runPasses (next :: rest) t

/-- Runs the pipeline on a tree. -/
def run [Monad m] (p : Pipeline m) (t : Tree) : m Output := p.runPasses p.passes t

end Pipeline

end TreeRewrite
