import TreeRewrite.Pattern.Basic

/-!
# Rewriting a tree by a table

A node is matched when the table in force has an entry for its kind and the entry's filter, if any,
accepts it.  Below a matched node the entry's own table is in force, below any other node the same
table as above.  At a matched node,

* `visit` sees the node as it was found, before anything below it;
* then the children are rewritten, always those of the node that was found;
* `leave` sees the node over its rewritten children.

If there is a `leave`, its replacement is the result, and what `visit` gave is dropped; without a
`leave`, the replacement of `visit` is the result, and the rewritten children are dropped.  Where
nothing is replaced the result is the node over its rewritten children.

A `Session` is what callbacks share: their context, and the counters of what has been done.  It
survives a failure, which stops the walk at once.
-/

set_option autoImplicit false

namespace TreeRewrite

/-- What has been done so far. -/
structure Stats where
  /-- Nodes looked up in a table. -/
  visited : Nat := 0
  /-- Nodes at which a rule was applied. -/
  matched : Nat := 0
  /-- Nodes that a filter declined. -/
  rejected : Nat := 0
  /-- Replacements that took effect. -/
  replaced : Nat := 0
deriving DecidableEq, Repr, Inhabited

/-- The state of a traversal: the callbacks' context and the counters. -/
structure Session (σ : Type) where
  context : σ
  stats : Stats := {}

/-- A part of a traversal. -/
abbrev Walk (σ ε α : Type) : Type := ExceptT ε (StateM (Session σ)) α

namespace Walk

variable {σ ε α : Type}

/-- Runs a callback on the context of the session. -/
def call (action : Action σ ε α) : Walk σ ε α := fun session =>
  let (result, context) := action session.context
  (result, { session with context })

/-- Changes the counters. -/
def tally (f : Stats → Stats) : Walk σ ε Unit :=
  modify fun session => { session with stats := f session.stats }

/-- Counts a replacement that takes effect. -/
def tallyReplaced : Walk σ ε Unit := tally fun s => { s with replaced := s.replaced + 1 }

/-- The rule that applies at a node, if any. -/
def admitted (table : Table σ ε) (t : Tree) : Walk σ ε (Option (Rule σ ε)) := do
  tally fun s => { s with visited := s.visited + 1 }
  match table.find? t.kind with
  | none => return none
  | some entry =>
    let accepted ← match entry.rule.hooks.filter? with
      | none => pure true
      | some filter => call (filter t)
    if accepted then
      tally fun s => { s with matched := s.matched + 1 }
      return some entry.rule
    else
      tally fun s => { s with rejected := s.rejected + 1 }
      return none

/-- Calls `visit`, if the rule has one. -/
def visit (rule : Rule σ ε) (t : Tree) : Walk σ ε Rewrite :=
  match rule.hooks.visit? with
  | none => return .unchanged
  | some visit => call (visit t)

/-- The result at a matched node, from what `visit` gave and the rewrite of the children. -/
def leave (rule : Rule σ ε) (t : Tree) (visited below : Rewrite) : Walk σ ε Rewrite := do
  let verdict ← match rule.hooks.leave? with
    | none => pure visited
    | some leave => call (leave (below.resolve t))
  match verdict with
  | .unchanged => return below
  | .replaced t' =>
    tallyReplaced
    return .replaced t'

/-- A node over its children, which are none if none of them changed. -/
def rebuild (t : Tree) : Option (List Tree) → Rewrite
  | none => .unchanged
  | some children => .replaced (t.rebuilt children)

/-- A list of children from the first of them and the rest. -/
def consChildren (t : Tree) (rest : List Tree) : Rewrite → Option (List Tree) → Option (List Tree)
  | .unchanged, none => none
  | head, tail => some (head.resolve t :: tail.getD rest)

mutual

/-- Rewrites a tree under the table in force at its root. -/
def examine : Tree → Table σ ε → Walk σ ε Rewrite
  | ⟨kind, attrs, children⟩, table => do
    let t : Tree := ⟨kind, attrs, children⟩
    match ← admitted table t with
    | none => return rebuild t (← examineAll children table)
    | some rule =>
      let visited ← visit rule t
      let below := rebuild t (← examineAll children rule.table)
      leave rule t visited below

/-- Rewrites the children of a node from the first to the last; none if none of them changed. -/
def examineAll : List Tree → Table σ ε → Walk σ ε (Option (List Tree))
  | [], _ => return none
  | t :: rest, table => do
    let head ← examine t table
    let tail ← examineAll rest table
    return consChildren t rest head tail

end

end Walk

variable {σ ε : Type}

/-- Rewrites a tree in a session. -/
def Session.rewrite (session : Session σ) (table : Table σ ε) (t : Tree) :
    Except ε Tree × Session σ :=
  match Walk.examine t table session with
  | (.ok result, session') => (.ok (result.resolve t), session')
  | (.error e, session') => (.error e, session')

/-- Rewrites a tree from a context, and gives the context that is left. -/
def Table.rewriteWith (table : Table σ ε) (context : σ) (t : Tree) : Except ε (Tree × σ) :=
  match ({ context } : Session σ).rewrite table t with
  | (.ok t', session) => .ok (t', session.context)
  | (.error e, _) => .error e

/-- Rewrites a tree from a fresh context. -/
def Table.rewrite (table : Table σ ε) (fresh : σ) (t : Tree) : Except ε Tree :=
  (table.rewriteWith fresh t).map Prod.fst

end TreeRewrite
