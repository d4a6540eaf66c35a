import TreeRewrite.Proofs.Traversal.Eager

/-!
# Many trees and one tree over them

The children of a node are rewritten one after the other in one session, as trees are that are given
to the session one by one.  If there is no entry for the node itself, nothing else is done at it but
that it is looked up.  So a session can be had in one rewrite, of any node over its trees.

The walk makes a list of results only where one of the children changed, and a session of many
rewrites resolves every tree by itself; so what is compared are the lists once they are filled up.

## What is here

* `Session.rewriteAll` — rewrites of several trees in a session, up to the first failure.
* `Session.rewriteAll_eq` — the same by the observed walk of several trees.
* `Session.rewrite_parent` — a rewrite of a node without an entry, by the rewrites of its children.
-/

set_option autoImplicit false

namespace TreeRewrite.Session

variable {σ ε : Type}

/-- Rewrites trees one after the other; the first failure ends it. -/
def rewriteAll (session : Session σ) (table : Table σ ε) :
    List Tree → Except ε (List Tree) × Session σ
  | [] => (.ok [], session)
  | t :: rest =>
    match session.rewrite table t with
    | (.error e, after) => (.error e, after)
    | (.ok t', after) =>
      let (results, last) := after.rewriteAll table rest
      (results.map (t' :: ·), last)

/-- **Trees that are rewritten one by one**, by the walk that goes through all of them. -/
theorem rewriteAll_eq (session : Session σ) (table : Table σ ε) (ts : List Tree) (index : Nat) :
    let run := Observed.examineAll ts table index session.context
    session.rewriteAll table ts
      = (run.result.map (·.getD ts),
        { context := run.context, stats := session.stats + tally run.events }) := by
  induction ts generalizing session index with
  | nil => rfl
  | cons t rest ih =>
    dsimp only at ih ⊢
    rw [rewriteAll, rewrite_eq, transcript, Observed.examineAll]
    rcases head : Observed.examine t table session.context with ⟨e | r, c, events⟩
    · rw [Observed.bind_of_error (Observed.inside_of_eq head index), tally_inside]
      rfl
    · rw [Observed.bind_of_ok (Observed.inside_of_eq head index)]
      simp only [Except.map]
      rw [ih _ (index + 1)]
      rcases tail : Observed.examineAll rest table (index + 1) c with ⟨e | rs, c', later⟩
      · rw [Observed.bind_of_error tail]
        simp [Transcript.after, Except.map, Stats.add_assoc]
      · rw [Observed.bind_of_ok tail]
        simp [Transcript.after, Except.map, Walk.consChildren_getD, Stats.add_assoc]

/-- **A session over many trees is one rewrite of a node over them**, if there is no entry for that
node.  It ends with the same error, or gives the node over the results; it leaves the same context,
and it counts the same but for the node itself, whether or not it fails. -/
theorem rewrite_parent (session : Session σ) (table : Table σ ε) (kind : Kind) (attrs : Fields)
    (ts : List Tree) (h : table.find? kind = none) :
    let parent : Tree := ⟨kind, attrs, ts⟩
    let (results, after) := session.rewriteAll table ts
    session.rewrite table parent
      = (results.map parent.rebuilt, { after with stats := after.stats + { visited := 1 } }) := by
  have own : Observed.admitted table ⟨kind, attrs, ts⟩ session.context
      = ⟨.ok none, session.context, [⟨[], .examined⟩]⟩ := by
    rw [Observed.admitted_apply]
    dsimp only
    rw [h]
  have counted (stats below : Stats) :
      stats + ((Deed.examined : Deed σ).stats + below) = stats + below + { visited := 1 } := by
    rw [Stats.add_assoc]
    congr 1
    ext <;> simp [Deed.stats, Nat.add_comm]
  dsimp only
  rw [session.rewriteAll_eq table ts 0, rewrite_eq, transcript, Observed.examine,
    Observed.bind_of_ok own]
  dsimp only
  rcases run : Observed.examineAll ts table 0 session.context with ⟨e | rs, c, events⟩
  · rw [Observed.bind_of_error run]
    simp [Transcript.after, Except.map, counted]
  · rw [Observed.bind_of_ok run]
    simp [Transcript.after, Except.map, Walk.rebuild_resolve, counted]

/-- Counts the nodes of kind 1, replaces those of kind 2, and fails at those of kind 3. -/
def counting : Table Nat String :=
  .mk [
    .mk ⟨1⟩ "" (.matched { visit? := some fun _ c => (.ok .unchanged, c + 1) } .empty),
    .mk ⟨2⟩ "" (.matched { leave? := some fun _ => return .replaced (.leaf ⟨4⟩) } .empty),
    .mk ⟨3⟩ "" (.matched { visit? := some fun _ _ => (.error "three", 7) } .empty)] []

theorem rewrite_parent_counting :
    counting.find? ⟨0⟩ = none ∧
    ({ context := 0 } : Session Nat).rewrite counting ⟨⟨0⟩, [], [.leaf ⟨1⟩, .leaf ⟨2⟩]⟩
      = (.ok ⟨⟨0⟩, [], [.leaf ⟨1⟩, .leaf ⟨4⟩]⟩,
        { context := 1, stats := { visited := 3, matched := 2, replaced := 1 } }) ∧
    ({ context := 0 } : Session Nat).rewrite counting ⟨⟨0⟩, [], [.leaf ⟨2⟩, .leaf ⟨3⟩, .leaf ⟨1⟩]⟩
      = (.error "three",
        { context := 7, stats := { visited := 3, matched := 2, replaced := 1 } }) :=
  ⟨rfl, rewrite_parent { context := 0 } counting ⟨0⟩ [] [.leaf ⟨1⟩, .leaf ⟨2⟩] rfl,
    rewrite_parent { context := 0 } counting ⟨0⟩ [] [.leaf ⟨2⟩, .leaf ⟨3⟩, .leaf ⟨1⟩] rfl⟩

end TreeRewrite.Session
