import TreeRewrite.Proofs.Tree.Positions

/-!
# Trees put in the places of nodes

A tree is put in the place of a node together with all that lies below it.  So of several trees that
are given for positions one below the other, only the topmost is there in the end.

## What is here

* `Tree.graft news` — the tree in which `news` says what takes the place of the nodes.
* `Tree.at?_graft` — what is found at a position in it, if nothing was put in the place of a node
  above.
-/

set_option autoImplicit false

namespace TreeRewrite.Tree

mutual

/-- The tree with other trees in the places of some nodes, which are given by their positions. -/
def graft (news : List Nat → Option Tree) : Tree → Tree
  | ⟨kind, attrs, children⟩ => (news []).getD ⟨kind, attrs, graftAll news children 0⟩

/-- The same for the children of a node from the one with the index on. -/
def graftAll (news : List Nat → Option Tree) : List Tree → Nat → List Tree
  | [], _ => []
  | t :: rest, index =>
    t.graft (fun below => news (index :: below)) :: graftAll news rest (index + 1)

end

variable {news : List Nat → Option Tree} {t : Tree}

theorem graft_of_some {new : Tree} (h : news [] = some new) : t.graft news = new := by
  cases t
  rw [graft, h, Option.getD_some]

theorem graft_of_none (h : news [] = none) :
    t.graft news = t.rebuilt (graftAll news t.children 0) := by
  cases t
  rw [graft, h, Option.getD_none]
  rfl

theorem getElem?_graftAll (ts : List Tree) (index i : Nat) :
    (graftAll news ts index)[i]?
      = ts[i]?.map (·.graft fun below => news ((index + i) :: below)) := by
  induction ts generalizing index i with
  | nil => rfl
  | cons t rest ih =>
    cases i with
    | zero => rfl
    | succ i =>
      rw [graftAll, List.getElem?_cons_succ, List.getElem?_cons_succ, ih, Nat.add_right_comm]
      rfl

theorem length_graftAll (ts : List Tree) (index : Nat) :
    (graftAll news ts index).length = ts.length := by
  induction ts generalizing index with
  | nil => rfl
  | cons t rest ih => rw [graftAll, List.length_cons, ih, List.length_cons]

/-- **Below no replaced node, the tree is the one that was there**, with trees in the places of the
nodes at and below the position. -/
theorem at?_graft {position : List Nat}
    (h : ∀ above, above <+: position → above ≠ position → news above = none) :
    (t.graft news).at? position
      = (t.at? position).map (·.graft fun below => news (position ++ below)) := by
  induction position generalizing t news with
  | nil => rfl
  | cons i position ih =>
    have root : news [] = none := h [] List.nil_prefix (List.cons_ne_nil _ _ ·.symm)
    have below : ∀ above, above <+: position → above ≠ position → news (i :: above) = none := by
      intro above habove hne
      exact h (i :: above) (List.cons_prefix_cons.mpr ⟨rfl, habove⟩) (by simpa using hne)
    have child : (t.graft news).children[i]?
        = t.children[i]?.map (·.graft fun below => news (i :: below)) := by
      rw [graft_of_none root]
      show (graftAll news t.children 0)[i]? = _
      rw [getElem?_graftAll, Nat.zero_add]
    rw [at?, at?, child?, child?, child]
    cases t.children[i]? with
    | none => rfl
    | some child => exact ih below

end TreeRewrite.Tree
