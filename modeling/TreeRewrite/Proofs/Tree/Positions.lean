import TreeRewrite.Tree.Basic

/-!
# Positions in a tree

A node of a tree is named by its position, the list of child indices that leads to it from the
root, for the same tree may stand at several positions.

## What is here

* `Tree.at?` — the tree at a position, if the position is one of the tree, and `Tree.above`, the
  nodes on the way to it.
* `Tree.preorder`, `Tree.postorder` — the nodes of a tree with their positions, every node before
  what lies below it and every node behind it.  The first lists exactly what `Tree.at?`
  finds (`Tree.mem_preorder`).
* `Tree.Every`, `Tree.EveryBelow` — a property that a tree has at each of its positions, or at each
  but the root.
-/

set_option autoImplicit false

namespace TreeRewrite.Tree

/-- The tree at a position. -/
def at? (t : Tree) : List Nat → Option Tree
  | [] => some t
  | index :: position => (t.child? index).bind fun child => child.at? position

@[simp] theorem at?_nil (t : Tree) : t.at? [] = some t := rfl

theorem at?_cons_eq_some {t s : Tree} {index : Nat} {position : List Nat} :
    t.at? (index :: position) = some s
      ↔ ∃ child, t.children[index]? = some child ∧ child.at? position = some s :=
  Option.bind_eq_some_iff

/-- What is found below a node is found from the node. -/
theorem at?_append (t : Tree) (above below : List Nat) :
    t.at? (above ++ below) = (t.at? above).bind fun s => s.at? below := by
  induction above generalizing t with
  | nil => rfl
  | cons index above ih =>
    show ((t.child? index).bind fun child => child.at? (above ++ below)) = _
    rw [at?, Option.bind_assoc]
    simp only [ih]

/-- The nodes on the way to a position, from the root on, without the one that is there. -/
def above (t : Tree) : List Nat → List Tree
  | [] => []
  | index :: position => t :: (t.child? index).elim [] fun child => child.above position

theorem above_cons {t child : Tree} {index : Nat} (h : t.children[index]? = some child)
    (position : List Nat) : t.above (index :: position) = t :: child.above position := by
  rw [above, child?, h, Option.elim_some]

/-- Has a tree the property at each of its positions? -/
def Every (p : Tree → Prop) (t : Tree) : Prop := ∀ position s, t.at? position = some s → p s

/-- Has every node below the root the property? -/
def EveryBelow (p : Tree → Prop) (t : Tree) : Prop := ∀ child ∈ t.children, child.Every p

theorem every_iff {p : Tree → Prop} {t : Tree} :
    t.Every p ↔ p t ∧ ∀ child ∈ t.children, child.Every p := by
  constructor
  · refine fun h => ⟨h [] t rfl, fun child hc position s hs => ?_⟩
    obtain ⟨index, hi⟩ := List.getElem?_of_mem hc
    exact h (index :: position) s (at?_cons_eq_some.mpr ⟨child, hi, hs⟩)
  · rintro ⟨root, below⟩ position s hs
    cases position with
    | nil => exact Option.some.inj hs ▸ root
    | cons index position =>
      obtain ⟨child, hi, hs⟩ := at?_cons_eq_some.mp hs
      exact below child (List.mem_of_getElem? hi) position s hs

theorem every_mk {p : Tree → Prop} {kind : Kind} {attrs : Fields} {children : List Tree} :
    (Tree.mk kind attrs children).Every p
      ↔ p ⟨kind, attrs, children⟩ ∧ ∀ child ∈ children, child.Every p := every_iff

theorem Every.here {p : Tree → Prop} {t : Tree} (h : t.Every p) : p t := (every_iff.mp h).1

theorem Every.below {p : Tree → Prop} {t : Tree} (h : t.Every p) : t.EveryBelow p :=
  (every_iff.mp h).2

/-- What holds of all nodes of a tree holds of all nodes of the trees in it. -/
theorem Every.at? {p : Tree → Prop} {t s : Tree} {position : List Nat} (h : t.Every p)
    (hs : t.at? position = some s) : s.Every p := fun below u hu =>
  h (position ++ below) u (by rw [at?_append, hs]; exact hu)

/-- What holds of all nodes below a node holds of all nodes below each of them. -/
theorem EveryBelow.every {p : Tree → Prop} {t : Tree} (h : t.EveryBelow p) :
    t.Every (EveryBelow p) := by
  refine every_iff.mpr ⟨h, fun child hc position s hs => ?_⟩
  exact ((h child hc).at? hs).below

/-- Where the root is of the kind, what holds below all nodes of the kind is what holds below the
root. -/
theorem every_ofKind_iff {p : Tree → Prop} {t : Tree} {kind : Kind} (h : t.kind = kind) :
    (t.Every fun s => s.kind = kind → s.EveryBelow p) ↔ t.EveryBelow p := by
  refine ⟨fun all => all [] t rfl h, fun below position s hs _ => ?_⟩
  exact below.every position s hs

/-! ## Listings -/

mutual

/-- The nodes of a tree with their positions, every node before those below it. -/
def preorder : Tree → List (List Nat × Tree)
  | ⟨kind, attrs, children⟩ => ([], ⟨kind, attrs, children⟩) :: preorderAll children 0

/-- The nodes of the children of a node from the one with the index on. -/
def preorderAll : List Tree → Nat → List (List Nat × Tree)
  | [], _ => []
  | t :: rest, index =>
    (t.preorder.map fun (position, s) => (index :: position, s)) ++ preorderAll rest (index + 1)

end

mutual

/-- The nodes of a tree with their positions, every node behind those below it. -/
def postorder : Tree → List (List Nat × Tree)
  | ⟨kind, attrs, children⟩ => postorderAll children 0 ++ [([], ⟨kind, attrs, children⟩)]

/-- The nodes of the children of a node from the one with the index on. -/
def postorderAll : List Tree → Nat → List (List Nat × Tree)
  | [], _ => []
  | t :: rest, index =>
    (t.postorder.map fun (position, s) => (index :: position, s)) ++ postorderAll rest (index + 1)

end

/-- Below a node every position leads into a child. -/
theorem cons_of_mem_postorderAll {ts : List Tree} {index : Nat} {place : List Nat × Tree}
    (h : place ∈ postorderAll ts index) :
    ∃ (i : Nat) (position : List Nat), index ≤ i ∧ place.1 = i :: position := by
  induction ts generalizing index with
  | nil => cases h
  | cons t rest ih =>
    rcases List.mem_append.mp h with h | h
    · obtain ⟨⟨position, s⟩, -, rfl⟩ := List.mem_map.mp h
      exact ⟨index, position, Nat.le_refl _, rfl⟩
    · obtain ⟨i, position, hle, hp⟩ := ih h
      exact ⟨i, position, Nat.le_of_succ_le hle, hp⟩

theorem mem_preorderAll {ts : List Tree} {index : Nat} {place : List Nat × Tree} :
    place ∈ preorderAll ts index
      ↔ ∃ (i : Nat) (t : Tree) (position : List Nat) (s : Tree),
          ts[i]? = some t ∧ (position, s) ∈ t.preorder ∧ place = ((index + i) :: position, s) := by
  induction ts generalizing index with
  | nil => simp [preorderAll]
  | cons t rest ih =>
    rw [preorderAll, List.mem_append, List.mem_map, ih]
    constructor
    · rintro (⟨⟨position, s⟩, hs, rfl⟩ | ⟨i, t', position, s, hi, hs, rfl⟩)
      · exact ⟨0, t, position, s, rfl, hs, rfl⟩
      · exact ⟨i + 1, t', position, s, hi, hs, by rw [Nat.add_right_comm, Nat.add_assoc]⟩
    · rintro ⟨_ | i, t', position, s, hi, hs, rfl⟩
      · exact .inl ⟨(position, s), Option.some.inj hi ▸ hs, rfl⟩
      · exact .inr ⟨i, t', position, s, hi, hs, by rw [Nat.add_right_comm, Nat.add_assoc]⟩

/-- The listing has every node of the tree, at its position. -/
theorem mem_preorder {t s : Tree} {position : List Nat} :
    (position, s) ∈ t.preorder ↔ t.at? position = some s := by
  induction position generalizing t with
  | nil =>
    obtain ⟨kind, attrs, ts⟩ := t
    simp [preorder, mem_preorderAll, eq_comm]
  | cons i position ih =>
    obtain ⟨kind, attrs, ts⟩ := t
    rw [at?_cons_eq_some]
    simp only [preorder, List.mem_cons, mem_preorderAll, Nat.zero_add]
    constructor
    · rintro (hroot | ⟨j, child, position', s', hj, hs, heq⟩)
      · cases hroot
      · cases heq
        exact ⟨child, hj, ih.mp hs⟩
    · rintro ⟨child, hi, hs⟩
      exact .inr ⟨i, child, position, s, hi, ih.mpr hs, rfl⟩

mutual

theorem length_preorder : ∀ t : Tree, t.preorder.length = t.count
  | ⟨_, _, children⟩ => by
    rw [preorder, List.length_cons, length_preorderAll children 0, count, Nat.add_comm]

theorem length_preorderAll : ∀ (ts : List Tree) (index : Nat),
    (preorderAll ts index).length = countAll ts
  | [], _ => rfl
  | t :: rest, index => by
    rw [preorderAll, List.length_append, List.length_map, length_preorder t,
      length_preorderAll rest (index + 1), countAll]

end

theorem root_mem_preorder (t : Tree) : ([], t) ∈ t.preorder := mem_preorder.mpr rfl

/-- The nodes of a tree at given positions are settled by the positions. -/
theorem filterMap_at? {t : Tree} {places : List (List Nat × Tree)}
    (h : ∀ place ∈ places, t.at? place.1 = some place.2) :
    ((places.map Prod.fst).filterMap fun position => (t.at? position).map (position, ·))
      = places := by
  induction places with
  | nil => rfl
  | cons place rest ih =>
    obtain ⟨here, later⟩ := List.forall_mem_cons.mp h
    rw [List.map_cons, List.filterMap_cons, here, Option.map_some, ih later]

end TreeRewrite.Tree
