import TreeRewrite.Proofs.Tree.Positions

/-!
# The outermost nodes of a tree

A walk that looks for nodes of a kind and does not look below those that it found comes to the
*outermost* ones: the nodes that have the property, while none above them has it.

## What is here

* `Tree.induction` — to show something of all trees, show it of a node whose children have it.
* `Tree.outermost p` — the outermost nodes with the property `p`, from left to right, and
  `Tree.outermostBelow p`, those below the root.  They are the nodes of the listing at which
  `Tree.isOutermostAt p` says so (`Tree.outermost_eq_filter`).
* `Tree.mapOutermost p f` — the tree in which `f` has put another tree in the place of each of
  them and everything else is as it was, and `Tree.mapBelow p f`, which leaves the root alone.
* `Tree.mapOutermostM p f` — the same where `f` has effects.  If the new trees do not depend on the
  effects, it is all effects, node by node, and then the change (`Tree.mapOutermostM_eq_forM`).
* `Tree.unlessFault` — a result unless there is a fault.  A change that fails at the nodes at fault
  fails with the first of their faults (`Tree.mapOutermostM_unlessFault`).
-/

set_option autoImplicit false

namespace TreeRewrite.Tree

/-! ## Induction -/

mutual

/-- Induction on trees. -/
@[elab_as_elim]
theorem induction {motive : Tree → Prop}
    (node : ∀ t, (∀ child ∈ t.children, motive child) → motive t) : ∀ t, motive t
  | ⟨kind, attrs, children⟩ => node ⟨kind, attrs, children⟩ (induction_all node children)

theorem induction_all {motive : Tree → Prop}
    (node : ∀ t, (∀ child ∈ t.children, motive child) → motive t) :
    ∀ ts : List Tree, ∀ t ∈ ts, motive t
  | [] => nofun
  | t :: rest => List.forall_mem_cons.mpr ⟨induction node t, induction_all node rest⟩

end

@[simp] theorem kind_rebuilt (t : Tree) (children : List Tree) :
    (t.rebuilt children).kind = t.kind := rfl

@[simp] theorem attrs_rebuilt (t : Tree) (children : List Tree) :
    (t.rebuilt children).attrs = t.attrs := rfl

@[simp] theorem children_rebuilt (t : Tree) (children : List Tree) :
    (t.rebuilt children).children = children := rfl

@[simp] theorem withChildren_nil (t : Tree) : t.withChildren [] = t := by
  cases t
  rw [withChildren, List.append_nil]

/-! ## Listing and changing the outermost nodes -/

variable (p : Tree → Bool)

mutual

/-- The outermost nodes with the property, from left to right. -/
def outermost : Tree → List Tree
  | ⟨kind, attrs, children⟩ =>
    if p ⟨kind, attrs, children⟩ then [⟨kind, attrs, children⟩] else outermostAll children

/-- The outermost nodes with the property in several trees. -/
def outermostAll : List Tree → List Tree
  | [] => []
  | t :: rest => outermost t ++ outermostAll rest

end

mutual

/-- The tree with other trees in the place of the outermost nodes with the property. -/
def mapOutermost (f : Tree → Tree) : Tree → Tree
  | ⟨kind, attrs, children⟩ =>
    if p ⟨kind, attrs, children⟩ then f ⟨kind, attrs, children⟩
    else ⟨kind, attrs, mapOutermostAll f children⟩

/-- Trees with other trees in the place of the outermost nodes with the property. -/
def mapOutermostAll (f : Tree → Tree) : List Tree → List Tree
  | [] => []
  | t :: rest => mapOutermost f t :: mapOutermostAll f rest

end

/-- The outermost nodes with the property among those below the root. -/
def outermostBelow (t : Tree) : List Tree := t.children.flatMap (outermost p)

/-- The tree with other trees in the place of the outermost nodes with the property below the
root. -/
def mapBelow (f : Tree → Tree) (t : Tree) : Tree := t.rebuilt (t.children.map (mapOutermost p f))

theorem outermostAll_eq (ts : List Tree) : outermostAll p ts = ts.flatMap (outermost p) := by
  induction ts with
  | nil => rfl
  | cons t rest ih => rw [outermostAll, ih, List.flatMap_cons]

theorem mapOutermostAll_eq (f : Tree → Tree) (ts : List Tree) :
    mapOutermostAll p f ts = ts.map (mapOutermost p f) := by
  induction ts with
  | nil => rfl
  | cons t rest ih => rw [mapOutermostAll, ih, List.map_cons]

theorem outermost_eq (t : Tree) : outermost p t = if p t then [t] else outermostBelow p t := by
  obtain ⟨kind, attrs, children⟩ := t
  rw [outermost, outermostAll_eq]
  rfl

theorem mapOutermost_eq (f : Tree → Tree) (t : Tree) :
    mapOutermost p f t = if p t then f t else mapBelow p f t := by
  obtain ⟨kind, attrs, children⟩ := t
  rw [mapOutermost, mapOutermostAll_eq]
  rfl

variable {p} {f : Tree → Tree} {t : Tree}

theorem outermost_of_pos (h : p t = true) : outermost p t = [t] := by rw [outermost_eq, if_pos h]

theorem outermost_of_neg (h : p t = false) : outermost p t = outermostBelow p t := by
  rw [outermost_eq, if_neg (by rw [h]; exact Bool.false_ne_true)]

theorem mapOutermost_of_pos (h : p t = true) : mapOutermost p f t = f t := by
  rw [mapOutermost_eq, if_pos h]

theorem mapOutermost_of_neg (h : p t = false) : mapOutermost p f t = mapBelow p f t := by
  rw [mapOutermost_eq, if_neg (by rw [h]; exact Bool.false_ne_true)]

/-- The nodes that are listed have the property. -/
theorem of_mem_outermost {s : Tree} (h : s ∈ outermost p t) : p s = true := by
  induction t using Tree.induction with
  | node t ih =>
    rw [outermost_eq] at h
    split at h
    · rename_i hp
      exact List.mem_singleton.mp h ▸ hp
    · obtain ⟨child, hc, hs⟩ := List.mem_flatMap.mp h
      exact ih child hc hs

theorem of_mem_outermostBelow {s : Tree} (h : s ∈ outermostBelow p t) : p s = true := by
  obtain ⟨child, -, hs⟩ := List.mem_flatMap.mp h
  exact of_mem_outermost hs

/-- The nodes that are listed are nodes of the tree. -/
theorem every_of_mem_outermost {q : Tree → Prop} {s : Tree} (h : t.Every q)
    (hs : s ∈ outermost p t) : s.Every q := by
  induction t using Tree.induction with
  | node t ih =>
    rw [outermost_eq] at hs
    split at hs
    · exact List.mem_singleton.mp hs ▸ h
    · obtain ⟨child, hc, hs⟩ := List.mem_flatMap.mp hs
      exact ih child hc ((every_iff.mp h).2 child hc) hs

theorem every_of_mem_outermostBelow {q : Tree → Prop} {s : Tree} (h : t.EveryBelow q)
    (hs : s ∈ outermostBelow p t) : s.Every q := by
  obtain ⟨child, hc, hs⟩ := List.mem_flatMap.mp hs
  exact every_of_mem_outermost (h child hc) hs

/-- A tree in which no node has the property has no outermost one. -/
theorem outermost_eq_nil (h : t.Every fun s => p s = false) : outermost p t = [] := by
  induction t using Tree.induction with
  | node t ih =>
    obtain ⟨root, below⟩ := every_iff.mp h
    rw [outermost_of_neg root, outermostBelow, List.flatMap_eq_nil_iff]
    exact fun child hc => ih child hc (below child hc)

/-- A tree has an outermost node with the property if any of its nodes has it. -/
theorem every_of_outermost_eq_nil (h : outermost p t = []) : t.Every fun s => p s = false := by
  induction t using Tree.induction with
  | node t ih =>
    cases hp : p t with
    | true =>
      rw [outermost_of_pos hp] at h
      cases h
    | false =>
      rw [outermost_of_neg hp, outermostBelow, List.flatMap_eq_nil_iff] at h
      exact every_iff.mpr ⟨hp, fun child hc => ih child hc (h child hc)⟩

/-- A tree in which no node has the property stays as it is. -/
theorem mapOutermost_eq_self (h : t.Every fun s => p s = false) : mapOutermost p f t = t := by
  induction t using Tree.induction with
  | node t ih =>
    obtain ⟨root, below⟩ := every_iff.mp h
    rw [mapOutermost_of_neg root, mapBelow, List.map_congr_left (g := id)
      fun child hc => ih child hc (below child hc), List.map_id]
    cases t
    rfl

/-- Has the node at the place the property, and none of those above it? -/
def isOutermostAt (p : Tree → Bool) (t : Tree) (place : List Nat × Tree) : Bool :=
  p place.2 && (t.above place.1).all fun u => !p u

/-- **The outermost nodes are those with none above them** that has the property, in the order of
the listing. -/
theorem outermost_eq_filter (p : Tree → Bool) (t : Tree) :
    outermost p t = (t.preorder.filter (isOutermostAt p t)).map Prod.snd := by
  induction t using Tree.induction with
  | node t ih =>
    -- the children from one of them on: where the root has the property, nothing below it counts
    have below (ts : List Tree) (index : Nat) (kids : t.children.drop index = ts) :
        ((preorderAll ts index).filter (isOutermostAt p t)).map Prod.snd
          = if p t then [] else ts.flatMap (outermost p) := by
      induction ts generalizing index with
      | nil => simp [preorderAll]
      | cons child rest ih' =>
        have here : t.children[index]? = some child := by
          rw [← List.head?_drop, kids, List.head?_cons]
        have later : t.children.drop (index + 1) = rest := by
          rw [← List.tail_drop, kids, List.tail_cons]
        have first (place : List Nat × Tree) : isOutermostAt p t (index :: place.1, place.2)
            = (!p t && isOutermostAt p child place) := by
          rw [isOutermostAt, above_cons here, List.all_cons, isOutermostAt, Bool.and_left_comm]
        rw [preorderAll, List.filter_append, List.map_append, ih' _ later, List.filter_map,
          List.map_map]
        simp only [Function.comp_def, first]
        cases p t with
        | true => simp
        | false => simp [← ih child (List.mem_of_getElem? here)]
    have kids := below t.children 0 rfl
    obtain ⟨kind, attrs, children⟩ := t
    rw [preorder, List.filter_cons, isOutermostAt, outermost_eq, outermostBelow]
    cases hp : p ⟨kind, attrs, children⟩ with
    | true => simpa [above, hp] using kids
    | false => simpa [above, hp] using kids.symm

theorem outermostBelow_withChildren (t : Tree) (more : List Tree) :
    outermostBelow p (t.withChildren more) = outermostBelow p t ++ more.flatMap (outermost p) :=
  List.flatMap_append

/-- Trees that have the property are their own outermost nodes. -/
theorem flatMap_outermost_of_pos {ts : List Tree} (h : ∀ t ∈ ts, p t = true) :
    ts.flatMap (outermost p) = ts := by
  induction ts with
  | nil => rfl
  | cons t rest ih =>
    obtain ⟨here, later⟩ := List.forall_mem_cons.mp h
    rw [List.flatMap_cons, outermost_of_pos here, ih later]
    rfl

/-- Where no node below the children of a tree has the property, those listed are children. -/
theorem outermostBelow_eq_filter
    (h : ∀ child ∈ t.children, ∀ s ∈ child.children, s.Every fun u => p u = false) :
    outermostBelow p t = t.children.filter p := by
  have all (ts : List Tree)
      (shallow : ∀ child ∈ ts, ∀ s ∈ child.children, s.Every fun u => p u = false) :
      ts.flatMap (outermost p) = ts.filter p := by
    induction ts with
    | nil => rfl
    | cons child rest ih =>
      obtain ⟨here, later⟩ := List.forall_mem_cons.mp shallow
      have below : outermostBelow p child = [] :=
        List.flatMap_eq_nil_iff.mpr fun s hs => outermost_eq_nil (here s hs)
      rw [List.flatMap_cons, outermost_eq, below, ih later, List.filter_cons]
      cases p child <;> rfl
  exact all _ h

/-- A tree stays as it is if the outermost nodes do. -/
theorem mapOutermost_id (t : Tree) : mapOutermost p id t = t := by
  induction t using Tree.induction with
  | node t ih =>
    rw [mapOutermost_eq, mapBelow, List.map_congr_left ih, List.map_id']
    cases t
    exact ite_self _

theorem mapBelow_id (t : Tree) : mapBelow p id t = t := by
  rw [mapBelow, List.map_congr_left fun child _ => mapOutermost_id child, List.map_id']
  cases t
  rfl

/-- A change that keeps the kinds of the nodes it is made at keeps the kind of the root. -/
theorem kind_mapOutermost (h : ∀ s, p s = true → (f s).kind = s.kind) (t : Tree) :
    (mapOutermost p f t).kind = t.kind := by
  cases hp : p t with
  | true => rw [mapOutermost_of_pos hp, h t hp]
  | false => rw [mapOutermost_of_neg hp, mapBelow, kind_rebuilt]

theorem every_mapBelow_iff {q : Tree → Prop} : (mapBelow p f t).Every q ↔
    q (mapBelow p f t) ∧ ∀ child ∈ t.children, (mapOutermost p f child).Every q := by
  rw [every_iff, mapBelow, children_rebuilt, List.forall_mem_map]

/-- A change that keeps a property of all nodes where it is made keeps it everywhere, if the
property does not depend on the children of a node. -/
theorem every_mapOutermost {q : Tree → Prop} (rebuilt : ∀ s children, q s → q (s.rebuilt children))
    (change : ∀ s, p s = true → s.Every q → (f s).Every q) {t : Tree} (h : t.Every q) :
    (mapOutermost p f t).Every q := by
  induction t using Tree.induction with
  | node t ih =>
    cases hp : p t with
    | true =>
      rw [mapOutermost_of_pos hp]
      exact change t hp h
    | false =>
      obtain ⟨root, below⟩ := every_iff.mp h
      rw [mapOutermost_of_neg hp, every_mapBelow_iff]
      exact ⟨rebuilt t _ root, fun child hc => ih child hc (below child hc)⟩

/-- The same below the root. -/
theorem every_mapBelow {q : Tree → Prop} (rebuilt : ∀ s children, q s → q (s.rebuilt children))
    (change : ∀ s, p s = true → s.Every q → (f s).Every q) {t : Tree} (h : t.Every q) :
    (mapBelow p f t).Every q := by
  obtain ⟨root, below⟩ := every_iff.mp h
  exact every_mapBelow_iff.mpr ⟨rebuilt t _ root, fun child hc =>
    every_mapOutermost rebuilt change (below child hc)⟩

/-- Where the nodes that stay have a property, the change has it everywhere exactly if it has it
everywhere in the new trees. -/
theorem every_mapOutermost_iff {q : Tree → Prop} (stays : ∀ s, p s = false → q (mapBelow p f s))
    {t : Tree} : (mapOutermost p f t).Every q ↔ ∀ s ∈ outermost p t, (f s).Every q := by
  induction t using Tree.induction with
  | node t ih =>
    cases hp : p t with
    | true => rw [mapOutermost_of_pos hp, outermost_of_pos hp, List.forall_mem_singleton]
    | false =>
      rw [mapOutermost_of_neg hp, outermost_of_neg hp, every_iff, and_iff_right (stays t hp)]
      simp only [mapBelow, children_rebuilt, List.forall_mem_map, outermostBelow,
        List.forall_mem_flatMap]
      exact forall₂_congr ih

/-- The same below the root. -/
theorem everyBelow_mapBelow_iff {q : Tree → Prop}
    (stays : ∀ s, p s = false → q (mapBelow p f s)) {t : Tree} :
    (mapBelow p f t).EveryBelow q ↔ ∀ s ∈ outermostBelow p t, (f s).Every q := by
  simp only [EveryBelow, mapBelow, children_rebuilt, List.forall_mem_map, outermostBelow,
    List.forall_mem_flatMap]
  exact forall₂_congr fun child _ => every_mapOutermost_iff stays

/-! ## Changes with effects -/

section Effects

variable {m : Type → Type} [Monad m]

mutual

/-- Puts other trees in the place of the outermost nodes with the property, from left to right. -/
def mapOutermostM (p : Tree → Bool) (f : Tree → m Tree) : Tree → m Tree
  | ⟨kind, attrs, children⟩ =>
    if p ⟨kind, attrs, children⟩ then f ⟨kind, attrs, children⟩
    else do return ⟨kind, attrs, ← mapOutermostAllM p f children⟩

/-- Puts other trees in the place of the outermost nodes with the property in several trees. -/
def mapOutermostAllM (p : Tree → Bool) (f : Tree → m Tree) : List Tree → m (List Tree)
  | [] => return []
  | t :: rest => do
    let head ← mapOutermostM p f t
    let tail ← mapOutermostAllM p f rest
    return head :: tail

end

variable [LawfulMonad m]

theorem mapOutermostAllM_eq (f : Tree → m Tree) (ts : List Tree) :
    mapOutermostAllM p f ts = ts.mapM (mapOutermostM p f) := by
  induction ts with
  | nil => rfl
  | cons t rest ih => rw [mapOutermostAllM, ih, List.mapM_cons]

theorem mapOutermostM_eq (f : Tree → m Tree) (t : Tree) :
    mapOutermostM p f t
      = if p t then f t else t.rebuilt <$> t.children.mapM (mapOutermostM p f) := by
  obtain ⟨kind, attrs, children⟩ := t
  rw [mapOutermostM, mapOutermostAllM_eq, map_eq_pure_bind]
  rfl

theorem mapOutermostM_of_pos {f : Tree → m Tree} (h : p t = true) : mapOutermostM p f t = f t := by
  rw [mapOutermostM_eq, if_pos h]

theorem mapOutermostM_of_neg {f : Tree → m Tree} (h : p t = false) :
    mapOutermostM p f t = t.rebuilt <$> t.children.mapM (mapOutermostM p f) := by
  rw [mapOutermostM_eq, if_neg (by rw [h]; exact Bool.false_ne_true)]

theorem mapM_congr {α β : Type} {step step' : α → m β} {xs : List α}
    (h : ∀ x ∈ xs, step x = step' x) : xs.mapM step = xs.mapM step' := by
  induction xs with
  | nil => rfl
  | cons x rest ih =>
    obtain ⟨here, later⟩ := List.forall_mem_cons.mp h
    rw [List.mapM_cons, List.mapM_cons, here, ih later]

theorem mapM_eq_pure {α : Type} {step : α → m α} {xs : List α} (h : ∀ x ∈ xs, step x = pure x) :
    xs.mapM step = pure xs := by
  rw [mapM_congr h]
  exact (List.mapM_pure (f := id)).trans (by rw [List.map_id])

/-- Steps that each come to some effects and a result are all effects, then all results. -/
theorem mapM_eq_forM {α β γ : Type} {step : α → m γ} {effects : α → List β} {effect : β → m Unit}
    {result : α → γ} {xs : List α}
    (h : ∀ x ∈ xs, step x = do forM (effects x) effect; return result x) :
    xs.mapM step = do forM (xs.flatMap effects) effect; return xs.map result := by
  induction xs with
  | nil => simp
  | cons x rest ih =>
    obtain ⟨here, later⟩ := List.forall_mem_cons.mp h
    rw [List.mapM_cons, here, ih later]
    simp

/-- **A change whose new trees do not depend on its effects** is all effects, node by node, and then
the change without effects. -/
theorem mapOutermostM_eq_forM {change : Tree → m Tree} {effect : Tree → m Unit}
    (h : ∀ s, p s = true → change s = do effect s; return f s) (t : Tree) :
    mapOutermostM p change t = do forM (outermost p t) effect; return mapOutermost p f t := by
  induction t using Tree.induction with
  | node t ih =>
    cases hp : p t with
    | true => simp [mapOutermostM_of_pos hp, outermost_of_pos hp, mapOutermost_of_pos hp, h t hp]
    | false =>
      rw [mapOutermostM_of_neg hp, outermost_of_neg hp, mapOutermost_of_neg hp, mapM_eq_forM ih]
      simp [outermostBelow, mapBelow]

/-- The same below the root. -/
theorem mapM_mapOutermostM_eq_forM {change : Tree → m Tree} {effect : Tree → m Unit}
    (h : ∀ s, p s = true → change s = do effect s; return f s) (t : Tree) :
    t.rebuilt <$> t.children.mapM (mapOutermostM p change)
      = do forM (outermostBelow p t) effect; return mapBelow p f t := by
  rw [mapM_eq_forM fun child _ => mapOutermostM_eq_forM h child]
  simp [outermostBelow, mapBelow]

/-- Effects for the members of lists, list by list. -/
theorem forM_flatMap {α β : Type} {effects : α → List β} {effect : β → m Unit} (xs : List α) :
    forM (xs.flatMap effects) effect = forM xs fun x => forM (effects x) effect := by
  induction xs with
  | nil => simp
  | cons x rest ih => simp [ih]

end Effects

/-! ## Changes that may fail -/

section Faults

variable {α β ε : Type}

/-- The result unless there is a fault. -/
def unlessFault (fault? : Option ε) (result : α) : Except ε α :=
  match fault? with
  | none => .ok result
  | some e => .error e

theorem unlessFault_eq_ok {fault? : Option ε} {result result' : α} :
    unlessFault fault? result = .ok result' ↔ fault? = none ∧ result = result' := by
  cases fault? <;> simp [unlessFault]

theorem unlessFault_eq_error {fault? : Option ε} {result : α} {e : ε} :
    unlessFault fault? result = .error e ↔ fault? = some e := by
  cases fault? <;> simp [unlessFault]

theorem findSome?_flatMap {members : α → List β} {f : β → Option ε} (xs : List α) :
    (xs.flatMap members).findSome? f = xs.findSome? fun x => (members x).findSome? f := by
  induction xs with
  | nil => rfl
  | cons x rest ih =>
    rw [List.flatMap_cons, List.findSome?_append, List.findSome?_cons, ih]
    cases (members x).findSome? f <;> rfl

theorem forM_unlessFault {fault? : α → Option ε} (xs : List α) :
    (forM xs fun x => unlessFault (fault? x) ()) = unlessFault (xs.findSome? fault?) () := by
  induction xs with
  | nil => rfl
  | cons x rest ih =>
    rw [List.forM_cons, List.findSome?_cons, ih]
    cases fault? x <;> rfl

theorem mapM_unlessFault {fault? : α → Option ε} {result : α → β} (xs : List α) :
    (xs.mapM fun x => unlessFault (fault? x) (result x))
      = unlessFault (xs.findSome? fault?) (xs.map result) := by
  induction xs with
  | nil => rfl
  | cons x rest ih =>
    rw [List.mapM_cons, List.findSome?_cons, ih]
    cases fault? x with
    | some e => rfl
    | none => cases rest.findSome? fault? <;> rfl

/-- **A change that fails at the nodes at fault** fails with the fault of the first of them. -/
theorem mapOutermostM_unlessFault {fault? : Tree → Option ε} (t : Tree) :
    (t.mapOutermostM p fun s => unlessFault (fault? s) (f s))
      = unlessFault ((t.outermost p).findSome? fault?) (t.mapOutermost p f) := by
  have split (s : Tree) : unlessFault (fault? s) (f s) = do
      unlessFault (fault? s) ()
      return f s := by
    cases fault? s <;> rfl
  rw [mapOutermostM_eq_forM fun s _ => split s, forM_unlessFault]
  cases (t.outermost p).findSome? fault? <;> rfl

end Faults

end TreeRewrite.Tree
