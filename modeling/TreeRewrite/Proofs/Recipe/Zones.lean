import TreeRewrite.Proofs.Recipe.Leftovers

/-!
# Where scopes are looked for

On its way down a tree `scope-to-this` looks for classes, inside a class for constructors, and
inside a constructor for what it changes.  It never goes back: a class inside a class, or inside a
constructor, is a node like any other.  This file says of each node in which of these *zones* it is,
and where it is found again in the migrated tree.

## What is here

* `ScopeToThis.Zone` — what is looked for, and `ScopeToThis.Zone.image`, what becomes of a tree in a
  zone.
* `ScopeToThis.Reach` — a node is reached in a zone.  What becomes of it is found at its position
  (`ScopeToThis.Reach.image`).
* `ScopeToThis.Zone.mem_found_iff` — the nodes that are changed are the sites reached inside
  constructors.
* `ScopeToThis.Place` — the place of a node in the migrated tree.  Only below changed accesses nodes
  have none (`ScopeToThis.exists_place`), and what stands at a place is of the kind of the node
  (`ScopeToThis.Place.kind`).
-/

set_option autoImplicit false

namespace TreeRewrite.ScopeToThis

open Vocabulary (builtin)

variable (options : RecipeOptions)

/-! ## Zones -/

/-- What the recipe looks for: classes, the constructors inside a class, or what is changed inside a
constructor. -/
inductive Zone where
  | outside
  | inClass
  | inConstructor
deriving DecidableEq, Repr

namespace Zone

/-- Is the node one that the recipe looks for? -/
def isTarget : Zone → Tree → Bool
  | .outside, t => t.is builtin.classDeclaration
  | .inClass, t => t.is builtin.constructor
  | .inConstructor, t => isSite builtin options t

/-- What becomes of such a node. -/
def change : Zone → Tree → Tree
  | .outside => migratedClass builtin options
  | .inClass => migratedConstructor builtin options
  | .inConstructor => migratedSite builtin options

/-- What becomes of a tree. -/
def image (zone : Zone) (t : Tree) : Tree :=
  t.mapOutermost (zone.isTarget options) (zone.change options)

/-- The nodes in it that are changed. -/
def changedIn : Zone → Tree → List Tree
  | .outside, t => sites builtin options t
  | .inClass, t => t.outermostBelow (isSite builtin options)
  | .inConstructor, t => [t]

/-- The nodes in a tree that are changed. -/
def found (zone : Zone) (t : Tree) : List Tree :=
  (t.outermost (zone.isTarget options)).flatMap (zone.changedIn options)

/-- What the recipe looks for inside a node that it looked for. -/
def next? : Zone → Option Zone
  | .outside => some .inClass
  | .inClass => some .inConstructor
  | .inConstructor => none

/-- What the recipe looks for below a node: nothing, if the node is changed. -/
def below? (zone : Zone) (t : Tree) : Option Zone :=
  if zone.isTarget options t then zone.next? else some zone

variable {options} {zone zone' : Zone} {t : Tree}

theorem below?_of_pos (h : zone.isTarget options t = true) :
    zone.below? options t = zone.next? := by rw [below?, if_pos h]

theorem below?_of_neg (h : zone.isTarget options t = false) :
    zone.below? options t = some zone := by
  rw [below?, if_neg (by rw [h]; exact Bool.false_ne_true)]

/-- Only below a changed node nothing is looked for. -/
theorem below?_eq_none :
    zone.below? options t = none ↔ zone = .inConstructor ∧ isSite builtin options t = true := by
  cases h : zone.isTarget options t with
  | false =>
    rw [below?_of_neg h]
    refine iff_of_false nofun ?_
    rintro ⟨rfl, site⟩
    exact Bool.false_ne_true (h.symm.trans site)
  | true =>
    rw [below?_of_pos h]
    cases zone with
    | outside => exact iff_of_false nofun nofun
    | inClass => exact iff_of_false nofun nofun
    | inConstructor => exact iff_of_true rfl ⟨rfl, h⟩

/-- There is no way back outside. -/
theorem below?_eq_outside (h : zone.below? options t = some .outside) :
    zone = .outside ∧ t.kind ≠ builtin.classDeclaration := by
  cases target : zone.isTarget options t with
  | true =>
    rw [below?_of_pos target] at h
    cases zone <;> cases h
  | false =>
    rw [below?_of_neg target] at h
    cases h
    exact ⟨rfl, beq_eq_false_iff_ne.mp target⟩

/-- What is changed below a node is changed in its children. -/
theorem found_of_below? (h : zone.below? options t = some zone') :
    zone.found options t = t.children.flatMap (zone'.found options) := by
  cases target : zone.isTarget options t with
  | false =>
    rw [below?_of_neg target] at h
    cases h
    rw [found, Tree.outermost_of_neg target, Tree.outermostBelow, List.flatMap_assoc]
    rfl
  | true =>
    rw [below?_of_pos target] at h
    rw [found, Tree.outermost_of_pos target, List.flatMap_singleton]
    cases zone with
    | outside =>
      cases h
      rw [changedIn, sites, Tree.outermostBelow, List.flatMap_assoc]
      rfl
    | inClass =>
      cases h
      refine congrArg t.children.flatMap (funext fun child => ?_)
      exact (List.flatMap_singleton' _).symm
    | inConstructor => cases h

/-- What becomes of a child is a child of what becomes of its parent, at the same index. -/
theorem image_child {child : Tree} {index : Nat} (h : zone.below? options t = some zone')
    (hc : t.children[index]? = some child) :
    (zone.image options t).children[index]? = some (zone'.image options child) := by
  have mapped {p : Tree → Bool} {f : Tree → Tree} :
      (t.mapBelow p f).children[index]? = some (child.mapOutermost p f) := by
    rw [Tree.mapBelow, Tree.children_rebuilt, List.getElem?_map, hc]
    rfl
  cases target : zone.isTarget options t with
  | false =>
    rw [below?_of_neg target] at h
    cases h
    rw [image, Tree.mapOutermost_of_neg target, mapped]
    rfl
  | true =>
    rw [below?_of_pos target] at h
    rw [image, Tree.mapOutermost_of_pos target]
    cases zone with
    | outside =>
      -- what the class declares stands behind its children
      cases h
      obtain ⟨inside, -⟩ := List.getElem?_eq_some_iff.mp mapped
      exact (List.getElem?_append_left inside).trans mapped
    | inClass =>
      cases h
      exact mapped
    | inConstructor => cases h

/-- What becomes of a class that the recipe looked for. -/
theorem image_class (h : t.kind = builtin.classDeclaration) :
    Zone.image options .outside t = migratedClass builtin options t :=
  migrated_of_class builtin options h

/-- A node stays of its kind. -/
theorem kind_change (h : zone.isTarget options t = true) :
    (zone.change options t).kind = t.kind := by
  cases zone with
  | outside => rfl
  | inClass => rfl
  | inConstructor => exact kind_migratedSite h

theorem kind_image (t : Tree) : (zone.image options t).kind = t.kind :=
  Tree.kind_mapOutermost (fun _ => kind_change) t

end Zone

/-! ## Reached nodes -/

/-- From a node in a zone, a node at a position below is reached in another. -/
inductive Reach : Zone → Tree → List Nat → Zone → Tree → Prop
  | here (zone : Zone) (t : Tree) : Reach zone t [] zone t
  | down {zone zone' final : Zone} {t child s : Tree} {index : Nat} {position : List Nat}
      (hz : zone.below? options t = some zone') (hc : t.children[index]? = some child)
      (h : Reach zone' child position final s) : Reach zone t (index :: position) final s

variable {options} {zone zone' final : Zone} {t s u : Tree} {position position' : List Nat}

namespace Reach

theorem at? (h : Reach options zone t position final s) : t.at? position = some s := by
  induction h with
  | here => rfl
  | down _ hc _ ih => exact Tree.at?_cons_eq_some.mpr ⟨_, hc, ih⟩

/-- **What becomes of a node that is reached** stands where the node stood. -/
theorem image (h : Reach options zone t position final s) :
    (zone.image options t).at? position = some (final.image options s) := by
  induction h with
  | here => rfl
  | down hz hc _ ih => exact Tree.at?_cons_eq_some.mpr ⟨_, Zone.image_child hz hc, ih⟩

/-- A node is reached in one zone. -/
theorem unique {final' : Zone} (h : Reach options zone t position final s)
    (h' : Reach options zone t position final' u) : final = final' := by
  induction h with
  | here => cases h'; rfl
  | down hz hc _ ih =>
    cases h' with
    | down hz' hc' h' =>
      obtain rfl := Option.some.inj (hz.symm.trans hz')
      obtain rfl := Option.some.inj (hc.symm.trans hc')
      exact ih h'

theorem trans {rest : List Nat} (h : Reach options zone t position zone' s)
    (h' : Reach options zone' s rest final u) :
    Reach options zone t (position ++ rest) final u := by
  induction h with
  | here => exact h'
  | down hz hc _ ih => exact .down hz hc (ih h')

/-- On the way to a node all nodes above it are reached. -/
theorem split {above rest : List Nat} (h : Reach options zone t (above ++ rest) final u) :
    ∃ zone' s, Reach options zone t above zone' s ∧ Reach options zone' s rest final u := by
  induction above generalizing zone t with
  | nil => exact ⟨zone, t, .here zone t, h⟩
  | cons index above ih =>
    cases h with
    | down hz hc h =>
      obtain ⟨zone', s, first, second⟩ := ih h
      exact ⟨zone', s, .down hz hc first, second⟩

theorem eq_outside (h : Reach options zone t position final s) (hf : final = .outside) :
    zone = .outside := by
  induction h with
  | here => exact hf
  | down hz _ _ ih => exact (Zone.below?_eq_outside (hz.trans (congrArg some (ih hf)))).1

/-- Where classes are looked for, there is no class above. -/
theorem kind_ne_class {above rest : List Nat} {index : Nat}
    (h : Reach options zone t (above ++ index :: rest) .outside u) (hs : t.at? above = some s) :
    s.kind ≠ builtin.classDeclaration := by
  obtain ⟨zone', s', first, second⟩ := split h
  obtain rfl : s' = s := Option.some.inj (first.at?.symm.trans hs)
  cases second with
  | down hz _ second =>
    exact (Zone.below?_eq_outside (hz.trans (congrArg some (second.eq_outside rfl)))).2

/-- Where classes are no longer looked for, one has been found above. -/
theorem exists_class (h : Reach options zone t position final u) (hz : zone = .outside)
    (hf : final ≠ .outside) :
    ∃ above index rest c, position = above ++ index :: rest ∧
      Reach options .outside t above .outside c ∧ c.kind = builtin.classDeclaration := by
  induction h with
  | here => exact absurd hz hf
  | @down zone zone' final t child s index position hb hc h ih =>
    subst hz
    by_cases isClass : t.kind = builtin.classDeclaration
    · exact ⟨[], index, position, t, rfl, .here _ _, isClass⟩
    · have outside : Zone.below? options .outside t = some .outside :=
        Zone.below?_of_neg (beq_eq_false_iff_ne.mpr isClass)
      have same : zone' = .outside := Option.some.inj (hb.symm.trans outside)
      obtain ⟨above, i, rest, c, rfl, reach, hk⟩ := ih same hf
      exact ⟨index :: above, i, rest, c, rfl, .down outside hc reach, hk⟩

variable (options) in
/-- Every node is reached, unless a node above it is changed. -/
theorem reach_or_changed (zone : Zone) (h : t.at? position = some s) :
    (∃ final, Reach options zone t position final s) ∨
      ∃ above index rest u, position = above ++ index :: rest ∧
        Reach options zone t above .inConstructor u ∧ isSite builtin options u = true := by
  induction position generalizing zone t with
  | nil =>
    obtain rfl := Option.some.inj h
    exact .inl ⟨zone, .here zone t⟩
  | cons index position ih =>
    obtain ⟨child, hc, h⟩ := Tree.at?_cons_eq_some.mp h
    cases hz : zone.below? options t with
    | none =>
      obtain ⟨rfl, site⟩ := Zone.below?_eq_none.mp hz
      exact .inr ⟨[], index, position, t, rfl, .here _ t, site⟩
    | some zone' =>
      rcases ih zone' h with ⟨final, reach⟩ | ⟨above, i, rest, u, rfl, reach, site⟩
      · exact .inl ⟨final, .down hz hc reach⟩
      · exact .inr ⟨index :: above, i, rest, u, rfl, .down hz hc reach, site⟩

end Reach

/-- **The nodes that are changed** are those that are looked for and reached inside constructors. -/
theorem Zone.mem_found_iff : s ∈ zone.found options t
    ↔ ∃ position, Reach options zone t position .inConstructor s ∧
      isSite builtin options s = true := by
  induction t using Tree.induction generalizing zone with
  | node t ih =>
    cases hz : zone.below? options t with
    | none =>
      obtain ⟨rfl, site⟩ := Zone.below?_eq_none.mp hz
      have alone : Zone.found options .inConstructor t = [t] := by
        rw [Zone.found, Tree.outermost_of_pos (p := Zone.isTarget options .inConstructor) site]
        rfl
      rw [alone, List.mem_singleton]
      constructor
      · rintro rfl
        exact ⟨[], .here _ _, site⟩
      · rintro ⟨position, reach, -⟩
        cases reach with
        | here => rfl
        | down hz' => exact absurd (hz.symm.trans hz') nofun
    | some zone' =>
      rw [Zone.found_of_below? hz, List.mem_flatMap]
      constructor
      · rintro ⟨child, hc, hs⟩
        obtain ⟨index, hi⟩ := List.getElem?_of_mem hc
        obtain ⟨position, reach, site⟩ := (ih child hc).mp hs
        exact ⟨index :: position, .down hz hi reach, site⟩
      · rintro ⟨position, reach, site⟩
        cases reach with
        | here => exact absurd (hz.symm.trans (Zone.below?_eq_none.mpr ⟨rfl, site⟩)) nofun
        | down hz' hi reach =>
          obtain rfl := Option.some.inj (hz.symm.trans hz')
          have hc := List.mem_of_getElem? hi
          exact ⟨_, hc, (ih _ hc).mpr ⟨_, reach, site⟩⟩

/-! ## Places -/

variable (options) in
/-- A node that the recipe changes, and its position. -/
def Changed (t : Tree) (position : List Nat) (s : Tree) : Prop :=
  Reach options .outside t position .inConstructor s ∧ isSite builtin options s = true

variable (options) in
/-- The place in the migrated tree of what stood at a position: the same, but below a parameter that
is changed it is one further, behind the decorator.  What stood below a changed access is gone. -/
inductive Place (t : Tree) : List Nat → List Nat → Prop
  | stays {zone : Zone} {position : List Nat} {s : Tree}
      (h : Reach options .outside t position zone s) : Place t position position
  | behind {above rest : List Nat} {index : Nat} {s : Tree} (h : Changed options t above s)
      (hs : isScope builtin options s = true) :
      Place t (above ++ index :: rest) (above ++ (index + 1) :: rest)

/-- A node has a place unless it stands below an access that is changed. -/
theorem exists_place (h : t.at? position = some s) : (∃ place, Place options t position place) ∨
    ∃ above index rest u, position = above ++ index :: rest ∧ Changed options t above u ∧
      isAccess builtin options u = true := by
  rcases Reach.reach_or_changed options .outside h with
    ⟨final, reach⟩ | ⟨above, index, rest, u, rfl, reach, site⟩
  · exact .inl ⟨_, .stays reach⟩
  · rcases Bool.or_eq_true_iff.mp site with scope | access
    · exact .inl ⟨_, .behind ⟨reach, site⟩ scope⟩
    · exact .inr ⟨above, index, rest, u, rfl, ⟨reach, site⟩, access⟩

theorem migratedSite_of_isScope (h : isScope builtin options s = true) :
    migratedSite builtin options s = migratedScope builtin options s := by
  rw [migratedSite, if_pos h]

/-- What becomes of a node that is changed stands where the node stood. -/
theorem Changed.image (h : Changed options t position s) :
    (migrated builtin options t).at? position = some (migratedSite builtin options s) := by
  refine h.1.image.trans (congrArg some ?_)
  exact Tree.mapOutermost_of_pos h.2

namespace Place

/-- What stands at the place of a node is what becomes of it in its zone, or the node itself. -/
theorem at? (h : Place options t position position') (hs : t.at? position = some s) :
    (∃ zone, Reach options .outside t position zone s ∧
      (migrated builtin options t).at? position' = some (zone.image options s)) ∨
    (migrated builtin options t).at? position' = some s := by
  cases h with
  | stays reach =>
    obtain rfl := Option.some.inj (reach.at?.symm.trans hs)
    exact .inl ⟨_, reach, reach.image⟩
  | @behind above rest index parameter changed isScope =>
    -- the children of the parameter have been handed on behind the decorator
    right
    rw [Tree.at?_append, changed.1.at?, Option.bind_some] at hs
    rw [Tree.at?_append, changed.image, Option.bind_some, migratedSite_of_isScope isScope]
    exact hs

theorem kind (h : Place options t position position') (hs : t.at? position = some s) :
    ∃ s', (migrated builtin options t).at? position' = some s' ∧ s'.kind = s.kind := by
  rcases h.at? hs with ⟨zone, -, h⟩ | h
  · exact ⟨_, h, Zone.kind_image s⟩
  · exact ⟨s, h, rfl⟩

end Place

end TreeRewrite.ScopeToThis
