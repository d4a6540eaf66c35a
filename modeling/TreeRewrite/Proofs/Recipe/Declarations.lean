import TreeRewrite.Proofs.Recipe.Zones

/-!
# Which class declares a member

Where an access to the scope has become an access to a member, some class has to declare that
member.  One would expect the class whose constructor it is, the nearest around the access.  It is
the outermost one: members are recorded until the class is left for which the recipe looked, and it
does not look for classes inside a class.

## What is here

* `ScopeToThis.OutermostClass`, `ScopeToThis.NearestClass` — the classes around a position.
* `ScopeToThis.Rewritten` — an access in one tree that is a member of `this` in another.  In the
  migrated tree these are the accesses that the recipe changes (`ScopeToThis.rewritten_iff`).
* `ScopeToThis.Declares` — classes declare the members that they own, and gain no other
  declarations.
* `ScopeToThis.run_declares` — outermost classes own the members.  Whether one may say so of nearest
  classes depends on what classes inside classes declare themselves.
-/

set_option autoImplicit false

namespace TreeRewrite.ScopeToThis

open Vocabulary (builtin)

variable (options : RecipeOptions)

/-! ## Classes around a position -/

/-- A position is inside a class. -/
def Around (t : Tree) (c position : List Nat) : Prop :=
  (∃ index rest, position = c ++ index :: rest) ∧
    ∃ s, t.at? c = some s ∧ s.kind = builtin.classDeclaration

/-- A class around a position that is inside no other class around it. -/
def OutermostClass (t : Tree) (c position : List Nat) : Prop :=
  Around t c position ∧ ∀ d, Around t d position → c <+: d

/-- A class around a position that is inside all other classes around it. -/
def NearestClass (t : Tree) (c position : List Nat) : Prop :=
  Around t c position ∧ ∀ d, Around t d position → d <+: c

section

variable {t : Tree} {c d position : List Nat}

theorem Around.isPrefix (h : Around t c position) : c <+: position := by
  obtain ⟨⟨index, rest, rfl⟩, -⟩ := h
  exact List.prefix_append _ _

theorem OutermostClass.unique (h : OutermostClass t c position) (h' : OutermostClass t d position) :
    c = d :=
  (h.2 d h'.1).eq_of_length_le (h'.2 c h.1).length_le

theorem around_cons {i index : Nat} : Around t (i :: c) (index :: position)
    ↔ i = index ∧ ∃ child, t.children[index]? = some child ∧ Around child c position := by
  simp only [Around, List.cons_append, List.cons.injEq, Tree.at?_cons_eq_some]
  constructor
  · rintro ⟨⟨j, rest, rfl, inside⟩, s, ⟨child, hc, hs⟩, isClass⟩
    exact ⟨rfl, child, hc, ⟨j, rest, inside⟩, s, hs, isClass⟩
  · rintro ⟨rfl, child, hc, ⟨j, rest, inside⟩, s, hs, isClass⟩
    exact ⟨⟨j, rest, rfl, inside⟩, s, ⟨child, hc, hs⟩, isClass⟩

/-- Inside a class there is a nearest class around. -/
theorem exists_nearestClass (h : Around t c position) : ∃ d, NearestClass t d position := by
  induction position generalizing t c with
  | nil =>
    obtain ⟨⟨index, rest, empty⟩, -⟩ := h
    exact absurd (congrArg List.length empty) (by simp)
  | cons index position ih =>
    by_cases deeper : ∃ e, Around t (index :: e) (index :: position)
    · obtain ⟨e, he⟩ := deeper
      obtain ⟨-, child, hc, he⟩ := around_cons.mp he
      obtain ⟨d, hd, nearest⟩ := ih he
      refine ⟨index :: d, around_cons.mpr ⟨rfl, child, hc, hd⟩, fun e he => ?_⟩
      cases e with
      | nil => exact List.nil_prefix
      | cons i e =>
        obtain ⟨rfl, child', hc', he⟩ := around_cons.mp he
        obtain rfl : child = child' := Option.some.inj (hc.symm.trans hc')
        exact List.cons_prefix_cons.mpr ⟨rfl, nearest e he⟩
    · -- then the root is the only class around
      refine ⟨c, h, fun e he => ?_⟩
      cases e with
      | nil => exact List.nil_prefix
      | cons i e =>
        obtain ⟨rfl, -⟩ := around_cons.mp he
        exact absurd ⟨e, he⟩ deeper

/-- A tree with no class below its root. -/
def OneClass (t : Tree) : Prop := t.EveryBelow fun s => s.kind ≠ builtin.classDeclaration

theorem OneClass.eq_nil {s : Tree} (h : OneClass t) (hs : t.at? position = some s)
    (isClass : s.kind = builtin.classDeclaration) : position = [] := by
  cases position with
  | nil => rfl
  | cons index position =>
    obtain ⟨child, hc, hs⟩ := Tree.at?_cons_eq_some.mp hs
    exact absurd isClass (h child (List.mem_of_getElem? hc) position s hs)

/-- A class in which there are no others is nearest. -/
theorem OneClass.nearestClass {s : Tree} (h : OneClass s) (hs : t.at? c = some s)
    (around : Around t c position) : NearestClass t c position := by
  refine ⟨around, fun d hd => ?_⟩
  rcases List.prefix_or_prefix_of_prefix around.isPrefix hd.isPrefix with inside | above
  · obtain ⟨below, rfl⟩ := inside
    obtain ⟨-, u, hu, isClass⟩ := hd
    rw [Tree.at?_append, hs, Option.bind_some] at hu
    obtain rfl := h.eq_nil hu isClass
    simp
  · exact above

end

/-! ## Owners of members -/

/-- The tree at a position declares a property of the name. -/
def DeclaredAt (t : Tree) (position : List Nat) (name : String) : Prop :=
  ∃ s, t.at? position = some s ∧ name ∈ declaredProperties builtin s

/-- The access at a position is the same member of `this` at its place in the other tree. -/
def Rewritten (t t' : Tree) (access : List Nat) (name : String) : Prop :=
  ∃ s place, t.at? access = some s ∧ isAccess builtin options s = true ∧
    Place options t access place ∧
    t'.at? place = some (builtin.mkPropertyAccess builtin.mkThis name)

/-- Classes declare the members they own, and gain a declaration only for a member they own. -/
structure Declares (owner : List Nat → List Nat → Prop) (t t' : Tree) : Prop where
  declared : ∀ access name c, Rewritten options t t' access name → owner c access →
    ∃ place, Place options t c place ∧ DeclaredAt t' place name
  gained : ∀ c place s s' name, t.at? c = some s → s.kind = builtin.classDeclaration →
    Place options t c place → t'.at? place = some s' →
    (declaredProperties builtin s).count name < (declaredProperties builtin s').count name →
    ∃ access, Rewritten options t t' access name ∧ owner c access

/-- Outermost and nearest classes lead to the same declarations: where they are two, the nearest
declares the member itself, and the outermost declares it, too, or accesses it itself. -/
def OwnersAgree (t t' : Tree) : Prop :=
  ∀ access name c d, Rewritten options t t' access name → OutermostClass t c access →
    NearestClass t d access → d ≠ c → DeclaredAt t d name ∧ (DeclaredAt t c name ∨
      ∃ own, Rewritten options t t' own name ∧ NearestClass t c own)

variable {options} {t s : Tree} {c position place : List Nat} {name : String}

/-! ## Rewritten accesses -/

theorem migratedSite_of_isAccess (h : isAccess builtin options s = true) :
    migratedSite builtin options s = migratedAccess builtin s := by
  have notScope : isScope builtin options s = false :=
    isScope_of_ne (by rw [kind_of_isAccess h]; decide)
  rw [migratedSite, notScope]
  rfl

theorem target_of_isAccess (h : isAccess builtin options s = true) :
    ∃ target, s.children[0]? = some target ∧ target.kind = builtin.identifier := by
  obtain ⟨-, named⟩ := Bool.and_eq_true_iff.mp h
  cases hc : s.child? 0 with
  | none =>
    rw [hc] at named
    cases named
  | some target =>
    rw [hc] at named
    exact ⟨target, hc, eq_of_beq (Bool.and_eq_true_iff.mp named).1⟩

/-- What becomes of an access is a member of `this` only if the access is changed. -/
theorem below?_eq_none_of_image {zone : Zone} (h : isAccess builtin options s = true)
    (hs : zone.image options s = builtin.mkPropertyAccess builtin.mkThis name) :
    zone.below? options s = none := by
  cases hz : zone.below? options s with
  | none => rfl
  | some zone' =>
    -- otherwise the target of the access has stayed an identifier
    obtain ⟨target, hc, identifier⟩ := target_of_isAccess h
    have stays := Zone.image_child hz hc
    rw [hs] at stays
    have kind : builtin.mkThis.kind = builtin.identifier := by
      rw [Option.some.inj stays, Zone.kind_image, identifier]
    exact absurd kind (by decide)

theorem mem_accessesIn : s ∈ accessesIn builtin options t
    ↔ s ∈ sitesIn options t ∧ isAccess builtin options s = true := by
  rw [accessesIn_eq_filter, List.mem_filter, sitesIn]

/-- **The accesses that become members of `this`** are those that are changed. -/
theorem rewritten_iff (h : wellFormed builtin options t = true) :
    Rewritten options t (migrated builtin options t) position name
      ↔ ∃ s, Changed options t position s ∧ isAccess builtin options s = true ∧
        member? s = some name := by
  constructor
  · rintro ⟨s, place, hs, access, hp, new⟩
    rcases hp.at? hs with ⟨zone, reach, image⟩ | same
    · have becomes := Option.some.inj (image.symm.trans new)
      obtain ⟨rfl, site⟩ := Zone.below?_eq_none.mp (below?_eq_none_of_image access becomes)
      have changed : s ∈ accessesIn builtin options t :=
        mem_accessesIn.mpr ⟨Zone.mem_found_iff.mpr ⟨position, reach, site⟩, access⟩
      obtain ⟨name', named⟩ := Option.isSome_iff_exists.mp (List.all_eq_true.mp h s changed)
      have migrated : Zone.image options .inConstructor s = migratedAccess builtin s :=
        (Tree.mapOutermost_of_pos site).trans (migratedSite_of_isAccess access)
      rw [migrated, migratedAccess, named] at becomes
      have text : member? (builtin.mkPropertyAccess builtin.mkThis name')
          = member? (builtin.mkPropertyAccess builtin.mkThis name) := congrArg member? becomes
      exact ⟨s, ⟨reach, site⟩, access, named.trans text⟩
    · -- an access to a member of `this` is no access to the scope
      rw [Option.some.inj (same.symm.trans new)] at access
      cases access
  · rintro ⟨s, changed, access, named⟩
    refine ⟨s, position, changed.1.at?, access, .stays changed.1, changed.image.trans ?_⟩
    rw [migratedSite_of_isAccess access, migratedAccess, named]
    rfl

/-! ## What classes declare -/

theorem mem_members : name ∈ members builtin options s
    ↔ ∃ a ∈ sites builtin options s, isAccess builtin options a = true ∧ member? a = some name := by
  rw [members, List.mem_eraseDups, List.mem_filterMap]
  simp only [accesses, List.mem_filter, and_assoc]

theorem mem_missing : name ∈ missing builtin options s
    ↔ name ∈ members builtin options s ∧ name ∉ declaredProperties builtin s := by
  simp [missing]

/-- The members of a class that the recipe looked for are those of the accesses changed in it. -/
theorem mem_members_of_reach (reach : Reach options .outside t c .outside s)
    (isClass : s.kind = builtin.classDeclaration) : name ∈ members builtin options s
      ↔ ∃ rest a, Changed options t (c ++ rest) a ∧ isAccess builtin options a = true ∧
        member? a = some name := by
  have inClass : sites builtin options s = Zone.found options .outside s := by
    rw [Zone.found, Tree.outermost_of_pos (p := Zone.isTarget options .outside)
      (beq_iff_eq.mpr isClass), List.flatMap_singleton]
    rfl
  rw [mem_members, inClass]
  simp only [Zone.mem_found_iff]
  constructor
  · rintro ⟨a, ⟨rest, inside, site⟩, access, named⟩
    exact ⟨rest, a, ⟨reach.trans inside, site⟩, access, named⟩
  · rintro ⟨rest, a, ⟨inside, site⟩, access, named⟩
    obtain ⟨zone, s', above, inside⟩ := inside.split
    obtain rfl := reach.unique above
    obtain rfl : s = s' := Option.some.inj (reach.at?.symm.trans above.at?)
    exact ⟨a, ⟨rest, inside, site⟩, access, named⟩

theorem declaredProperties_migratedClass (s : Tree) :
    declaredProperties builtin (migratedClass builtin options s)
      = declaredProperties builtin s ++ missing builtin options s := by
  have kept := declaredProperties_mapBelow builtin (p := (·.is builtin.constructor))
    (f := migratedConstructor builtin options) (fun _ _ => rfl) (fun _ _ _ => rfl) s
  have added (names : List String) : (((names.map (Vocabulary.mkPropertyDeclaration builtin ·
      (Vocabulary.mkAny builtin))).filter (·.is builtin.propertyDeclaration)).filterMap
        (·.attrStr? nameAttr)) = names := by
    induction names with
    | nil => rfl
    | cons name rest ih => exact congrArg (name :: ·) ih
  rw [declaredProperties, Tree.childrenOf, migratedClass, Tree.withChildren, List.filter_append,
    List.filterMap_append, added]
  exact congrArg (· ++ _) kept

/-- A class inside a class declares what it declared. -/
theorem declaredProperties_image {zone : Zone} (hz : zone ≠ .outside)
    (isClass : s.kind = builtin.classDeclaration) :
    declaredProperties builtin (zone.image options s) = declaredProperties builtin s := by
  have kinds {u : Tree} (h : zone.isTarget options u = true) :
      u.kind ≠ builtin.classDeclaration ∧ u.kind ≠ builtin.propertyDeclaration := by
    cases zone with
    | outside => exact absurd rfl hz
    | inClass =>
      rw [show u.kind = builtin.constructor from eq_of_beq h]
      decide
    | inConstructor => rcases kind_of_isSite h with h | h <;> rw [h] <;> decide
  have notTarget : zone.isTarget options s = false :=
    Bool.eq_false_iff.mpr fun target => (kinds target).1 isClass
  rw [Zone.image, Tree.mapOutermost_of_neg notTarget]
  exact declaredProperties_mapBelow builtin (fun _ => Zone.kind_change)
    (fun _ target property => absurd property (kinds target).2) s

/-- At the place of a class stands a class that declares what it declared, and what it was missing
if the recipe looked for it. -/
theorem Place.declaredProperties {s' : Tree} (h : Place options t c place) (hs : t.at? c = some s)
    (isClass : s.kind = builtin.classDeclaration)
    (hs' : (migrated builtin options t).at? place = some s') :
    (Reach options .outside t c .outside s ∧ ScopeToThis.declaredProperties builtin s'
        = ScopeToThis.declaredProperties builtin s ++ missing builtin options s) ∨
      ScopeToThis.declaredProperties builtin s' = ScopeToThis.declaredProperties builtin s := by
  rcases h.at? hs with ⟨zone, reach, image⟩ | same
  · obtain rfl := Option.some.inj (hs'.symm.trans image)
    by_cases hz : zone = .outside
    · subst hz
      refine .inl ⟨reach, ?_⟩
      rw [Zone.image_class isClass]
      exact declaredProperties_migratedClass s
    · exact .inr (declaredProperties_image hz isClass)
  · exact .inr (by rw [Option.some.inj (hs'.symm.trans same)])

/-- A class that gains a declaration is one for which the recipe looked, and it was missing that. -/
theorem missing_of_gained {s' : Tree} (hp : Place options t c place) (hs : t.at? c = some s)
    (isClass : s.kind = builtin.classDeclaration)
    (hs' : (migrated builtin options t).at? place = some s')
    (more : (declaredProperties builtin s).count name
      < (declaredProperties builtin s').count name) :
    Reach options .outside t c .outside s ∧ name ∈ missing builtin options s := by
  rcases hp.declaredProperties hs isClass hs' with ⟨reach, names⟩ | names
  · rw [names, List.count_append] at more
    exact ⟨reach, List.count_pos_iff.mp (by omega)⟩
  · rw [names] at more
    exact absurd more (Nat.lt_irrefl _)

/-- What a class declares, it still declares at its place. -/
theorem DeclaredAt.atPlace (h : DeclaredAt t c name) (around : Around t c position)
    (hp : Place options t c place) : DeclaredAt (migrated builtin options t) place name := by
  obtain ⟨-, s, hs, isClass⟩ := around
  obtain ⟨s₀, hs₀, declares⟩ := h
  obtain rfl : s₀ = s := Option.some.inj (hs₀.symm.trans hs)
  obtain ⟨s', hs', -⟩ := hp.kind hs
  refine ⟨s', hs', ?_⟩
  rcases hp.declaredProperties hs isClass hs' with ⟨-, names⟩ | names <;> rw [names]
  · exact List.mem_append_left _ declares
  · exact declares

/-! ## Outermost classes own the members -/

/-- A class for which the recipe looks is outermost. -/
theorem outermostClass_of_reach {index : Nat} {rest : List Nat}
    (reach : Reach options .outside t c .outside s) (isClass : s.kind = builtin.classDeclaration) :
    OutermostClass t c (c ++ index :: rest) := by
  refine ⟨⟨⟨index, rest, rfl⟩, s, reach.at?, isClass⟩, fun d hd => ?_⟩
  rcases List.prefix_or_prefix_of_prefix (List.prefix_append c _) hd.isPrefix with inside | above
  · exact inside
  · obtain ⟨_ | ⟨i, below⟩, rfl⟩ := above
    · simp
    · obtain ⟨-, u, hu, isClass'⟩ := hd
      exact absurd isClass' (reach.kind_ne_class hu)

/-- Around what is changed there is such a class. -/
theorem exists_outermostClass {a : Tree} (h : Changed options t position a) :
    ∃ c s, OutermostClass t c position ∧ Reach options .outside t c .outside s ∧
      s.kind = builtin.classDeclaration := by
  obtain ⟨c, index, rest, s, rfl, reach, isClass⟩ := h.1.exists_class rfl nofun
  exact ⟨c, s, outermostClass_of_reach reach isClass, reach, isClass⟩

theorem declares_outermostClass (h : wellFormed builtin options t = true) :
    Declares options (OutermostClass t) t (migrated builtin options t) where
  declared position name c rewritten owner := by
    obtain ⟨a, changed, access, named⟩ := (rewritten_iff h).mp rewritten
    obtain ⟨c', s, outermost, reach, isClass⟩ := exists_outermostClass changed
    obtain rfl := outermost.unique owner
    obtain ⟨⟨index, rest, rfl⟩, -⟩ := owner.1
    have member : name ∈ members builtin options s :=
      (mem_members_of_reach reach isClass).mpr ⟨_, a, changed, access, named⟩
    refine ⟨c', .stays reach, _, reach.image, ?_⟩
    rw [Zone.image_class isClass, declaredProperties_migratedClass, List.mem_append]
    by_cases declares : name ∈ declaredProperties builtin s
    · exact .inl declares
    · exact .inr (mem_missing.mpr ⟨member, declares⟩)
  gained c place s s' name hs isClass hp hs' more := by
    obtain ⟨reach, missing⟩ := missing_of_gained hp hs isClass hs' more
    obtain ⟨rest, a, changed, access, named⟩ :=
      (mem_members_of_reach reach isClass).mp (mem_missing.mp missing).1
    refine ⟨c ++ rest, (rewritten_iff h).mpr ⟨a, changed, access, named⟩, ?_⟩
    cases rest with
    | nil =>
      -- the class is no access
      rw [List.append_nil] at changed
      exact absurd (reach.unique changed.1) (by decide)
    | cons index rest => exact outermostClass_of_reach reach isClass

/-- **Nearest classes** own the members as well exactly if it makes no difference. -/
theorem declares_nearestClass_iff (h : wellFormed builtin options t = true) :
    Declares options (NearestClass t) t (migrated builtin options t)
      ↔ OwnersAgree options t (migrated builtin options t) := by
  have outer := declares_outermostClass h
  constructor
  · intro nearest access name c d rewritten hc hd inner
    constructor
    · obtain ⟨place, hp, s', hs', declares⟩ := nearest.declared access name d rewritten hd
      obtain ⟨⟨index, rest, rfl⟩, s, hs, isClass⟩ := hd.1
      refine ⟨s, hs, ?_⟩
      rcases hp.declaredProperties hs isClass hs' with ⟨reach, -⟩ | names
      · exact absurd ((outermostClass_of_reach reach isClass).unique hc) inner
      · rw [← names]
        exact declares
    · refine Classical.or_iff_not_imp_left.mpr fun undeclared => ?_
      obtain ⟨place, hp, s', hs', declares⟩ := outer.declared access name c rewritten hc
      obtain ⟨-, s, hs, isClass⟩ := hc.1
      refine nearest.gained c place s s' name hs isClass hp hs' ?_
      have before : (declaredProperties builtin s).count name = 0 :=
        List.count_eq_zero.mpr fun declared => undeclared ⟨s, hs, declared⟩
      rw [before]
      exact List.count_pos_iff.mpr declares
  · intro agree
    constructor
    · intro access name d rewritten hd
      obtain ⟨a, changed, -⟩ := (rewritten_iff h).mp rewritten
      obtain ⟨c, s, hc, -⟩ := exists_outermostClass changed
      by_cases same : d = c
      · exact outer.declared access name d rewritten (same ▸ hc)
      · obtain ⟨⟨index, rest, rfl⟩, -⟩ := hd.1
        obtain ⟨zone, u, reach, -⟩ := changed.1.split
        have declared := (agree _ name c d rewritten hc hd same).1
        exact ⟨d, .stays reach, declared.atPlace hd.1 (.stays reach)⟩
    · intro c place s s' name hs isClass hp hs' more
      obtain ⟨access, rewritten, hc⟩ := outer.gained c place s s' name hs isClass hp hs' more
      obtain ⟨d, hd⟩ := exists_nearestClass hc.1
      by_cases same : d = c
      · exact ⟨access, rewritten, same ▸ hd⟩
      · rcases (agree access name c d rewritten hc hd same).2 with ⟨u, hu, declared⟩ | own
        · -- what the class gains, it did not declare
          obtain rfl := Option.some.inj (hu.symm.trans hs)
          have missing := (missing_of_gained hp hs isClass hs' more).2
          exact absurd declared (mem_missing.mp missing).2
        · exact own

/-- There is one class in the panel. -/
theorem oneClass_panel : OneClass (panel none) := by
  simp [OneClass, panel, Vocabulary.mkNamed, Vocabulary.mkParameter, Vocabulary.mkBlock,
    Vocabulary.mkReturn, Vocabulary.mkPropertyAccess, Vocabulary.mkIdentifier, Tree.every_mk,
    Tree.EveryBelow, builtin, Tree.leaf, Tree.withAttr, Tree.withChildren]

variable (options) in
/-- **Members are declared by outermost classes.**  Where the recipe succeeds, the outermost class
around an access that has become a member of `this` declares that member, and classes gain no other
declarations.  The same may be said of nearest classes if and only if the two agree: if, wherever
they are two, the nearest declares the member itself, and the outermost would have it without the
access. -/
theorem run_declares : ∃ pass, ScopeToThis.pass options .builtin = .ok pass ∧
    ∀ t t', pass.run t = .ok t' →
      Declares options (OutermostClass t) t t' ∧
      (Declares options (NearestClass t) t t' ↔ OwnersAgree options t t') := by
  refine ⟨_, pass_builtin options, fun t t' run => ?_⟩
  obtain ⟨h, rfl⟩ := eq_migrated_of_rewrite options run
  exact ⟨declares_outermostClass h, declares_nearestClass_iff h⟩

/-- The class of the panel is alone, so it is the nearest. -/
theorem run_declares_panel : ∃ pass t', ScopeToThis.pass {} .builtin = .ok pass ∧
    pass.run (panel none) = .ok t' ∧ Declares {} (NearestClass (panel none)) (panel none) t' := by
  obtain ⟨pass, hpass, declares⟩ := run_declares {}
  obtain rfl : pass = _ := Except.ok.inj (hpass.symm.trans (pass_builtin {}))
  refine ⟨_, migrated builtin {} (panel none), hpass, rfl, (declares (panel none) _ rfl).2.mpr ?_⟩
  intro access name c d _ hc hd inner
  have alone {e : List Nat} (he : Around (panel none) e access) : e = [] := by
    obtain ⟨-, s, hs, isClass⟩ := he
    exact oneClass_panel.eq_nil hs isClass
  exact absurd ((alone hd.1).trans (alone hc.1).symm) inner

/-- `class Board { open() { … } }`, with the panel in the body of the method. -/
def board : Tree :=
  Vocabulary.mkNamed builtin.classDeclaration "Board" [builtin.mkMethod "open" [] none [panel none]]

/-- The member of the panel is declared by the board. -/
theorem member_declared_outside : ∃ pass t', ScopeToThis.pass {} .builtin = .ok pass ∧
    pass.run board = .ok t' ∧ ¬ Declares {} (NearestClass board) board t' := by
  refine ⟨_, migrated builtin {} board, pass_builtin {}, rfl, fun declares => ?_⟩
  let access := builtin.mkPropertyAccess (builtin.mkIdentifier "$scope") "title"
  have reach : Reach {} .outside board [0, 0, 0, 0, 1, 0, 0] .inConstructor access :=
    .down rfl rfl (.down rfl rfl (.down rfl rfl (.down rfl rfl (.down rfl rfl
      (.down rfl rfl (.down rfl rfl (.here _ _)))))))
  have rewritten : Rewritten {} board (migrated builtin {} board) [0, 0, 0, 0, 1, 0, 0] "title" :=
    (rewritten_iff rfl).mpr ⟨access, ⟨reach, rfl⟩, rfl, rfl⟩
  have nearest : NearestClass board [0, 0, 0] [0, 0, 0, 0, 1, 0, 0] :=
    oneClass_panel.nearestClass rfl ⟨⟨0, [1, 0, 0], rfl⟩, _, rfl, rfl⟩
  have outermost : OutermostClass board [] [0, 0, 0, 0, 1, 0, 0] :=
    outermostClass_of_reach (show Reach {} .outside board [] .outside board from .here _ _) rfl
  have agree := (declares_nearestClass_iff rfl).mp declares
  obtain ⟨⟨s, hs, declared⟩, -⟩ := agree _ _ _ _ rewritten outermost nearest nofun
  obtain rfl : panel none = s := Option.some.inj hs
  exact List.not_mem_nil declared

end TreeRewrite.ScopeToThis
