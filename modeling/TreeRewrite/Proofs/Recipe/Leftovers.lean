import TreeRewrite.Proofs.Recipe.Migration

/-!
# What is left of scopes

In a migrated tree one looks for scopes in vain, almost: nothing is changed below a parameter that
is changed itself, and its children are handed on as they were.  An access to the scope in the
default value of the parameter stays where it is.

## What is here

* `ScopeToThis.InConstructors q` — in the constructors of classes, all nodes have the property `q`.
* `ScopeToThis.sitesIn` — the nodes that are changed somewhere in a tree, and
  `ScopeToThis.scopesIn`, the parameters among them.
* `ScopeToThis.inConstructors_migrated_iff` — a property that the nodes which stay have is had in
  the constructors of the migrated tree exactly if the new nodes have it.
* `ScopeToThis.run_cleared_iff` — no access is left exactly if there was none below a parameter that
  is changed.
* `ScopeToThis.Settled` — trees in which nothing is left to be changed, and
  `ScopeToThis.settled_migrated`, which says when the migrated tree is one.
-/

set_option autoImplicit false

namespace TreeRewrite.ScopeToThis

open Vocabulary (builtin)

variable (options : RecipeOptions)

/-- In the constructors of classes, however far below, all nodes have the property. -/
def InConstructors (q : Tree → Prop) (t : Tree) : Prop :=
  t.Every fun c => c.kind = builtin.classDeclaration →
    c.EveryBelow fun k => k.kind = builtin.constructor → k.EveryBelow q

/-- The nodes that are changed somewhere in a tree, in source order. -/
def sitesIn (t : Tree) : List Tree :=
  (t.outermost (·.is builtin.classDeclaration)).flatMap (sites builtin options)

/-- The parameters that are changed somewhere in a tree, in source order. -/
def scopesIn (t : Tree) : List Tree := (sitesIn options t).filter (isScope builtin options)

/-! ## Nodes that stay -/

section

variable {options} {t : Tree}

theorem kind_of_isScope (h : isScope builtin options t = true) : t.kind = builtin.parameter :=
  eq_of_beq (Bool.and_eq_true_iff.mp h).1

theorem kind_of_isAccess (h : isAccess builtin options t = true) :
    t.kind = builtin.propertyAccess := eq_of_beq (Bool.and_eq_true_iff.mp h).1

theorem kind_of_isSite (h : isSite builtin options t = true) :
    t.kind = builtin.parameter ∨ t.kind = builtin.propertyAccess :=
  (Bool.or_eq_true_iff.mp h).imp kind_of_isScope kind_of_isAccess

theorem isScope_of_ne (h : t.kind ≠ builtin.parameter) : isScope builtin options t = false :=
  Bool.eq_false_iff.mpr fun scope => h (kind_of_isScope scope)

theorem isAccess_of_ne (h : t.kind ≠ builtin.propertyAccess) :
    isAccess builtin options t = false :=
  Bool.eq_false_iff.mpr fun access => h (kind_of_isAccess access)

/-- A site stays of its kind. -/
theorem kind_migratedSite (h : isSite builtin options t = true) :
    (migratedSite builtin options t).kind = t.kind := by
  rw [migratedSite]
  split
  · rfl
  · rename_i notScope
    rw [isSite, Bool.eq_false_iff.mpr notScope, Bool.false_or] at h
    exact (kind_of_isAccess h).symm

/-- A node is an access before and after the sites below it are changed, or neither. -/
theorem isAccess_mapBelow (t : Tree) : isAccess builtin options
      (t.mapBelow (isSite builtin options) (migratedSite builtin options))
    = isAccess builtin options t := by
  let target (u : Tree) : Bool :=
    u.is builtin.identifier && u.attrStr? textAttr == some options.scopeParam
  have other {u : Tree} (h : u.kind ≠ builtin.identifier) : target u = false := by
    simp [target, Tree.is, h]
  have same (u : Tree) : target (u.mapOutermost (isSite builtin options)
      (migratedSite builtin options)) = target u := by
    -- a site is no identifier, and it does not become one
    cases hu : isSite builtin options u with
    | true =>
      have notIdentifier : u.kind ≠ builtin.identifier := by
        rcases kind_of_isSite hu with h | h <;> rw [h] <;> decide
      rw [Tree.mapOutermost_of_pos hu, other notIdentifier, other]
      rw [kind_migratedSite hu]
      exact notIdentifier
    | false =>
      rw [Tree.mapOutermost_of_neg hu]
      rfl
  have first : (t.mapBelow (isSite builtin options) (migratedSite builtin options)).child? 0
      = (t.child? 0).map (Tree.mapOutermost (isSite builtin options)
        (migratedSite builtin options)) := List.getElem?_map
  rw [isAccess, first, Option.any_map, isAccess]
  exact congrArg _ (congrArg (Option.any · _) (funext same))

theorem isSite_mapBelow (t : Tree) : isSite builtin options
      (t.mapBelow (isSite builtin options) (migratedSite builtin options))
    = isSite builtin options t := by
  rw [isSite, isAccess_mapBelow]
  rfl

end

/-! ## The constructors of a migrated tree -/

section

variable {options} {q : Tree → Prop} (stays : ∀ s, isSite builtin options s = false →
  q (s.mapBelow (isSite builtin options) (migratedSite builtin options)))

include stays

theorem everyBelow_migratedConstructor_iff {k : Tree} :
    (migratedConstructor builtin options k).EveryBelow q
      ↔ ∀ s ∈ k.outermostBelow (isSite builtin options),
        (migratedSite builtin options s).Every q :=
  Tree.everyBelow_mapBelow_iff stays

theorem everyBelow_migratedClass_iff {c : Tree} :
    ((migratedClass builtin options c).EveryBelow fun k =>
        k.kind = builtin.constructor → k.EveryBelow q)
      ↔ ∀ s ∈ sites builtin options c, (migratedSite builtin options s).Every q := by
  -- what is declared at the end of a class holds no constructor
  have declarations : ∀ d ∈ (missing builtin options c).map (Vocabulary.mkPropertyDeclaration
      builtin · (Vocabulary.mkAny builtin)),
      d.Every fun k => k.kind = builtin.constructor → k.EveryBelow q := by
    intro d hd
    obtain ⟨name, -, rfl⟩ := List.mem_map.mp hd
    simp [Vocabulary.mkPropertyDeclaration, Vocabulary.mkNamed, Vocabulary.mkAny, Tree.every_mk,
      builtin, Tree.leaf, Tree.withAttr, Tree.withChildren]
  have outside : ∀ s : Tree, s.is builtin.constructor = false →
      (s.mapBelow (·.is builtin.constructor) (migratedConstructor builtin options)).kind
        = builtin.constructor →
      (s.mapBelow (·.is builtin.constructor) (migratedConstructor builtin options)).EveryBelow q :=
    fun s hs isConstructor => absurd isConstructor (beq_eq_false_iff_ne.mp hs)
  have body : ((c.mapBelow (·.is builtin.constructor)
      (migratedConstructor builtin options)).EveryBelow fun k =>
        k.kind = builtin.constructor → k.EveryBelow q)
      ↔ ∀ s ∈ sites builtin options c, (migratedSite builtin options s).Every q := by
    rw [Tree.everyBelow_mapBelow_iff outside, sites, List.forall_mem_flatMap]
    refine forall₂_congr fun k hk => ?_
    have isConstructor : (migratedConstructor builtin options k).kind = builtin.constructor :=
      eq_of_beq (Tree.of_mem_outermostBelow hk)
    exact (Tree.every_ofKind_iff isConstructor).trans (everyBelow_migratedConstructor_iff stays)
  refine (List.forall_mem_append.trans ?_).trans body
  exact and_iff_left declarations

/-- **The constructors of a migrated tree.**  A property that the nodes which stay have is had by
all nodes in them exactly if the new nodes have it. -/
theorem inConstructors_migrated_iff {t : Tree} :
    InConstructors q (migrated builtin options t)
      ↔ ∀ s ∈ sitesIn options t, (migratedSite builtin options s).Every q := by
  rw [InConstructors, migrated, Tree.every_mapOutermost_iff, sitesIn, List.forall_mem_flatMap]
  · refine forall₂_congr fun c hc => ?_
    have isClass : (migratedClass builtin options c).kind = builtin.classDeclaration :=
      eq_of_beq (Tree.of_mem_outermost hc)
    exact (Tree.every_ofKind_iff isClass).trans (everyBelow_migratedClass_iff stays)
  · exact fun s hs isClass => absurd isClass (beq_eq_false_iff_ne.mp hs)

end

/-! ## New nodes -/

/-- The decorator of a changed parameter holds nothing that is changed. -/
theorem every_inject (token : String) :
    (Vocabulary.mkDecorator builtin "Inject" [Vocabulary.mkStringLiteral builtin token]).Every
      fun u => isSite builtin options u = false := by
  refine Tree.every_iff.mpr ⟨rfl, List.forall_mem_singleton.mpr (Tree.every_iff.mpr ⟨rfl, ?_⟩)⟩
  refine List.forall_mem_cons.mpr ⟨?_, List.forall_mem_singleton.mpr ?_⟩
  all_goals exact Tree.every_iff.mpr ⟨rfl, nofun⟩

/-- Nor does a changed access. -/
theorem every_migratedAccess (s : Tree) :
    (migratedAccess builtin s).Every fun u => isSite builtin options u = false := by
  refine Tree.every_iff.mpr ⟨rfl, List.forall_mem_cons.mpr ⟨?_, List.forall_mem_singleton.mpr ?_⟩⟩
  all_goals exact Tree.every_iff.mpr ⟨rfl, nofun⟩

variable {options} in
/-- A changed node has new nodes in it and, if it is a parameter, all that it held before. -/
theorem every_migratedSite_iff {q : Tree → Prop} (new : ∀ u, isSite builtin options u = false → q u)
    {s : Tree} (root : isScope builtin options s = true → q (migratedScope builtin options s)) :
    (migratedSite builtin options s).Every q
      ↔ (isScope builtin options s = true → s.EveryBelow q) := by
  have inject := every_inject options options.injectToken
  have access := every_migratedAccess options s
  rw [migratedSite]
  split
  · rename_i scope
    rw [Tree.every_iff, and_iff_right (root scope), imp_iff_right scope]
    refine List.forall_mem_cons.trans (and_iff_right ?_)
    exact fun position u hu => new u (inject position u hu)
  · rename_i notScope
    refine iff_of_true (fun position u hu => new u (access position u hu)) fun scope => ?_
    exact absurd scope notScope

/-! ## Accesses that are left -/

/-- No node in the constructors of classes is an access to a member of the scope. -/
def Cleared (t : Tree) : Prop := InConstructors (fun s => isAccess builtin options s = false) t

theorem cleared_migrated_iff {t : Tree} : Cleared options (migrated builtin options t)
    ↔ ∀ s ∈ scopesIn options t, s.EveryBelow fun u => isAccess builtin options u = false := by
  have notAccess {u : Tree} (h : isSite builtin options u = false) :
      isAccess builtin options u = false := (Bool.or_eq_false_iff.mp h).2
  have parameter {s : Tree} (h : isScope builtin options s = true) :
      isAccess builtin options (migratedScope builtin options s) = false := by
    refine isAccess_of_ne ?_
    rw [show (migratedScope builtin options s).kind = s.kind from rfl, kind_of_isScope h]
    decide
  rw [Cleared, inConstructors_migrated_iff fun s hs => by rw [isAccess_mapBelow, notAccess hs]]
  simp only [scopesIn, List.mem_filter, and_imp]
  exact forall₂_congr fun s _ => every_migratedSite_iff (fun _ => notAccess) parameter

/-- **Accesses are left exactly below parameters that are changed.**  Where the recipe succeeds, no
access to a member of the scope is left in the constructors of classes if and only if there was none
below a parameter with the name of the scope that the recipe changed: such a parameter keeps its
children as they were. -/
theorem run_cleared_iff : ∃ pass, ScopeToThis.pass options .builtin = .ok pass ∧
    ∀ t t', pass.run t = .ok t' → (Cleared options t'
      ↔ ∀ s ∈ scopesIn options t, s.EveryBelow fun u => isAccess builtin options u = false) := by
  refine ⟨_, pass_builtin options, fun t t' run => ?_⟩
  obtain ⟨-, rfl⟩ := eq_migrated_of_rewrite options run
  exact cleared_migrated_iff options

/-- `class Panel { constructor($scope = …) { return $scope.title; } }`, with the default value of
the parameter, if it has one. -/
def panel (default? : Option Tree) : Tree :=
  let access := builtin.mkPropertyAccess (builtin.mkIdentifier "$scope") "title"
  let parameter := builtin.mkParameter "$scope" [] default?
  let constructor : Tree :=
    { kind := builtin.constructor
      children := [parameter, builtin.mkBlock [builtin.mkReturn access]] }
  Vocabulary.mkNamed builtin.classDeclaration "Panel" [constructor]

/-- Where the parameter has no default value, no access is left. -/
theorem run_cleared_iff_panel : ∃ pass t', ScopeToThis.pass {} .builtin = .ok pass ∧
    pass.run (panel none) = .ok t' ∧ Cleared {} t' := by
  obtain ⟨pass, hpass, cleared⟩ := run_cleared_iff {}
  obtain rfl : pass = _ := Except.ok.inj (hpass.symm.trans (pass_builtin {}))
  have scopes : scopesIn {} (panel none) = [builtin.mkParameter "$scope" [] none] := by rfl
  refine ⟨_, _, hpass, rfl, (cleared (panel none) _ rfl).mpr fun s hs _ => ?_⟩
  rw [scopes, List.mem_singleton] at hs
  subst hs
  exact nofun

/-- `$scope.title` as the default value is left. -/
theorem access_left_in_default : ∃ pass t', ScopeToThis.pass {} .builtin = .ok pass ∧
    pass.run (panel (some (builtin.mkPropertyAccess (builtin.mkIdentifier "$scope") "title")))
      = .ok t' ∧ ¬ Cleared {} t' := by
  let access := builtin.mkPropertyAccess (builtin.mkIdentifier "$scope") "title"
  let parameter := builtin.mkParameter "$scope" [] (some access)
  have changed : parameter ∈ scopesIn {} (panel (some access)) := by
    rw [show scopesIn {} (panel (some access)) = [parameter] by rfl]
    exact List.mem_cons_self
  refine ⟨_, migrated builtin {} (panel (some access)), pass_builtin {}, rfl, fun cleared => ?_⟩
  have kept : isAccess builtin {} access = false :=
    (cleared_migrated_iff {}).mp cleared parameter changed access List.mem_cons_self [] access rfl
  cases kept

/-! ## Sites that are left -/

/-- No node in the constructors of classes is one that the recipe changes. -/
def Settled (t : Tree) : Prop := InConstructors (fun s => isSite builtin options s = false) t

variable {options} in
/-- What holds of all nodes of a tree holds of all nodes that are changed. -/
theorem every_of_mem_sitesIn {q : Tree → Prop} {t s : Tree} (h : t.Every q)
    (hs : s ∈ sitesIn options t) : s.Every q := by
  obtain ⟨c, hc, hs⟩ := List.mem_flatMap.mp hs
  obtain ⟨k, hk, hs⟩ := List.mem_flatMap.mp hs
  have inClass := Tree.every_of_mem_outermost h hc
  have inConstructor := Tree.every_of_mem_outermostBelow inClass.below hk
  exact Tree.every_of_mem_outermostBelow inConstructor.below hs

/-- A parameter under another name is no parameter with the name of the scope. -/
theorem isSite_migratedScope (renamed : options.renamedParam ≠ options.scopeParam) {s : Tree}
    (h : isScope builtin options s = true) :
    isSite builtin options (migratedScope builtin options s) = false := by
  have parameter : s.kind = builtin.parameter := kind_of_isScope h
  have kind : (migratedScope builtin options s).kind = builtin.parameter := parameter
  have name : (migratedScope builtin options s).attrStr? nameAttr = some options.renamedParam := by
    rw [Tree.attrStr?, Tree.attr?, migratedScope, Fields.get?_insert, if_pos rfl]
    rfl
  rw [isSite, isScope, name, isAccess_of_ne (by rw [kind]; decide)]
  simp [renamed]

/-- Nothing is left to be changed if nothing was to be changed below parameters with the name of the
scope. -/
theorem settled_migrated (renamed : options.renamedParam ≠ options.scopeParam) {t : Tree}
    (h : t.Every fun s => isScope builtin options s = true →
      s.EveryBelow fun u => isSite builtin options u = false) :
    Settled options (migrated builtin options t) := by
  refine (inConstructors_migrated_iff fun s hs => (isSite_mapBelow s).trans hs).mpr fun s hs => ?_
  refine (every_migratedSite_iff (fun _ clear => clear) ?_).mpr (every_of_mem_sitesIn h hs).here
  exact isSite_migratedScope options renamed

end TreeRewrite.ScopeToThis
