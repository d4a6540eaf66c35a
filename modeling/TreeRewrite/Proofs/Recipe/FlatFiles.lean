import TreeRewrite.Proofs.Recipe.Migration
import TreeRewrite.Proofs.Recipe.Services

/-!
# Files with classes at the top

As a rule classes and interfaces stand at the top of a file and constructors stand in classes.  In
such a *flat* file, neither recipe meddles with what the other looks at: what mocks are made of is
the same before and after scopes have given way to members, and in what is made for a service there
is no scope to be found.

## What is here

* `Recipe.Flat` — flat files.
* `Recipe.Inert` — a tree in which `scope-to-this` finds nothing to do.  Interfaces and mocks are
  such trees (`Recipe.inert_interfaceOf`, `Recipe.inert_mockFileOf`).
* `Recipe.Retold` — two files that are alike statement by statement, as far as mocks are concerned.
  They get the same mocks (`Recipe.Retold.bundled`), and the same is wrong with them
  (`Recipe.Retold.fileFault?`).  A flat file and its migrated file are such files
  (`Recipe.Flat.retold`).
* `Recipe.Flat.migrated_bundled` — the migrated bundle of a flat file is the bundle of the migrated
  file.
-/

set_option autoImplicit false

namespace TreeRewrite.Recipe

open Vocabulary (builtin)

variable (options : RecipeOptions)

/-! ## Flat files -/

/-- A node that is neither a class nor an interface. -/
def Plain (t : Tree) : Prop :=
  t.kind ≠ builtin.classDeclaration ∧ t.kind ≠ builtin.interfaceDeclaration

/-- A node that is no constructor either. -/
def Calm (t : Tree) : Prop := Plain t ∧ t.kind ≠ builtin.constructor

/-- A file whose classes and interfaces are children of its own, and whose constructors are children
of classes. -/
structure Flat (file : Tree) : Prop where
  isFile : file.kind = builtin.sourceFile
  declarations : ∀ s ∈ file.children, ∀ t ∈ s.children, t.Every Plain
  constructors : file.Every fun t =>
    ∀ child ∈ t.children, child.kind = builtin.constructor → t.kind = builtin.classDeclaration

theorem calm_of_plain {t : Tree} (plain : t.Every Plain) (constructors : t.Every fun s =>
      ∀ child ∈ s.children, child.kind = builtin.constructor → s.kind = builtin.classDeclaration)
    (h : t.kind ≠ builtin.constructor) : t.Every Calm := by
  induction t using Tree.induction with
  | node t ih =>
    -- a constructor among the children would make a class of the node
    obtain ⟨root, below⟩ := Tree.every_iff.mp plain
    obtain ⟨root', constructors⟩ := Tree.every_iff.mp constructors
    refine Tree.every_iff.mpr ⟨⟨root, h⟩, fun child hc => ?_⟩
    exact ih child hc (below child hc) (constructors child hc) fun isConstructor =>
      root.1 (root' child hc isConstructor)

/-- What a class of a flat file holds beside its constructors. -/
theorem Flat.calm_member {file : Tree} (flat : Flat file) {c d : Tree} (hc : c ∈ file.children)
    (hd : d ∈ c.children) (h : d.kind ≠ builtin.constructor) : d.Every Calm := by
  have below := (Tree.every_iff.mp flat.constructors).2 c hc
  exact calm_of_plain (flat.declarations c hc d hd) ((Tree.every_iff.mp below).2 d hd) h

/-! ## Trees in which nothing is to be done -/

/-- The recipe finds nothing to do in a tree. -/
structure Inert (t : Tree) : Prop where
  migrated : ScopeToThis.migrated builtin options t = t
  accessesIn : ScopeToThis.accessesIn builtin options t = []

theorem map_migrated_of_inert {ts : List Tree} (h : ∀ t ∈ ts, Inert options t) :
    ts.map (ScopeToThis.migrated builtin options) = ts := by
  rw [List.map_congr_left fun t ht => (h t ht).migrated, List.map_id']

theorem flatMap_accessesIn_of_inert {ts : List Tree} (h : ∀ t ∈ ts, Inert options t) :
    ts.flatMap (ScopeToThis.accessesIn builtin options) = [] :=
  List.flatMap_eq_nil_iff.mpr fun t ht => (h t ht).accessesIn

theorem inert_of_every {t : Tree} (h : t.Every fun s => s.kind ≠ builtin.classDeclaration) :
    Inert options t := by
  have noClass : t.Every fun s => s.is builtin.classDeclaration = false :=
    fun position s hs => beq_eq_false_iff_ne.mpr (h position s hs)
  refine ⟨Tree.mapOutermost_eq_self noClass, ?_⟩
  rw [ScopeToThis.accessesIn, Tree.outermost_eq_nil noClass, List.flatMap_nil]

/-- A node that is no class is inert if its children are. -/
theorem inert_of_children {t : Tree} (root : t.kind ≠ builtin.classDeclaration)
    (below : ∀ child ∈ t.children, Inert options child) : Inert options t := by
  refine ⟨?_, ?_⟩
  · rw [ScopeToThis.migrated_of_ne builtin options root, map_migrated_of_inert options below,
      Tree.rebuilt_children]
  · rw [ScopeToThis.accessesIn_of_ne builtin options root,
      flatMap_accessesIn_of_inert options below]

/-- A class without constructors is inert. -/
theorem inert_of_class {t : Tree} (root : t.kind = builtin.classDeclaration)
    (below : ∀ child ∈ t.children, child.Every fun s => s.kind ≠ builtin.constructor) :
    Inert options t := by
  have noConstructor : ∀ child ∈ t.children,
      child.Every fun s => s.is builtin.constructor = false :=
    fun child hc position s hs => beq_eq_false_iff_ne.mpr (below child hc position s hs)
  have noSite : ScopeToThis.sites builtin options t = [] := by
    rw [ScopeToThis.sites, Tree.outermostBelow, List.flatMap_eq_nil_iff.mpr fun child hc =>
      Tree.outermost_eq_nil (noConstructor child hc), List.flatMap_nil]
  have noAccess : ScopeToThis.accesses builtin options t = [] := by
    rw [ScopeToThis.accesses, noSite, List.filter_nil]
  have noMissing : ScopeToThis.missing builtin options t = [] := by
    rw [ScopeToThis.missing, ScopeToThis.members, noAccess]
    rfl
  refine ⟨?_, ?_⟩
  · rw [ScopeToThis.migrated_of_class builtin options root, ScopeToThis.migratedClass, noMissing,
      List.map_nil, Tree.withChildren_nil, Tree.mapBelow, List.map_congr_left fun child hc =>
        Tree.mapOutermost_eq_self (noConstructor child hc), List.map_id', Tree.rebuilt_children]
  · rw [ScopeToThis.accessesIn_of_class builtin options root, noAccess]

section

variable {t : Tree} (root : t.kind ≠ builtin.classDeclaration) {more : List Tree}
  (inert : ∀ child ∈ more, Inert options child)

include root inert

/-- Inert children behind the others stay as they are. -/
theorem migrated_withChildren : ScopeToThis.migrated builtin options (t.withChildren more)
    = (ScopeToThis.migrated builtin options t).withChildren more := by
  have root' : (t.withChildren more).kind ≠ builtin.classDeclaration := root
  rw [ScopeToThis.migrated_of_ne builtin options root', Tree.withChildren, List.map_append,
    map_migrated_of_inert options inert, ScopeToThis.migrated_of_ne builtin options root]
  rfl

theorem accessesIn_withChildren : ScopeToThis.accessesIn builtin options (t.withChildren more)
    = ScopeToThis.accessesIn builtin options t := by
  have root' : (t.withChildren more).kind ≠ builtin.classDeclaration := root
  rw [ScopeToThis.accessesIn_of_ne builtin options root', Tree.withChildren, List.flatMap_append,
    flatMap_accessesIn_of_inert options inert, List.append_nil,
    ScopeToThis.accessesIn_of_ne builtin options root]

end

/-! ## Files that get the same mocks -/

/-- Statements that are the same in all that mocks are made of. -/
structure Alike (s s' : Tree) : Prop where
  kind : s'.kind = s.kind
  attrs : s'.attrs = s.attrs
  decorators : s'.childrenOf builtin.decorator = s.childrenOf builtin.decorator
  methods : ServiceMocks.methods builtin s' = ServiceMocks.methods builtin s

namespace Alike

variable {s s' : Tree}

theorem is (h : Alike s s') (kind : Kind) : s'.is kind = s.is kind := by
  rw [Tree.is, Tree.is, h.kind]

theorem name (h : Alike s s') : s'.attrStr? nameAttr = s.attrStr? nameAttr := by
  rw [Tree.attrStr?, Tree.attr?, h.attrs]
  rfl

theorem nameOf (h : Alike s s') : ServiceMocks.nameOf s' = ServiceMocks.nameOf s := by
  rw [ServiceMocks.nameOf, h.name, ServiceMocks.nameOf]

theorem nameFault? (h : Alike s s') : ServiceMocks.nameFault? s' = ServiceMocks.nameFault? s := by
  rw [ServiceMocks.nameFault?, h.name, h.kind, ServiceMocks.nameFault?]

theorem isRecorded (h : Alike s s') :
    ServiceMocks.isRecorded builtin s' = ServiceMocks.isRecorded builtin s := by
  rw [ServiceMocks.isRecorded, h.is, h.is, ServiceMocks.isInjectable, h.decorators]
  rfl

theorem interfaceOf (h : Alike s s') :
    ServiceMocks.interfaceOf builtin s' = ServiceMocks.interfaceOf builtin s := by
  rw [ServiceMocks.interfaceOf, h.nameOf, h.methods, ServiceMocks.interfaceOf]

theorem mockFileOf (h : Alike s s') :
    ServiceMocks.mockFileOf builtin s' = ServiceMocks.mockFileOf builtin s := by
  rw [ServiceMocks.mockFileOf, ServiceMocks.mockOf, h.nameOf, h.methods, ServiceMocks.mockFileOf,
    ServiceMocks.mockOf]

end Alike

/-- A file whose classes and interfaces are children of its own. -/
def Shallow (file : Tree) : Prop := ∀ s ∈ file.children, ∀ t ∈ s.children, t.Every Plain

/-- What is found in a shallow file are children of its own. -/
theorem Shallow.recorded {file : Tree} (shallow : Shallow file) :
    file.outermostBelow (ServiceMocks.isRecorded builtin)
      = file.children.filter (ServiceMocks.isRecorded builtin) := by
  refine Tree.outermostBelow_eq_filter fun s hs t ht position u hu => ?_
  obtain ⟨notClass, notInterface⟩ := shallow s hs t ht position u hu
  simp [ServiceMocks.isRecorded, Tree.is, notClass, notInterface]

theorem filter_map_congr {p p' : Tree → Bool} {g : Tree → Tree} {ts : List Tree}
    (h : ∀ s ∈ ts, p' (g s) = p s) : (ts.map g).filter p' = (ts.filter p).map g := by
  rw [List.filter_map]
  exact congrArg _ (List.filter_congr h)

theorem findSome?_map_congr {α : Type} {fault? fault?' : Tree → Option α} {g : Tree → Tree}
    {ts : List Tree} (h : ∀ s ∈ ts, fault?' (g s) = fault? s) :
    (ts.map g).findSome? fault?' = ts.findSome? fault? := by
  induction ts with
  | nil => rfl
  | cons t rest ih =>
    obtain ⟨here, later⟩ := List.forall_mem_cons.mp h
    rw [List.map_cons, List.findSome?_cons, List.findSome?_cons, here, ih later]

/-- Two shallow files with the same number of statements, which are alike one by one. -/
structure Retold (file : Tree) (g : Tree → Tree) : Prop where
  alike : ∀ s ∈ file.children, Alike s (g s)
  before : Shallow file
  after : Shallow (file.rebuilt (file.children.map g))

namespace Retold

variable {file : Tree} {g : Tree → Tree} (h : Retold file g)

include h

theorem recorded_alike :
    ∀ s ∈ file.children.filter (ServiceMocks.isRecorded builtin), Alike s (g s) :=
  fun s hs => h.alike s (List.mem_filter.mp hs).1

theorem recorded : (file.rebuilt (file.children.map g)).outermostBelow
      (ServiceMocks.isRecorded builtin)
    = (file.children.filter (ServiceMocks.isRecorded builtin)).map g := by
  rw [h.after.recorded, Tree.children_rebuilt]
  exact filter_map_congr fun s hs => (h.alike s hs).isRecorded

theorem recordedInterfaces :
    ServiceMocks.recordedInterfaces builtin (file.rebuilt (file.children.map g))
      = (ServiceMocks.recordedInterfaces builtin file).map g := by
  rw [ServiceMocks.recordedInterfaces, h.recorded, ServiceMocks.recordedInterfaces,
    h.before.recorded]
  exact filter_map_congr fun s hs => (h.recorded_alike s hs).is _

theorem recordedClasses :
    ServiceMocks.recordedClasses builtin (file.rebuilt (file.children.map g))
      = (ServiceMocks.recordedClasses builtin file).map g := by
  rw [ServiceMocks.recordedClasses, h.recorded, ServiceMocks.recordedClasses, h.before.recorded]
  exact filter_map_congr fun s hs => (h.recorded_alike s hs).is _

theorem interface_alike : ∀ s ∈ ServiceMocks.recordedInterfaces builtin file, Alike s (g s) := by
  rw [ServiceMocks.recordedInterfaces, h.before.recorded]
  exact fun s hs => h.recorded_alike s (List.mem_filter.mp hs).1

theorem class_alike : ∀ s ∈ ServiceMocks.recordedClasses builtin file, Alike s (g s) := by
  rw [ServiceMocks.recordedClasses, h.before.recorded]
  exact fun s hs => h.recorded_alike s (List.mem_filter.mp hs).1

theorem isCovered {s s' : Tree} (same : Alike s s') :
    ServiceMocks.isCovered builtin (file.rebuilt (file.children.map g)) s'
      = ServiceMocks.isCovered builtin file s := by
  have names : ((ServiceMocks.recordedInterfaces builtin file).map g).map ServiceMocks.nameOf
      = (ServiceMocks.recordedInterfaces builtin file).map ServiceMocks.nameOf := by
    rw [List.map_map]
    exact List.map_congr_left fun s hs => (h.interface_alike s hs).nameOf
  rw [← ServiceMocks.covers_eq builtin _ _ [], ← ServiceMocks.covers_eq builtin _ _ [],
    h.recordedInterfaces, names, same.nameOf]

theorem services : ServiceMocks.services builtin (file.rebuilt (file.children.map g))
    = (ServiceMocks.services builtin file).map g := by
  rw [ServiceMocks.services, h.recordedClasses]
  exact filter_map_congr fun s hs => congrArg _ (h.isCovered (h.class_alike s hs))

/-- What is made of the services is the same. -/
theorem map_services {make : Tree → Tree} (same : ∀ s, Alike s (g s) → make (g s) = make s) :
    (ServiceMocks.services builtin (file.rebuilt (file.children.map g))).map make
      = (ServiceMocks.services builtin file).map make := by
  rw [h.services, List.map_map]
  exact List.map_congr_left fun s hs => same s (h.class_alike s (List.mem_filter.mp hs).1)

/-- What becomes of the one file is what becomes of the other, but for the file itself. -/
theorem bundled : ServiceMocks.bundled builtin (file.rebuilt (file.children.map g))
    = (ServiceMocks.bundled builtin file).rebuilt
      ((file.rebuilt (file.children.map g)).withChildren
          ((ServiceMocks.services builtin file).map (ServiceMocks.interfaceOf builtin)) ::
        (ServiceMocks.services builtin file).map (ServiceMocks.mockFileOf builtin)) := by
  rw [ServiceMocks.bundled, h.map_services fun s same => same.interfaceOf,
    h.map_services fun s same => same.mockFileOf]
  rfl

theorem fileFault? : ServiceMocks.fileFault? builtin (file.rebuilt (file.children.map g))
    = ServiceMocks.fileFault? builtin file := by
  have interfaces : ((ServiceMocks.recordedInterfaces builtin file).map g).findSome?
        ServiceMocks.nameFault?
      = (ServiceMocks.recordedInterfaces builtin file).findSome? ServiceMocks.nameFault? :=
    findSome?_map_congr fun s hs => (h.interface_alike s hs).nameFault?
  rw [ServiceMocks.fileFault?, ServiceMocks.asked, h.recordedInterfaces, h.recordedClasses,
    List.findSome?_append, interfaces, Tree.findSome?_flatMap, ServiceMocks.fileFault?,
    ServiceMocks.asked, List.findSome?_append, Tree.findSome?_flatMap]
  refine congrArg _ (findSome?_map_congr fun s hs => ?_)
  have same := h.class_alike s hs
  rw [ServiceMocks.askedBy, h.isCovered same, same.methods, List.findSome?_cons, same.nameFault?,
    ServiceMocks.askedBy, List.findSome?_cons]

end Retold

/-! ## Members in place of scopes -/

/-- The nodes that the recipe builds are no declarations. -/
theorem plain_migratedSite {s : Tree} (h : s.Every Plain) :
    (ScopeToThis.migratedSite builtin options s).Every Plain := by
  rw [ScopeToThis.migratedSite]
  split
  · obtain ⟨root, below⟩ := Tree.every_iff.mp h
    refine Tree.every_mk.mpr ⟨root, List.forall_mem_cons.mpr ⟨?_, below⟩⟩
    simp [Vocabulary.mkDecorator, Vocabulary.mkIdentifier, Vocabulary.mkStringLiteral,
      Tree.every_mk, Plain, builtin, Tree.leaf, Tree.withAttr]
  · simp [ScopeToThis.migratedAccess, Vocabulary.mkPropertyAccess, Vocabulary.mkThis,
      Vocabulary.mkIdentifier, Tree.every_mk, Plain, builtin, Tree.leaf, Tree.withAttr]

theorem plain_migratedConstructor {s : Tree} (h : s.Every Plain) :
    (ScopeToThis.migratedConstructor builtin options s).Every Plain := by
  obtain ⟨root, below⟩ := Tree.every_iff.mp h
  refine Tree.every_iff.mpr ⟨root, fun child' hc' => ?_⟩
  obtain ⟨child, hc, rfl⟩ := List.mem_map.mp hc'
  exact Tree.every_mapOutermost (fun _ _ hs => hs) (fun _ _ hs => plain_migratedSite options hs)
    (below child hc)

theorem plain_child_migratedClass {c : Tree} (h : ∀ d ∈ c.children, d.Every Plain) :
    ∀ d ∈ (ScopeToThis.migratedClass builtin options c).children, d.Every Plain := by
  intro d' hd'
  rcases List.mem_append.mp hd' with hd' | hd'
  · obtain ⟨d, hd, rfl⟩ := List.mem_map.mp hd'
    exact Tree.every_mapOutermost (fun _ _ hs => hs)
      (fun _ _ hs => plain_migratedConstructor options hs) (h d hd)
  · obtain ⟨name, -, rfl⟩ := List.mem_map.mp hd'
    simp [Vocabulary.mkPropertyDeclaration, Vocabulary.mkNamed, Vocabulary.mkAny, Tree.every_mk,
      Plain, builtin, Tree.leaf, Tree.withAttr, Tree.withChildren]

/-- The children of a class that are of another kind than constructors and properties. -/
theorem childrenOf_migratedClass {c : Tree} {kind : Kind}
    (calm : ∀ d ∈ c.children, d.kind ≠ builtin.constructor → d.Every Calm)
    (notConstructor : kind ≠ builtin.constructor)
    (notProperty : kind ≠ builtin.propertyDeclaration) :
    (ScopeToThis.migratedClass builtin options c).childrenOf kind = c.childrenOf kind := by
  have properties (names : List String) :
      (names.map (Vocabulary.mkPropertyDeclaration builtin · (Vocabulary.mkAny builtin))).filter
        (·.is kind) = [] := by
    refine List.filter_eq_nil_iff.mpr fun d hd => ?_
    obtain ⟨name, -, rfl⟩ := List.mem_map.mp hd
    exact fun hk => notProperty (eq_of_beq hk).symm
  have others : ∀ d ∈ c.children.filter (·.is kind), d.mapOutermost (·.is builtin.constructor)
      (ScopeToThis.migratedConstructor builtin options) = d := by
    intro d hd
    obtain ⟨hd, hk⟩ := List.mem_filter.mp hd
    have here := calm d hd (eq_of_beq hk ▸ notConstructor)
    exact Tree.mapOutermost_eq_self fun position s hs =>
      beq_eq_false_iff_ne.mpr (here position s hs).2
  rw [ScopeToThis.migratedClass, Tree.childrenOf, Tree.withChildren, List.filter_append, properties,
    List.append_nil]
  refine (filter_map_congr (p := (·.is kind)) fun d _ =>
    ScopeToThis.is_migratedMember builtin options d kind).trans ?_
  rw [List.map_congr_left others, List.map_id', Tree.childrenOf]

namespace Flat

variable {file : Tree} (flat : Flat file)

include flat

theorem migrated_eq_self {s : Tree} (hs : s ∈ file.children)
    (h : s.kind ≠ builtin.classDeclaration) : ScopeToThis.migrated builtin options s = s := by
  have noClass : s.Every fun t => t.kind ≠ builtin.classDeclaration :=
    Tree.every_iff.mpr ⟨h, fun t ht position u hu => (flat.declarations s hs t ht position u hu).1⟩
  exact (inert_of_every options noClass).migrated

theorem retold : Retold file (ScopeToThis.migrated builtin options) where
  alike s hs := by
    -- only classes change, and of a class only constructors and properties
    by_cases h : s.kind = builtin.classDeclaration
    · have calm := fun d hd => flat.calm_member (d := d) hs hd
      rw [ScopeToThis.migrated_of_class builtin options h]
      exact ⟨rfl, rfl, childrenOf_migratedClass options calm (by decide) (by decide),
        childrenOf_migratedClass options calm (by decide) (by decide)⟩
    · rw [flat.migrated_eq_self options hs h]
      exact ⟨rfl, rfl, rfl, rfl⟩
  before := flat.declarations
  after s' hs' := by
    obtain ⟨s, hs, rfl⟩ := List.mem_map.mp hs'
    by_cases h : s.kind = builtin.classDeclaration
    · rw [ScopeToThis.migrated_of_class builtin options h]
      exact plain_child_migratedClass options (flat.declarations s hs)
    · rw [flat.migrated_eq_self options hs h]
      exact flat.declarations s hs

theorem migrated_eq : ScopeToThis.migrated builtin options file
    = file.rebuilt (file.children.map (ScopeToThis.migrated builtin options)) :=
  ScopeToThis.migrated_of_ne builtin options (by rw [flat.isFile]; decide)

end Flat

/-! ## What is made of services -/

/-- New nodes in interfaces and mocks are neither declarations nor constructors. -/
theorem calm_of_companionKinds {t : Tree}
    (h : t.kind ∈ ServiceMocks.companionKinds builtin) : Calm t := by
  have all : ∀ kind ∈ ServiceMocks.companionKinds builtin,
      (kind ≠ builtin.classDeclaration ∧ kind ≠ builtin.interfaceDeclaration)
        ∧ kind ≠ builtin.constructor := by decide
  exact all t.kind h

section

variable {c : Tree} (calm : ∀ method ∈ ServiceMocks.methods builtin c, method.Every Calm)

include calm

/-- The interface of a class holds no class. -/
theorem inert_interfaceOf : Inert options (ServiceMocks.interfaceOf builtin c) := by
  have members := ServiceMocks.everyBelow_interfaceOf (fun _ => calm_of_companionKinds)
    fun method hm => (calm method hm).below
  have root : builtin.interfaceDeclaration ≠ builtin.classDeclaration := by decide
  exact inert_of_every options (Tree.every_iff.mpr
    ⟨root, fun t ht position s hs => (members t ht position s hs).1.1⟩)

/-- The mock of a class is a class without constructors. -/
theorem inert_mockFileOf : Inert options (ServiceMocks.mockFileOf builtin c) := by
  have members := ServiceMocks.everyBelow_mockOf (fun _ => calm_of_companionKinds)
    fun method hm => (calm method hm).below
  have mock : Inert options (ServiceMocks.mockOf builtin c) :=
    inert_of_class options rfl fun t ht position s hs => (members t ht position s hs).2
  have root : builtin.sourceFile ≠ builtin.classDeclaration := by decide
  exact inert_of_children options root (List.forall_mem_singleton.mpr mock)

end

/-! ## Both recipes -/

theorem bundled_notClass (file : Tree) :
    (ServiceMocks.bundled builtin file).kind ≠ builtin.classDeclaration := by
  show builtin.bundle ≠ builtin.classDeclaration
  decide

namespace Flat

variable {file : Tree} (flat : Flat file)

include flat

theorem notClass : file.kind ≠ builtin.classDeclaration := by
  rw [flat.isFile]
  decide

theorem mem_children_of_service {c : Tree} (hc : c ∈ ServiceMocks.services builtin file) :
    c ∈ file.children := by
  have recorded := (List.mem_filter.mp hc).1
  rw [ServiceMocks.recordedClasses, Shallow.recorded flat.declarations] at recorded
  exact (List.mem_filter.mp (List.mem_filter.mp recorded).1).1

theorem calm_method {c : Tree} (hc : c ∈ ServiceMocks.services builtin file) :
    ∀ method ∈ ServiceMocks.methods builtin c, method.Every Calm := by
  intro method hm
  obtain ⟨hm, isMethod⟩ := List.mem_filter.mp hm
  refine flat.calm_member (flat.mem_children_of_service hc) hm ?_
  rw [eq_of_beq isMethod]
  decide

theorem inert_interfaces : ∀ t ∈ (ServiceMocks.services builtin file).map
    (ServiceMocks.interfaceOf builtin), Inert options t := by
  intro t ht
  obtain ⟨c, hc, rfl⟩ := List.mem_map.mp ht
  exact inert_interfaceOf options (flat.calm_method hc)

theorem inert_mockFiles : ∀ t ∈ (ServiceMocks.services builtin file).map
    (ServiceMocks.mockFileOf builtin), Inert options t := by
  intro t ht
  obtain ⟨c, hc, rfl⟩ := List.mem_map.mp ht
  exact inert_mockFileOf options (flat.calm_method hc)

/-- **Members in a bundle** are those in the file that it was made of. -/
theorem migrated_bundled :
    ScopeToThis.migrated builtin options (ServiceMocks.bundled builtin file)
      = ServiceMocks.bundled builtin (ScopeToThis.migrated builtin options file) := by
  have first := migrated_withChildren options flat.notClass (flat.inert_interfaces options)
  have files := map_migrated_of_inert options (flat.inert_mockFiles options)
  rw [ScopeToThis.migrated_of_ne builtin options (bundled_notClass file), ServiceMocks.bundled,
    List.map_cons, first, files, flat.migrated_eq options, (flat.retold options).bundled]
  rfl

/-- What goes wrong in a bundle goes wrong in the file that it was made of. -/
theorem wellFormed_bundled :
    ScopeToThis.wellFormed builtin options (ServiceMocks.bundled builtin file)
      = ScopeToThis.wellFormed builtin options file := by
  have first := accessesIn_withChildren options flat.notClass (flat.inert_interfaces options)
  have files := flatMap_accessesIn_of_inert options (flat.inert_mockFiles options)
  rw [ScopeToThis.wellFormed, ScopeToThis.accessesIn_of_ne builtin options (bundled_notClass file),
    ServiceMocks.bundled, List.flatMap_cons, first, files, List.append_nil, ScopeToThis.wellFormed]

/-- What goes wrong in the file goes wrong with members, too. -/
theorem fileFault?_migrated :
    ServiceMocks.fileFault? builtin (ScopeToThis.migrated builtin options file)
      = ServiceMocks.fileFault? builtin file := by
  rw [flat.migrated_eq options, (flat.retold options).fileFault?]

end Flat

end TreeRewrite.Recipe
