/-!
# Kinds and their names

A node carries a `Kind`, a 16-bit code.  A `KindTable` gives names to codes.  Several names may
stand for one code; the first of them is the code's canonical name.

A table is kept in two maps, `KindMaps`: the code of each name, where a second `insert` of a name
replaces the code, and the canonical name of each code, where a second `insert` keeps the name that
is there.  The maps of a table are `KindMaps.Linked`: they lead back from a code to its name and on
to the code, they know the same codes, and no name is reserved.

* `KindTable.add`, `KindTable.ofEntries` — tables are built by adding names, and a name is refused
  if it is reserved or taken.  This is what keeps the maps linked (`KindMaps.Linked.insert`).
* `KindTable.builtin` — the kinds of TypeScript syntax that trees may use unless a table of their
  own is given, with the codes of TypeScript 2, and `Bundle` for a collection of trees.
* `KindTable.kindOf`, `KindTable.nameOf` — the two directions.
* `KindTable.listing` — every kind once, under its canonical name, in the order of codes.
-/

set_option autoImplicit false

namespace TreeRewrite

/-- The discriminator of a node's syntactic role. -/
structure Kind where
  code : UInt16
deriving DecidableEq, Repr, Inhabited

/-- Why a kind table or a table of rules was refused. -/
inductive TableError where
  | reservedName (name : String)
  | duplicateName (name : String)
  | duplicateKind (kind : Kind) (first second : String)
  | missingKind (name : String)
deriving DecidableEq, Repr

/-- The words for a refused table. -/
def TableError.message : TableError → String
  | .reservedName name => s!"'{name}' is reserved and cannot be used as a kind name"
  | .duplicateName name => s!"kind name '{name}' is registered more than once"
  | .duplicateKind kind first second =>
    s!"keys '{first}' and '{second}' both resolve to kind {kind.code}"
  | .missingKind name => s!"kind '{name}' is not in the kind table"

/-- The names of callbacks, which cannot name kinds. -/
def callbackNames : List String := ["visit", "leave", "filter"]

/-- Is the name kept for callbacks, or for private use by a leading underscore? -/
def isReserved (name : String) : Bool :=
  callbackNames.contains name || name.toList.head? == some '_'

/-! ## The two maps -/

/-- The maps of a kind table. -/
structure KindMaps where
  /-- The kind of each name. -/
  byName : String → Option Kind := fun _ => none
  /-- The canonical name of each kind, in the order of codes. -/
  canonical : List (Kind × String) := []

namespace KindMaps

/-- Gives a name to a kind in a map in the order of codes, unless the kind has one. -/
def insertIfNew (kind : Kind) (name : String) : List (Kind × String) → List (Kind × String)
  | [] => [(kind, name)]
  | entry :: rest =>
    if kind.code < entry.1.code then (kind, name) :: entry :: rest
    else if kind = entry.1 then entry :: rest
    else entry :: insertIfNew kind name rest

/-- Enters a name and its kind into both maps.  What the name stood for is forgotten, what the kind
was called is kept. -/
def insert (maps : KindMaps) (entry : String × Kind) : KindMaps where
  byName name := if name = entry.1 then some entry.2 else maps.byName name
  canonical := insertIfNew entry.2 entry.1 maps.canonical

@[simp]
theorem byName_insert {maps : KindMaps} {entry : String × Kind} {name : String} :
    (maps.insert entry).byName name = if name = entry.1 then some entry.2 else maps.byName name :=
  rfl

@[simp]
theorem canonical_insert {maps : KindMaps} {entry : String × Kind} :
    (maps.insert entry).canonical = insertIfNew entry.2 entry.1 maps.canonical :=
  rfl

/-- The codes of the kinds rise. -/
def Sorted (canonical : List (Kind × String)) : Prop :=
  canonical.Pairwise fun a b => a.1.code < b.1.code

/-- What ties the two maps of a table together. -/
structure Linked (maps : KindMaps) : Prop where
  sorted : Sorted maps.canonical
  /-- The canonical name of a kind stands for the kind. -/
  back : ∀ {kind name}, maps.canonical.lookup kind = some name → maps.byName name = some kind
  /-- A kind with a name has a canonical name. -/
  named : ∀ {name kind}, maps.byName name = some kind →
    (maps.canonical.lookup kind).isSome = true
  not_reserved : ∀ {name kind}, maps.byName name = some kind → isReserved name = false

variable {kind other : Kind} {name : String} {canonical : List (Kind × String)}

theorem mem_insertIfNew {entry : Kind × String} (h : entry ∈ insertIfNew kind name canonical) :
    entry = (kind, name) ∨ entry ∈ canonical := by
  induction canonical with
  | nil => exact .inl (List.mem_singleton.1 h)
  | cons first rest ih =>
    rw [insertIfNew] at h
    split at h
    · exact List.mem_cons.1 h
    · split at h
      · exact .inr h
      · obtain rfl | h := List.mem_cons.1 h
        · exact .inr List.mem_cons_self
        · exact (ih h).imp_right (List.mem_cons_of_mem _)

theorem sorted_insertIfNew (h : Sorted canonical) : Sorted (insertIfNew kind name canonical) := by
  induction canonical with
  | nil => exact List.pairwise_singleton _ _
  | cons first rest ih =>
    obtain ⟨above, rest_sorted⟩ := List.pairwise_cons.1 h
    rw [insertIfNew]
    split
    · next lt =>
      refine List.pairwise_cons.2 ⟨fun entry mem => ?_, h⟩
      obtain rfl | mem := List.mem_cons.1 mem
      · exact lt
      · exact UInt16.lt_trans lt (above entry mem)
    · next le =>
      split
      · exact h
      · next ne =>
        refine List.pairwise_cons.2 ⟨fun entry mem => ?_, ih rest_sorted⟩
        obtain rfl | mem := mem_insertIfNew mem
        · have apart : first.1.code ≠ kind.code := fun same => ne (congrArg Kind.mk same.symm)
          exact UInt16.lt_of_le_of_ne (UInt16.not_lt.1 le) apart
        · exact above entry mem

theorem lookup_cons {entry : Kind × String} : (entry :: canonical).lookup kind =
    if kind = entry.1 then some entry.2 else canonical.lookup kind := by
  rw [List.lookup_cons]
  by_cases h : kind = entry.1
  · rw [if_pos h, beq_iff_eq.2 h]
  · rw [if_neg h, beq_false_of_ne h]

/-- Nothing is found below the first kind of a map. -/
theorem lookup_eq_none_of_lt (h : ∀ entry ∈ canonical, kind.code < entry.1.code) :
    canonical.lookup kind = none :=
  List.lookup_eq_none_iff.2 fun entry mem => by
    have ne : kind ≠ entry.1 := fun same => UInt16.lt_irrefl _ (same ▸ h entry mem)
    simpa using ne

/-- A kind gets a name by insertion just if it has none, and all others keep theirs. -/
theorem lookup_insertIfNew (h : Sorted canonical) : (insertIfNew kind name canonical).lookup other =
    if other = kind then some ((canonical.lookup kind).getD name) else canonical.lookup other := by
  induction canonical with
  | nil => exact lookup_cons
  | cons first rest ih =>
    obtain ⟨above, rest_sorted⟩ := List.pairwise_cons.1 h
    rw [insertIfNew]
    split
    · next lt =>
      have unknown : (first :: rest).lookup kind = none := by
        refine lookup_eq_none_of_lt fun entry mem => ?_
        obtain rfl | mem := List.mem_cons.1 mem
        · exact lt
        · exact UInt16.lt_trans lt (above entry mem)
      rw [unknown, Option.getD_none]
      exact lookup_cons
    · split
      · next same =>
        -- The kind has a name, so nothing changes.
        subst same
        rw [lookup_cons, lookup_cons, if_pos rfl, Option.getD_some]
        split <;> rfl
      · next ne =>
        rw [lookup_cons, lookup_cons, ih rest_sorted, lookup_cons, if_neg ne]
        by_cases first_one : other = first.1
        · have ne' : other ≠ kind := fun same => ne (same.symm.trans first_one)
          rw [if_pos first_one, if_neg ne', if_pos first_one]
        · rw [if_neg first_one, if_neg first_one]

theorem isSome_lookup_insertIfNew (h : Sorted canonical) :
    ((insertIfNew kind name canonical).lookup other).isSome = true ↔
      other = kind ∨ (canonical.lookup other).isSome = true := by
  rw [lookup_insertIfNew h]
  split <;> simp [*]

/-- **Names that are neither reserved nor taken keep the maps linked.** -/
theorem Linked.insert {maps : KindMaps} {entry : String × Kind} (linked : maps.Linked)
    (fine : isReserved entry.1 = false) (fresh : maps.byName entry.1 = none) :
    (maps.insert entry).Linked where
  sorted := sorted_insertIfNew linked.sorted
  back {kind name} h := by
    -- A name that was canonical is not the new one, for it stands for a kind.
    have kept (h : maps.canonical.lookup kind = some name) :
        (maps.insert entry).byName name = some kind := by
      have known := linked.back h
      rwa [byName_insert, if_neg fun same => by simp [same, fresh] at known]
    rw [canonical_insert, lookup_insertIfNew linked.sorted] at h
    split at h
    · next same =>
      subst same
      cases old : maps.canonical.lookup entry.2 with
      | none =>
        rw [old, Option.getD_none] at h
        exact if_pos (Option.some.inj h).symm
      | some first =>
        rw [old, Option.getD_some] at h
        exact kept (old.trans h)
    · exact kept h
  named {name kind} h := by
    rw [canonical_insert, isSome_lookup_insertIfNew linked.sorted]
    rw [byName_insert] at h
    split at h
    · exact .inl (Option.some.inj h).symm
    · exact .inr (linked.named h)
  not_reserved {name kind} h := by
    rw [byName_insert] at h
    split at h
    · next same => exact same ▸ fine
    · exact linked.not_reserved h

theorem linked_empty : Linked {} :=
  ⟨List.Pairwise.nil, nofun, nofun, nofun⟩

/-- Many names, one after the other. -/
theorem Linked.foldl {maps : KindMaps} {entries : List (String × Kind)} (linked : maps.Linked)
    (fine : ∀ entry ∈ entries, isReserved entry.1 = false) (nodup : (entries.map Prod.fst).Nodup)
    (fresh : ∀ entry ∈ entries, maps.byName entry.1 = none) :
    (entries.foldl KindMaps.insert maps).Linked := by
  induction entries generalizing maps with
  | nil => exact linked
  | cons entry rest ih =>
    obtain ⟨fine_first, fine_rest⟩ := List.forall_mem_cons.1 fine
    obtain ⟨fresh_first, fresh_rest⟩ := List.forall_mem_cons.1 fresh
    obtain ⟨new, nodup_rest⟩ := List.nodup_cons.1 nodup
    refine ih (linked.insert fine_first fresh_first) fine_rest nodup_rest fun later mem => ?_
    have other : later.1 ≠ entry.1 := fun same => new (same ▸ List.mem_map_of_mem mem)
    rw [byName_insert, if_neg other]
    exact fresh_rest later mem

end KindMaps

/-! ## Tables -/

/-- Names for kinds. -/
structure KindTable extends KindMaps where
  linked : toKindMaps.Linked

namespace KindTable

/-- The table without names. -/
def empty : KindTable := ⟨{}, KindMaps.linked_empty⟩

/-- The kind that a name stands for. -/
def kindOf (table : KindTable) (name : String) : Option Kind := table.byName name

/-- Registers a name. -/
def add (table : KindTable) (entry : String × Kind) : Except TableError KindTable :=
  if reserved : isReserved entry.1 = true then .error (.reservedName entry.1)
  else if taken : (table.kindOf entry.1).isSome = true then .error (.duplicateName entry.1)
  else .ok ⟨table.insert entry,
    table.linked.insert (Bool.eq_false_iff.2 reserved) (Option.not_isSome_iff_eq_none.1 taken)⟩

/-- Registers names one by one; the first one that cannot be registered is the error. -/
def ofEntries (entries : List (String × Kind)) : Except TableError KindTable :=
  entries.foldlM add empty

/-- The built-in names and codes. -/
def builtinEntries : List (String × Kind) := [
  ("NumericLiteral", ⟨8⟩), ("StringLiteral", ⟨9⟩), ("EqualsToken", ⟨58⟩),
  ("FirstAssignment", ⟨58⟩), ("Identifier", ⟨71⟩), ("ExportKeyword", ⟨84⟩),
  ("ThisKeyword", ⟨99⟩), ("ImplementsKeyword", ⟨108⟩), ("PrivateKeyword", ⟨112⟩),
  ("PublicKeyword", ⟨114⟩), ("AnyKeyword", ⟨119⟩), ("ReadonlyKeyword", ⟨131⟩),
  ("NumberKeyword", ⟨133⟩), ("StringKeyword", ⟨136⟩), ("UndefinedKeyword", ⟨139⟩),
  ("QualifiedName", ⟨143⟩), ("FirstNode", ⟨143⟩), ("ComputedPropertyName", ⟨144⟩),
  ("TypeParameter", ⟨145⟩), ("Parameter", ⟨146⟩), ("Decorator", ⟨147⟩),
  ("PropertySignature", ⟨148⟩), ("PropertyDeclaration", ⟨149⟩), ("MethodSignature", ⟨150⟩),
  ("MethodDeclaration", ⟨151⟩), ("Constructor", ⟨152⟩), ("TypeReference", ⟨159⟩),
  ("PropertyAccessExpression", ⟨179⟩), ("CallExpression", ⟨181⟩), ("BinaryExpression", ⟨194⟩),
  ("ExpressionWithTypeArguments", ⟨201⟩), ("Block", ⟨207⟩), ("VariableStatement", ⟨208⟩),
  ("ExpressionStatement", ⟨210⟩), ("ReturnStatement", ⟨219⟩), ("ClassDeclaration", ⟨229⟩),
  ("InterfaceDeclaration", ⟨230⟩), ("ImportDeclaration", ⟨238⟩), ("HeritageClause", ⟨259⟩),
  ("SourceFile", ⟨265⟩), ("Bundle", ⟨266⟩)]

/-- The table of the built-in kinds. -/
def builtin : KindTable where
  toKindMaps := builtinEntries.foldl KindMaps.insert {}
  linked := KindMaps.linked_empty.foldl (by decide +kernel) (by decide +kernel) fun _ _ => rfl

/-- The kind that a name must stand for. -/
def require (table : KindTable) (name : String) : Except TableError Kind :=
  match table.kindOf name with
  | some kind => .ok kind
  | none => .error (.missingKind name)

/-- The canonical name of a kind, the first one registered for it. -/
def nameOf (table : KindTable) (kind : Kind) : Option String := table.canonical.lookup kind

/-- Has the kind a name? -/
def contains (table : KindTable) (kind : Kind) : Bool := table.canonical.any (·.1 == kind)

/-- A kind as the logs show it, by name and code. -/
def describe (table : KindTable) (kind : Kind) : String :=
  match table.nameOf kind with
  | some name => s!"{name} ({kind.code})"
  | none => s!"<unknown> ({kind.code})"

/-- Every kind once, with its canonical name, in the order of codes. -/
def listing (table : KindTable) : List (String × Kind) :=
  table.canonical.map fun (kind, name) => (name, kind)

/-- The number of kinds, other names for them not counted. -/
def size (table : KindTable) : Nat := table.canonical.length

/-! ## Names and codes -/

variable {table : KindTable} {name : String} {kind : Kind}

/-- **The canonical name of a code stands for the code**, whatever other names it has. -/
theorem kindOf_nameOf (h : table.nameOf kind = some name) : table.kindOf name = some kind :=
  table.linked.back h

theorem contains_eq : table.contains kind = (table.nameOf kind).isSome := by
  rw [contains, nameOf]
  induction table.canonical with
  | nil => rfl
  | cons entry rest ih =>
    rw [List.any_cons, KindMaps.lookup_cons, ih]
    by_cases same : kind = entry.1
    · simp [same]
    · simp [same, Ne.symm same]

theorem exists_nameOf (h : table.contains kind = true) : ∃ name, table.nameOf kind = some name :=
  Option.isSome_iff_exists.1 (contains_eq.symm.trans h)

theorem contains_of_kindOf (h : table.kindOf name = some kind) : table.contains kind = true :=
  contains_eq.trans (table.linked.named h)

/-- A name that stands for a kind is not reserved. -/
theorem not_reserved_of_kindOf (h : table.kindOf name = some kind) : isReserved name = false :=
  table.linked.not_reserved h

theorem require_eq_ok_iff : table.require name = .ok kind ↔ table.kindOf name = some kind := by
  rw [require]
  cases table.kindOf name <;> simp

end KindTable

end TreeRewrite
