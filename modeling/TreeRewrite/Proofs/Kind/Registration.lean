import Mathlib.Data.List.Dedup
import Mathlib.Data.List.Induction
import TreeRewrite.Kind.Basic
import TreeRewrite.Proofs.Results

/-!
# Registering names for kinds

A kind table is built by adding names one after the other, up to the first one that is refused.
What a table keeps is two maps, and what a reader of it has in mind is the list of the names as they
were added.  The maps say what the list says: one `insert` of a name that is new to them is one more
name at the end of the list.  So a list of names has a table just if each of its names could be
added behind the ones in front of it, and the table answers every question from the list.

## What is here

* `lookup_eq_some_iff_mem` — what is found under a key where keys are distinct.
* `KindMaps.Represents` — the maps say of names and of kinds what a list of names says;
  `KindMaps.Represents.insert` is the step.
* `KindTable.Registrable` — no name is reserved and none stands there twice.
* `KindTable.Refused` — why a name cannot be added behind others.
* `KindTable.Built` — a table whose maps come from inserting a list of names.
* `KindTable.Built.add_eq_ok_iff`, `KindTable.Built.add_eq_error_iff` — one name.
* `KindTable.ofEntries_eq_ok_iff`, `KindTable.ofEntries_eq_error_iff` — many names, by induction
  along them.
* `KindTable.mem_listing`, `KindTable.pairwise_listing`, `KindTable.Built.size_eq` — what a table
  says of its kinds.
* `KindTable.Consistent` — a table says of names and of kinds what a list of names says.
* `KindTable.ofEntries_consistent` — which lists of names have a table, what its maps are, that it
  is consistent with them, and which name is refused in the others.
-/

set_option autoImplicit false

namespace TreeRewrite

/-- Where keys are distinct, what is found under a key is what is listed with it. -/
theorem lookup_eq_some_iff_mem {α β : Type} [BEq α] [LawfulBEq α] {entries : List (α × β)} {a : α}
    {b : β} (distinct : (entries.map Prod.fst).Nodup) :
    entries.lookup a = some b ↔ (a, b) ∈ entries := by
  rw [List.lookup_eq_some_iff]
  constructor
  · rintro ⟨before, after, eq, -⟩
    rw [eq]
    exact List.mem_append_right _ List.mem_cons_self
  · intro mem
    obtain ⟨before, after, eq⟩ := List.append_of_mem mem
    refine ⟨before, after, eq, fun entry he => ?_⟩
    rw [eq, List.map_append, List.map_cons, List.nodup_append] at distinct
    simpa using (distinct.2.2 entry.1 (List.mem_map_of_mem he) a List.mem_cons_self).symm

/-! ## The maps and the list -/

namespace KindMaps

/-- The maps say of every name and of every kind what the list says: for what a name stands, and
which of its names comes first. -/
structure Represents (entries : List (String × Kind)) (maps : KindMaps) : Prop where
  byName : ∀ name, maps.byName name = entries.lookup name
  canonical : ∀ kind, maps.canonical.lookup kind = (entries.find? (·.2 == kind)).map Prod.fst

variable {entries : List (String × Kind)} {maps : KindMaps} {entry : String × Kind}

theorem represents_empty : Represents [] {} := ⟨fun _ => rfl, fun _ => rfl⟩

/-- A name is taken if it is in the list. -/
theorem Represents.isSome_byName (h : Represents entries maps) {name : String} :
    (maps.byName name).isSome = true ↔ name ∈ entries.map Prod.fst := by
  rw [h.byName, List.lookup_isSome_iff, List.mem_map]
  exact ⟨fun ⟨entry, mem, same⟩ => ⟨entry, mem, (eq_of_beq same).symm⟩,
    fun ⟨entry, mem, same⟩ => ⟨entry, mem, beq_iff_eq.2 same.symm⟩⟩

/-- A name that is new to the maps goes to the end of the list. -/
theorem Represents.insert (h : Represents entries maps) (sorted : Sorted maps.canonical)
    (fresh : maps.byName entry.1 = none) : Represents (entries ++ [entry]) (maps.insert entry) where
  byName name := by
    rw [byName_insert, List.lookup_append, ← h.byName]
    split
    · next same => rw [same, fresh, List.lookup_cons_self, Option.none_or]
    · next other => rw [List.lookup_cons, beq_false_of_ne other, List.lookup_nil, Option.or_none]
  canonical kind := by
    rw [canonical_insert, lookup_insertIfNew sorted, List.find?_append, Option.map_or,
      ← h.canonical]
    split
    · next same =>
      subst same
      cases maps.canonical.lookup entry.2 <;> simp
    · next other => simp [Ne.symm other]

end KindMaps

namespace KindTable

/-! ## Which lists have a table -/

/-- Can the names be registered, one after the other? -/
structure Registrable (entries : List (String × Kind)) : Prop where
  not_reserved : ∀ entry ∈ entries, isReserved entry.1 = false
  nodup : (entries.map Prod.fst).Nodup

/-- Why a name cannot be registered behind others. -/
inductive Refused (before : List (String × Kind)) (name : String) : TableError → Prop
  | reserved (h : isReserved name = true) : Refused before name (.reservedName name)
  | taken (h : isReserved name = false) (mem : name ∈ before.map Prod.fst) :
      Refused before name (.duplicateName name)

variable {entries : List (String × Kind)}

theorem registrable_append {more : List (String × Kind)} :
    Registrable (entries ++ more) ↔ Registrable entries ∧ Registrable more ∧
      ∀ entry ∈ more, entry.1 ∉ entries.map Prod.fst := by
  constructor
  · rintro ⟨reserved, nodup⟩
    rw [List.map_append, List.nodup_append] at nodup
    obtain ⟨first, second⟩ := List.forall_mem_append.1 reserved
    refine ⟨⟨first, nodup.1⟩, ⟨second, nodup.2.1⟩, fun entry mem taken => ?_⟩
    exact nodup.2.2 _ taken _ (List.mem_map_of_mem mem) rfl
  · rintro ⟨⟨first, nodup⟩, ⟨second, nodup'⟩, fresh⟩
    refine ⟨List.forall_mem_append.2 ⟨first, second⟩, ?_⟩
    rw [List.map_append, List.nodup_append]
    refine ⟨nodup, nodup', ?_⟩
    rintro _ taken name mem rfl
    obtain ⟨entry, listed, rfl⟩ := List.mem_map.1 mem
    exact fresh entry listed taken

theorem registrable_singleton {entry : String × Kind} :
    Registrable [entry] ↔ isReserved entry.1 = false :=
  ⟨fun h => h.not_reserved entry List.mem_cons_self,
    fun h => ⟨List.forall_mem_singleton.2 h, List.nodup_singleton _⟩⟩

theorem Registrable.linked (h : Registrable entries) :
    (entries.foldl KindMaps.insert {}).Linked :=
  KindMaps.linked_empty.foldl h.not_reserved h.nodup fun _ _ => rfl

theorem Registrable.represents (h : Registrable entries) :
    KindMaps.Represents entries (entries.foldl KindMaps.insert {}) := by
  induction entries using List.reverseRecOn with
  | nil => exact KindMaps.represents_empty
  | append_singleton entries entry ih =>
    obtain ⟨front, -, new⟩ := registrable_append.1 h
    have fresh : (entries.foldl KindMaps.insert {}).byName entry.1 = none :=
      Option.not_isSome_iff_eq_none.1 fun taken =>
        new entry List.mem_cons_self ((ih front).isSome_byName.1 taken)
    rw [List.foldl_append, List.foldl_cons, List.foldl_nil]
    exact (ih front).insert front.linked.sorted fresh

/-- The names of the list can be registered, and the maps of the table come from inserting them. -/
structure Built (entries : List (String × Kind)) (table : KindTable) : Prop where
  registrable : Registrable entries
  maps : table.toKindMaps = entries.foldl KindMaps.insert {}

/-- The table of names that can be registered. -/
def Registrable.table (h : Registrable entries) : KindTable :=
  ⟨entries.foldl KindMaps.insert {}, h.linked⟩

theorem Registrable.built (h : Registrable entries) : Built entries h.table := ⟨h, rfl⟩

theorem built_empty : Built [] empty := ⟨⟨nofun, List.nodup_nil⟩, rfl⟩

namespace Built

variable {done : List (String × Kind)} {table table' : KindTable} {entry : String × Kind}
  {name : String} {kind : Kind} {e : TableError}

theorem represents (h : Built entries table) : KindMaps.Represents entries table.toKindMaps :=
  h.maps ▸ h.registrable.represents

theorem unique (h : Built entries table) (h' : Built entries table') : table = table' := by
  cases table; cases table'
  congr
  exact h.maps.trans h'.maps.symm

theorem isSome_kindOf (h : Built entries table) :
    (table.kindOf name).isSome = true ↔ name ∈ entries.map Prod.fst :=
  h.represents.isSome_byName

theorem maps_insert (h : Built done table) :
    table.insert entry = (done ++ [entry]).foldl KindMaps.insert {} := by
  rw [List.foldl_append, ← h.maps, List.foldl_cons, List.foldl_nil]

/-! ## One name -/

theorem add_eq_ok_iff (h : Built done table) :
    table.add entry = .ok table' ↔ Built (done ++ [entry]) table' := by
  constructor
  · intro run
    rw [add] at run
    split at run
    · cases run
    · next fine =>
      split at run
      · cases run
      · next fresh =>
        cases run
        refine ⟨registrable_append.2 ⟨h.registrable, ?_, ?_⟩, h.maps_insert⟩
        · exact registrable_singleton.2 (Bool.eq_false_iff.2 fine)
        · exact List.forall_mem_singleton.2 fun taken => fresh (h.isSome_kindOf.2 taken)
  · intro built
    obtain ⟨-, single, new⟩ := registrable_append.1 built.registrable
    have fine : ¬isReserved entry.1 = true :=
      Bool.eq_false_iff.1 (registrable_singleton.1 single)
    have fresh : ¬(table.kindOf entry.1).isSome = true := fun taken =>
      new entry List.mem_cons_self (h.isSome_kindOf.1 taken)
    rw [add, dif_neg fine, dif_neg fresh]
    exact congrArg _ (Built.unique ⟨built.registrable, h.maps_insert⟩ built)

theorem add_eq_error_iff (h : Built done table) :
    table.add entry = .error e ↔ Refused done entry.1 e := by
  rw [add]
  split
  · next reserved =>
    refine ⟨fun h => Except.error.inj h ▸ .reserved reserved, ?_⟩
    rintro (_ | ⟨fine, _⟩)
    · rfl
    · exact absurd reserved (Bool.eq_false_iff.1 fine)
  · next fine =>
    split
    · next taken =>
      have mem := h.isSome_kindOf.1 taken
      refine ⟨fun h => Except.error.inj h ▸ .taken (Bool.eq_false_iff.2 fine) mem, ?_⟩
      rintro (reserved | _)
      · exact absurd reserved fine
      · rfl
    · next fresh =>
      refine ⟨nofun, ?_⟩
      rintro (reserved | ⟨_, mem⟩)
      · exact absurd reserved fine
      · exact absurd (h.isSome_kindOf.2 mem) fresh

/-! ## Many names -/

theorem foldlM_add_eq_ok_iff (h : Built done table) :
    entries.foldlM add table = .ok table' ↔ Built (done ++ entries) table' := by
  induction entries generalizing done table with
  | nil =>
    rw [List.foldlM_nil, List.append_nil]
    exact ⟨fun run => Except.ok.inj run ▸ h, fun built => congrArg _ (h.unique built)⟩
  | cons entry rest ih =>
    rw [List.foldlM_cons, bind_eq_ok, List.append_cons]
    constructor
    · rintro ⟨next, added, run⟩
      exact (ih (h.add_eq_ok_iff.1 added)).1 run
    · intro built
      have next := (registrable_append.1 built.registrable).1.built
      exact ⟨_, h.add_eq_ok_iff.2 next, (ih next).2 built⟩

theorem foldlM_add_eq_error_iff (h : Built done table) : entries.foldlM add table = .error e ↔
    ∃ before entry after, entries = before ++ entry :: after ∧
      Registrable (done ++ before) ∧ Refused (done ++ before) entry.1 e := by
  constructor
  · intro run
    induction entries generalizing done table with
    | nil => cases run
    | cons entry rest ih =>
      obtain run | ⟨next, added, run⟩ := bind_eq_error.1 run
      · refine ⟨[], entry, rest, rfl, ?_⟩
        rw [List.append_nil]
        exact ⟨h.registrable, h.add_eq_error_iff.1 run⟩
      · obtain ⟨before, entry', after, rfl, registrable, refused⟩ :=
          ih (h.add_eq_ok_iff.1 added) run
        rw [List.append_assoc] at registrable refused
        exact ⟨entry :: before, entry', after, rfl, registrable, refused⟩
  · rintro ⟨before, entry, after, rfl, registrable, refused⟩
    -- The names in front make up a table, and it is this table that refuses the name.
    have run : before.foldlM add table = .ok registrable.table :=
      h.foldlM_add_eq_ok_iff.2 registrable.built
    have stop : registrable.table.add entry = .error e :=
      registrable.built.add_eq_error_iff.2 refused
    rw [List.foldlM_append, run]
    exact bind_eq_error.2 (.inr ⟨_, rfl, bind_eq_error.2 (.inl stop)⟩)

end Built

theorem ofEntries_eq_ok_iff {table : KindTable} :
    ofEntries entries = .ok table ↔ Built entries table :=
  built_empty.foldlM_add_eq_ok_iff

theorem exists_ofEntries_iff : (∃ table, ofEntries entries = .ok table) ↔ Registrable entries := by
  simp only [ofEntries_eq_ok_iff]
  exact ⟨fun ⟨_, built⟩ => built.registrable, fun h => ⟨h.table, h.built⟩⟩

theorem ofEntries_eq_error_iff {e : TableError} :
    ofEntries entries = .error e ↔ ∃ before entry after, entries = before ++ entry :: after ∧
      Registrable before ∧ Refused before entry.1 e :=
  built_empty.foldlM_add_eq_error_iff

/-- The built-in names pass all checks, so nothing is lost by inserting them unchecked. -/
theorem ofEntries_builtinEntries : ofEntries builtinEntries = .ok builtin :=
  ofEntries_eq_ok_iff.2 ⟨⟨by decide +kernel, by decide +kernel⟩, rfl⟩

/-! ## The listing -/

variable {table : KindTable} {name : String} {kind : Kind}

theorem pairwise_listing : table.listing.Pairwise fun a b => a.2.code < b.2.code :=
  List.pairwise_map.2 table.linked.sorted

theorem nodup_listing : (table.listing.map Prod.snd).Nodup := by
  refine List.pairwise_map.2 (pairwise_listing.imp fun lt same => ?_)
  exact UInt16.lt_irrefl _ (same ▸ lt)

theorem mem_listing : (name, kind) ∈ table.listing ↔ table.nameOf kind = some name := by
  have kinds : table.listing.map Prod.snd = table.canonical.map Prod.fst := by
    rw [listing, List.map_map]
    rfl
  have distinct : (table.canonical.map Prod.fst).Nodup := kinds ▸ nodup_listing
  rw [nameOf, lookup_eq_some_iff_mem distinct, listing, List.mem_map]
  constructor
  · rintro ⟨entry, mem, same⟩
    cases same
    exact mem
  · exact fun mem => ⟨_, mem, rfl⟩

theorem size_eq_length_listing : table.size = table.listing.length := (List.length_map _).symm

namespace Built

theorem kindOf_eq_some_iff (h : Built entries table) :
    table.kindOf name = some kind ↔ (name, kind) ∈ entries := by
  rw [kindOf, h.represents.byName, lookup_eq_some_iff_mem h.registrable.nodup]

/-- The canonical name is the first one. -/
theorem nameOf_eq_some_iff (h : Built entries table) : table.nameOf kind = some name ↔
    ∃ before after, entries = before ++ (name, kind) :: after ∧
      ∀ entry ∈ before, entry.2 ≠ kind := by
  rw [nameOf, h.represents.canonical, Option.map_eq_some_iff]
  constructor
  · rintro ⟨⟨_, _⟩, found, rfl⟩
    obtain ⟨same, before, after, split, others⟩ := List.find?_eq_some_iff_append.1 found
    obtain rfl := eq_of_beq same
    exact ⟨before, after, split, fun entry mem => by simpa using others entry mem⟩
  · rintro ⟨before, after, split, others⟩
    refine ⟨(name, kind), List.find?_eq_some_iff_append.2 ⟨beq_self_eq_true kind, ?_⟩, rfl⟩
    exact ⟨before, after, split, fun entry mem => by simpa using others entry mem⟩

theorem contains_iff (h : Built entries table) :
    table.contains kind = true ↔ ∃ name, (name, kind) ∈ entries := by
  rw [contains_eq, nameOf, h.represents.canonical, Option.isSome_map, List.find?_isSome]
  constructor
  · rintro ⟨entry, mem, same⟩
    exact ⟨entry.1, eq_of_beq same ▸ mem⟩
  · rintro ⟨name, mem⟩
    exact ⟨(name, kind), mem, beq_self_eq_true kind⟩

/-- A kind is listed if it has a name. -/
theorem mem_listing_kinds (h : Built entries table) :
    kind ∈ table.listing.map Prod.snd ↔ kind ∈ entries.map Prod.snd := by
  rw [List.mem_map, List.mem_map]
  constructor
  · rintro ⟨⟨name, kind⟩, mem, rfl⟩
    have listed := h.kindOf_eq_some_iff.1 (kindOf_nameOf (mem_listing.1 mem))
    exact ⟨(name, kind), listed, rfl⟩
  · rintro ⟨⟨name, kind⟩, mem, rfl⟩
    obtain ⟨first, named⟩ := exists_nameOf (h.contains_iff.2 ⟨name, mem⟩)
    exact ⟨(first, kind), mem_listing.2 named, rfl⟩

theorem size_eq (h : Built entries table) :
    table.size = (entries.map Prod.snd).dedup.length := by
  have same : (table.listing.map Prod.snd).Perm (entries.map Prod.snd).dedup :=
    (List.perm_ext_iff_of_nodup nodup_listing (List.nodup_dedup _)).2 fun kind => by
      rw [h.mem_listing_kinds, List.mem_dedup]
  rw [size_eq_length_listing, ← same.length_eq, List.length_map]

end Built

/-! ## Both directions -/

/-- The table says of names and of kinds what the list says. -/
structure Consistent (entries : List (String × Kind)) (table : KindTable) : Prop where
  /-- A name stands for the kind that is listed with it, and other names for none. -/
  kindOf : ∀ name kind, table.kindOf name = some kind ↔ (name, kind) ∈ entries
  /-- The canonical name of a kind is the first one listed with it. -/
  nameOf : ∀ name kind, table.nameOf kind = some name ↔
    ∃ before after, entries = before ++ (name, kind) :: after ∧ ∀ entry ∈ before, entry.2 ≠ kind
  contains : ∀ kind, table.contains kind = true ↔ ∃ name, (name, kind) ∈ entries
  /-- The canonical name of a kind stands for the kind. -/
  back : ∀ kind, table.contains kind = true →
    ∃ name, table.nameOf kind = some name ∧ table.kindOf name = some kind
  /-- The kinds are listed under their canonical names. -/
  listing : ∀ name kind, (name, kind) ∈ table.listing ↔ table.nameOf kind = some name
  /-- No kind is listed twice, and their codes rise. -/
  ordered : table.listing.Pairwise fun a b => a.2.code < b.2.code
  size : table.size = table.listing.length
  /-- The size is the number of different kinds. -/
  kinds : table.size = (entries.map Prod.snd).dedup.length

theorem Built.consistent (h : Built entries table) : Consistent entries table where
  kindOf _ _ := h.kindOf_eq_some_iff
  nameOf _ _ := h.nameOf_eq_some_iff
  contains _ := h.contains_iff
  back kind known := by
    obtain ⟨name, named⟩ := exists_nameOf known
    exact ⟨name, named, kindOf_nameOf named⟩
  listing _ _ := mem_listing
  ordered := pairwise_listing
  size := size_eq_length_listing
  kinds := h.size_eq

/-- **A list of names has a table if no name in it is reserved and none stands there twice.**  The
maps of the table are those that come from inserting the names; they stay linked and represent the
list, and so the table is consistent with it.  Otherwise the first name is reported that is reserved
or that stands in front already. -/
theorem ofEntries_consistent (entries : List (String × Kind)) :
    ((∃ table, ofEntries entries = .ok table) ↔ Registrable entries) ∧
    (∀ error, ofEntries entries = .error error ↔ ∃ before entry after,
      entries = before ++ entry :: after ∧ Registrable before ∧ Refused before entry.1 error) ∧
    ∀ table, ofEntries entries = .ok table →
      table.toKindMaps = entries.foldl KindMaps.insert {} ∧ table.toKindMaps.Linked ∧
      KindMaps.Represents entries table.toKindMaps ∧ Consistent entries table := by
  refine ⟨exists_ofEntries_iff, fun error => ofEntries_eq_error_iff, fun table built => ?_⟩
  have built := ofEntries_eq_ok_iff.1 built
  exact ⟨built.maps, table.linked, built.represents, built.consistent⟩

/-- Two names for one kind are fine, and the first of them is canonical; one name for two kinds is
refused, before the reserved name behind it is seen. -/
theorem ofEntries_consistent_twice :
    (∃ table, ofEntries [("Equals", ⟨58⟩), ("Block", ⟨9⟩), ("Assign", ⟨58⟩)] = .ok table ∧
      table.kindOf "Assign" = some ⟨58⟩ ∧ table.nameOf ⟨58⟩ = some "Equals" ∧ table.size = 2) ∧
    ofEntries [("Block", ⟨9⟩), ("Block", ⟨58⟩), ("_", ⟨9⟩)] = .error (.duplicateName "Block") := by
  constructor
  · obtain ⟨accepted, -, consistent⟩ :=
      ofEntries_consistent [("Equals", ⟨58⟩), ("Block", ⟨9⟩), ("Assign", ⟨58⟩)]
    obtain ⟨table, built⟩ := accepted.2 ⟨by decide, by decide⟩
    obtain ⟨-, -, -, both⟩ := consistent table built
    refine ⟨table, built, (both.kindOf _ _).2 (by decide), (both.nameOf _ _).2 ?_, ?_⟩
    · exact ⟨[], _, rfl, nofun⟩
    · rw [both.kinds]
      rfl
  · refine ((ofEntries_consistent _).2.1 _).2 ⟨[("Block", ⟨9⟩)], _, _, rfl, ?_, ?_⟩
    · exact ⟨by decide, by decide⟩
    · exact .taken (by decide) (by decide)

end KindTable

end TreeRewrite
