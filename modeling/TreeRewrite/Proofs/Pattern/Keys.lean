import TreeRewrite.Pattern.Summary
import TreeRewrite.Proofs.Pattern.Hooks
import TreeRewrite.Proofs.Results

/-!
# Keys as they are written down

A clause for a table holds that table ready-made, so clauses do not show which keys were written for
it.  A `Key` does: it is a name with the keys of the table below it, whether that table is built at
once or only together with the list around it.  So key lists can be spoken of at every depth.

## What is here

* `Key`, `Form` — a key, and the two ways in which it comes by its rule.
* `Table.ofKeys` — the table of a list of keys.  `Key.clauses` builds the tables that are built at
  once, and then the clauses are resolved.
* `Key.Within` — the lists that stand in a list, at any depth, and `Key.induction` along them.
* `Key.Sound` — a list without reserved names and without two names for a kind;
  `Key.SoundThroughout` — a list in which all lists are sound.
* `Key.described` — the table that keys describe if there is nothing wrong with them, and
  `Key.find?_described`, what a lookup finds in it.
-/

set_option autoImplicit false

namespace TreeRewrite

variable {σ ε : Type}

/-- How a key comes by its rule. -/
inductive Form (σ ε : Type) where
  /-- It is given a table, which is built at once from the keys inside. -/
  | nested
  /-- It is given callbacks; the keys inside are resolved together with the list around it. -/
  | matched (hooks : Hooks σ ε)

namespace Form

/-- The callbacks; a key that is given a table has none. -/
def hooks : Form σ ε → Hooks σ ε
  | .nested => {}
  | .matched hooks => hooks

/-- The rule over the table of the keys inside. -/
def rule : Form σ ε → Table σ ε → Rule σ ε
  | .nested, table => .nested table
  | .matched hooks, table => .matched hooks table

@[simp] theorem hooks_rule (form : Form σ ε) (table : Table σ ε) :
    (form.rule table).hooks = form.hooks := by
  cases form <;> rfl

@[simp] theorem table_rule (form : Form σ ε) (table : Table σ ε) :
    (form.rule table).table = table := by
  cases form <;> rfl

end Form

/-- A name with its rule, as it is written down. -/
structure Key (σ ε : Type) where
  name : String
  form : Form σ ε
  /-- The keys of the table below. -/
  inner : List (Key σ ε)

mutual

/-- The clause that a key stands for. -/
def Key.clause (kinds : KindTable) : Key σ ε → Except TableError (Clause σ ε)
  | ⟨name, .nested, inner⟩ => do
    let clauses ← Key.clauses kinds inner
    return .nested name (← Table.ofClauses kinds clauses)
  | ⟨name, .matched hooks, inner⟩ => return .matched name hooks (← Key.clauses kinds inner)

/-- The clauses that keys stand for. -/
def Key.clauses (kinds : KindTable) : List (Key σ ε) → Except TableError (List (Clause σ ε))
  | [] => return []
  | key :: rest => do
    let clause ← key.clause kinds
    return clause :: (← Key.clauses kinds rest)

end

/-- The table of a list of keys. -/
def Table.ofKeys (kinds : KindTable) (keys : List (Key σ ε)) : Except TableError (Table σ ε) := do
  Table.ofClauses kinds (← Key.clauses kinds keys)

namespace Key

/-! ## Lists inside lists -/

mutual

theorem induction_inner {motive : List (Key σ ε) → Prop}
    (list : ∀ keys, (∀ key ∈ keys, motive key.inner) → motive keys) :
    ∀ key : Key σ ε, motive key.inner
  | ⟨_, _, inner⟩ => list inner (induction_members list inner)

theorem induction_members {motive : List (Key σ ε) → Prop}
    (list : ∀ keys, (∀ key ∈ keys, motive key.inner) → motive keys) :
    ∀ keys : List (Key σ ε), ∀ key ∈ keys, motive key.inner
  | [] => nofun
  | key :: rest =>
    List.forall_mem_cons.2 ⟨induction_inner list key, induction_members list rest⟩

end

/-- To show something of all key lists, show it of a list inside whose keys it holds. -/
@[elab_as_elim]
theorem induction {motive : List (Key σ ε) → Prop}
    (list : ∀ keys, (∀ key ∈ keys, motive key.inner) → motive keys) (keys : List (Key σ ε)) :
    motive keys :=
  list keys (induction_members list keys)

/-- `Within level keys` says that `level` is one of the lists in `keys`, at any depth. -/
inductive Within : List (Key σ ε) → List (Key σ ε) → Prop
  | self (keys : List (Key σ ε)) : Within keys keys
  | inner {level keys : List (Key σ ε)} {key : Key σ ε} (mem : key ∈ keys)
      (within : Within level key.inner) : Within level keys

theorem Within.trans {level keys keys' : List (Key σ ε)} (h : Within level keys)
    (h' : Within keys keys') : Within level keys' := by
  induction h' with
  | self => exact h
  | inner mem _ ih => exact .inner mem ih

theorem forall_within_iff {p : List (Key σ ε) → Prop} {keys : List (Key σ ε)} :
    (∀ level, Within level keys → p level) ↔
      p keys ∧ ∀ key ∈ keys, ∀ level, Within level key.inner → p level := by
  constructor
  · exact fun h => ⟨h keys (.self keys), fun key mem level within => h level (.inner mem within)⟩
  · rintro ⟨here, below⟩ level (_ | ⟨mem, within⟩)
    · exact here
    · exact below _ mem level within

/-! ## Sound lists -/

/-- The names of two keys are not for the same kind. -/
def Apart (kinds : KindTable) (key key' : Key σ ε) : Prop :=
  ∀ kind, kinds.kindOf key.name = some kind → kinds.kindOf key'.name ≠ some kind

theorem Apart.symm {kinds : KindTable} {key key' : Key σ ε} (h : Apart kinds key key') :
    Apart kinds key' key :=
  fun kind hk' hk => h kind hk hk'

/-- No name in the list is reserved, and no two of them are for the same kind. -/
structure Sound (kinds : KindTable) (keys : List (Key σ ε)) : Prop where
  not_reserved : ∀ key ∈ keys, isReserved key.name = false
  apart : keys.Pairwise (Apart kinds)

/-- All lists in the list are sound, at any depth. -/
def SoundThroughout (kinds : KindTable) (keys : List (Key σ ε)) : Prop :=
  ∀ level, Within level keys → Sound kinds level

theorem SoundThroughout.within {kinds : KindTable} {level keys : List (Key σ ε)}
    (h : SoundThroughout kinds keys) (within : Within level keys) : SoundThroughout kinds level :=
  fun inner h' => h inner (h'.trans within)

theorem sound_nil {kinds : KindTable} : Sound kinds ([] : List (Key σ ε)) :=
  ⟨nofun, .nil⟩

theorem sound_cons {kinds : KindTable} {key : Key σ ε} {rest : List (Key σ ε)} :
    Sound kinds (key :: rest) ↔
      isReserved key.name = false ∧ (∀ other ∈ rest, Apart kinds key other) ∧ Sound kinds rest := by
  constructor
  · rintro ⟨reserved, apart⟩
    obtain ⟨here, later⟩ := List.forall_mem_cons.1 reserved
    obtain ⟨first, others⟩ := List.pairwise_cons.1 apart
    exact ⟨here, first, later, others⟩
  · rintro ⟨here, first, later, others⟩
    exact ⟨List.forall_mem_cons.2 ⟨here, later⟩, List.pairwise_cons.2 ⟨first, others⟩⟩

theorem Sound.perm {kinds : KindTable} {keys keys' : List (Key σ ε)} (h : Sound kinds keys)
    (perm : keys.Perm keys') : Sound kinds keys' :=
  ⟨fun key mem => h.not_reserved key (perm.mem_iff.2 mem), (perm.pairwise_iff Apart.symm).1 h.apart⟩

/-- In a sound list, the first key for a kind is the only one. -/
theorem Sound.find? {kinds : KindTable} {keys : List (Key σ ε)} (h : Sound kinds keys)
    {key : Key σ ε} (mem : key ∈ keys) {kind : Kind} (hk : kinds.kindOf key.name = some kind) :
    (keys.find? fun key => kinds.kindOf key.name == some kind) = some key := by
  obtain ⟨before, after, rfl⟩ := List.append_of_mem mem
  refine List.find?_eq_some_iff_append.2 ⟨by simpa using hk, before, after, rfl, ?_⟩
  intro other mem
  have apart := (List.pairwise_append.1 h.apart).2.2 other mem key List.mem_cons_self
  simpa using fun same => apart kind same hk

/-- In a sound list it does not matter where the key for a kind stands. -/
theorem Sound.find?_perm {kinds : KindTable} {keys keys' : List (Key σ ε)} (h : Sound kinds keys)
    (perm : keys.Perm keys') (kind : Kind) :
    (keys.find? fun key => kinds.kindOf key.name == some kind)
      = keys'.find? fun key => kinds.kindOf key.name == some kind := by
  cases found : keys.find? fun key => kinds.kindOf key.name == some kind with
  | some key =>
    have mem : key ∈ keys' := perm.mem_iff.1 (List.mem_of_find?_eq_some found)
    exact ((h.perm perm).find? mem (by simpa using List.find?_some found)).symm
  | none =>
    refine (List.find?_eq_none.2 fun key mem => ?_).symm
    exact List.find?_eq_none.1 found key (perm.mem_iff.2 mem)

/-! ## The table that keys describe -/

/-- The names that are for no kind, in order. -/
def unknown (kinds : KindTable) (keys : List (Key σ ε)) : List String :=
  (keys.filter fun key => (kinds.kindOf key.name).isNone).map name

mutual

/-- The entry of a key, if its name is for a kind. -/
def listed? (kinds : KindTable) : Key σ ε → Option (Entry σ ε)
  | ⟨name, form, inner⟩ => (kinds.kindOf name).map fun kind =>
    .mk kind name (form.rule (.mk (entries kinds inner) (unknown kinds inner)))

/-- The entries of keys. -/
def entries (kinds : KindTable) : List (Key σ ε) → List (Entry σ ε)
  | [] => []
  | key :: rest => (listed? kinds key).toList ++ entries kinds rest

end

/-- The table that keys describe, if there is nothing wrong with them. -/
def described (kinds : KindTable) (keys : List (Key σ ε)) : Table σ ε :=
  .mk (entries kinds keys) (unknown kinds keys)

section

variable {kinds : KindTable}

theorem listed?_eq (key : Key σ ε) : key.listed? kinds = (kinds.kindOf key.name).map fun kind =>
    .mk kind key.name (key.form.rule (described kinds key.inner)) := by
  obtain ⟨name, form, inner⟩ := key
  rw [listed?, described]

theorem entries_eq (keys : List (Key σ ε)) :
    entries kinds keys = keys.filterMap (listed? kinds) := by
  induction keys with
  | nil => rfl
  | cons key rest ih =>
    rw [entries, ih, List.filterMap_cons]
    cases listed? kinds key <;> rfl

theorem find?_described (keys : List (Key σ ε)) (kind : Kind) :
    (described kinds keys).find? kind
      = (keys.find? fun key => kinds.kindOf key.name == some kind).bind (listed? kinds) := by
  show (entries kinds keys).find? _ = _
  rw [entries_eq, List.find?_filterMap]
  congr 2
  funext key
  rw [listed?_eq]
  cases kinds.kindOf key.name <;> simp [Entry.kind]

theorem described_concat (before : List (Key σ ε)) (key : Key σ ε) :
    described kinds (before ++ [key])
      = .mk ((described kinds before).entries ++ (key.listed? kinds).toList)
        ((described kinds before).ignored ++ unknown kinds [key]) := by
  rw [described, entries_eq, List.filterMap_append, ← entries_eq, unknown, List.filter_append,
    List.map_append]
  cases h : key.listed? kinds <;> simp [h, described, Table.entries, Table.ignored, unknown]

/-- Every key becomes an entry or an ignored name. -/
theorem size_described (keys : List (Key σ ε)) :
    (described kinds keys).size + (described kinds keys).ignored.length = keys.length := by
  show (entries kinds keys).length + (unknown kinds keys).length = _
  rw [entries_eq, unknown]
  induction keys with
  | nil => rfl
  | cons key rest ih =>
    rw [List.filterMap_cons, listed?_eq, List.filter_cons, List.length_cons]
    cases kinds.kindOf key.name with
    | none => simp only [Option.map_none, Option.isNone_none, if_true, List.map_cons,
        List.length_cons, ← ih, Nat.add_assoc]
    | some kind => simp only [Option.map_some, Option.isNone_some, Bool.false_eq_true, if_false,
        List.length_cons, ← ih, Nat.add_right_comm]

end

end Key

end TreeRewrite
