import TreeRewrite.Proofs.Pattern.Hooks

/-!
# Rules by their paths

A rule of a table is named by the path of kinds that leads to it: the kind of its entry, after the
kinds of the entries in whose tables that entry stands.

## What is here

* `Table.ruleAt?` — the rule at a path.
* `Table.erase gone` — the table without the entries at the paths that are gone.  A lookup in it is
  `Table.find?_erase`.
* `Table.mapHooksAt f` — the table in which `f` has changed the callbacks of every rule, knowing the
  path of the rule.  A lookup in it is `Table.find?_mapHooksAt`.
* `Table.hooksAt?` — the callbacks of the rule at a path.
* `Table.Corresponds` — two tables with rules at the same paths, as far as these are made of certain
  kinds, and with callbacks in a relation.  `Table.corresponds_iff` says the same entry by entry.
  With the same callbacks, tables with the same lookups correspond (`Table.Corresponds.of_find?`).
-/

set_option autoImplicit false

namespace TreeRewrite

variable {σ ε σ' ε' : Type}

/-- The rule at a path of kinds. -/
def Table.ruleAt? (table : Table σ ε) : List Kind → Option (Rule σ ε)
  | [] => none
  | [kind] => (table.find? kind).map Entry.rule
  | kind :: kind' :: path =>
    (table.find? kind).bind fun entry => entry.rule.table.ruleAt? (kind' :: path)

theorem Table.kind_of_find? {table : Table σ ε} {kind : Kind} {entry : Entry σ ε}
    (h : table.find? kind = some entry) : entry.kind = kind :=
  eq_of_beq (List.find?_some (p := fun entry : Entry σ ε => entry.kind == kind) h)

theorem Table.ruleAt?_singleton {table : Table σ ε} {kind : Kind} {entry : Entry σ ε}
    (h : table.find? kind = some entry) : table.ruleAt? [kind] = some entry.rule := by
  rw [ruleAt?, h, Option.map_some]

/-- A rule in the table below an entry, from the outside. -/
theorem Table.ruleAt?_cons {table : Table σ ε} {kind : Kind} {entry : Entry σ ε}
    (h : table.find? kind = some entry) {path : List Kind} {rule : Rule σ ε}
    (hr : entry.rule.table.ruleAt? path = some rule) :
    table.ruleAt? (kind :: path) = some rule := by
  cases path with
  | nil => cases hr
  | cons kind' path => rwa [ruleAt?, h, Option.bind_some]

/-! ## Erasing entries -/

mutual

/-- The table without the entries at the paths that are gone, at any depth. -/
def Table.erase (gone : List Kind → Bool) : Table σ ε → Table σ ε
  | .mk entries ignored => .mk (Entry.eraseAll gone entries) ignored

/-- The entries that are not gone, without those that are gone below them. -/
def Entry.eraseAll (gone : List Kind → Bool) : List (Entry σ ε) → List (Entry σ ε)
  | [] => []
  | entry :: rest =>
    if gone [entry.kind] then Entry.eraseAll gone rest
    else entry.erase gone :: Entry.eraseAll gone rest

/-- The entry without those that are gone below it. -/
def Entry.erase (gone : List Kind → Bool) : Entry σ ε → Entry σ ε
  | .mk kind label rule => .mk kind label (rule.erase fun path => gone (kind :: path))

/-- The rule without the entries that are gone below it. -/
def Rule.erase (gone : List Kind → Bool) : Rule σ ε → Rule σ ε
  | .nested table => .nested (table.erase gone)
  | .matched hooks table => .matched hooks (table.erase gone)

end

@[simp] theorem Entry.kind_erase (gone : List Kind → Bool) (entry : Entry σ ε) :
    (entry.erase gone).kind = entry.kind := by
  cases entry; rfl

@[simp] theorem Entry.rule_erase (gone : List Kind → Bool) (entry : Entry σ ε) :
    (entry.erase gone).rule = entry.rule.erase fun path => gone (entry.kind :: path) := by
  cases entry; rfl

@[simp] theorem Rule.table_erase (gone : List Kind → Bool) (rule : Rule σ ε) :
    (rule.erase gone).table = rule.table.erase gone := by
  cases rule <;> rfl

@[simp] theorem Rule.hooks_erase (gone : List Kind → Bool) (rule : Rule σ ε) :
    (rule.erase gone).hooks = rule.hooks := by
  cases rule <;> rfl

theorem Entry.find?_eraseAll (gone : List Kind → Bool) (entries : List (Entry σ ε))
    (kind : Kind) :
    (Entry.eraseAll gone entries).find? (·.kind == kind)
      = if gone [kind] then none else (entries.find? (·.kind == kind)).map (·.erase gone) := by
  induction entries with
  | nil => simp [Entry.eraseAll]
  | cons entry rest ih =>
    rw [Entry.eraseAll, List.find?_cons]
    by_cases hk : entry.kind = kind
    · subst hk
      by_cases hg : gone [entry.kind] = true
      · simpa [hg] using ih
      · simp [hg]
    · by_cases hg : gone [entry.kind] = true <;>
        simpa [hg, beq_eq_false_iff_ne.mpr hk] using ih

/-- A kind whose entry is gone has none, and every other kind has the entry that it had. -/
theorem Table.find?_erase (gone : List Kind → Bool) (table : Table σ ε) (kind : Kind) :
    (table.erase gone).find? kind
      = if gone [kind] then none else (table.find? kind).map (·.erase gone) := by
  cases table with
  | mk entries ignored => exact Entry.find?_eraseAll gone entries kind

/-! ## Changing the callbacks by path -/

mutual

/-- Changes the callbacks of all rules in a table, knowing their paths. -/
def Table.mapHooksAt (f : List Kind → Hooks σ ε → Hooks σ' ε') : Table σ ε → Table σ' ε'
  | .mk entries ignored => .mk (Entry.mapHooksAtAll f entries) ignored

/-- Changes the callbacks of all rules in several entries, knowing their paths. -/
def Entry.mapHooksAtAll (f : List Kind → Hooks σ ε → Hooks σ' ε') :
    List (Entry σ ε) → List (Entry σ' ε')
  | [] => []
  | entry :: rest => entry.mapHooksAt f :: Entry.mapHooksAtAll f rest

/-- Changes the callbacks of all rules in an entry, knowing their paths. -/
def Entry.mapHooksAt (f : List Kind → Hooks σ ε → Hooks σ' ε') : Entry σ ε → Entry σ' ε'
  | .mk kind label rule => .mk kind label (rule.mapHooksAt fun path => f (kind :: path))

/-- Changes the callbacks of a rule and of all rules below it, knowing their paths. -/
def Rule.mapHooksAt (f : List Kind → Hooks σ ε → Hooks σ' ε') : Rule σ ε → Rule σ' ε'
  | .nested table => .nested (table.mapHooksAt f)
  | .matched hooks table => .matched (f [] hooks) (table.mapHooksAt f)

end

section

variable {f : List Kind → Hooks σ ε → Hooks σ' ε'}

theorem Entry.mapHooksAtAll_eq (entries : List (Entry σ ε)) :
    Entry.mapHooksAtAll f entries = entries.map (·.mapHooksAt f) := by
  induction entries with
  | nil => rfl
  | cons entry rest ih => rw [Entry.mapHooksAtAll, ih, List.map_cons]

@[simp] theorem Entry.kind_mapHooksAt (entry : Entry σ ε) :
    (entry.mapHooksAt f).kind = entry.kind := by
  cases entry; rfl

@[simp] theorem Entry.rule_mapHooksAt (entry : Entry σ ε) :
    (entry.mapHooksAt f).rule = entry.rule.mapHooksAt fun path => f (entry.kind :: path) := by
  cases entry; rfl

@[simp] theorem Rule.table_mapHooksAt (rule : Rule σ ε) :
    (rule.mapHooksAt f).table = rule.table.mapHooksAt f := by
  cases rule <;> rfl

theorem Rule.hooks_mapHooksAt (hf : f [] {} = {}) (rule : Rule σ ε) :
    (rule.mapHooksAt f).hooks = f [] rule.hooks := by
  cases rule with
  | nested => exact hf.symm
  | matched => rfl

theorem Table.find?_mapHooksAt (table : Table σ ε) (kind : Kind) :
    (table.mapHooksAt f).find? kind = (table.find? kind).map (·.mapHooksAt f) := by
  cases table with
  | mk entries ignored =>
    show (Entry.mapHooksAtAll f entries).find? _ = _
    rw [Entry.mapHooksAtAll_eq, List.find?_map]
    simp only [Function.comp_def, Entry.kind_mapHooksAt]
    rfl

end

/-! ## Callbacks by path -/

/-- The callbacks of the rule at a path. -/
def Table.hooksAt? (table : Table σ ε) (path : List Kind) : Option (Hooks σ ε) :=
  (table.ruleAt? path).map Rule.hooks

theorem Table.hooksAt?_singleton (table : Table σ ε) (kind : Kind) :
    table.hooksAt? [kind] = (table.find? kind).map (·.rule.hooks) := by
  rw [hooksAt?, ruleAt?, Option.map_map]
  rfl

theorem Table.hooksAt?_cons (table : Table σ ε) (kind kind' : Kind) (path : List Kind) :
    table.hooksAt? (kind :: kind' :: path)
      = (table.find? kind).bind (·.rule.table.hooksAt? (kind' :: path)) := by
  rw [hooksAt?, ruleAt?, Option.map_bind]
  rfl

/-- The rules at the paths below an entry are those of its table. -/
theorem Table.hooksAt?_below {table : Table σ ε} {kind : Kind} {entry : Entry σ ε}
    (h : table.find? kind = some entry) {path : List Kind} {hooks : Hooks σ ε}
    (hh : entry.rule.table.hooksAt? path = some hooks) :
    table.hooksAt? (kind :: path) = some hooks := by
  cases path with
  | nil => cases hh
  | cons kind' path => rw [hooksAt?_cons, h, Option.bind_some, hh]

theorem Table.hooksAt?_mapHooksAt {f : List Kind → Hooks σ ε → Hooks σ' ε'}
    (hf : ∀ path, f path {} = {}) (table : Table σ ε) (path : List Kind) :
    (table.mapHooksAt f).hooksAt? path = (table.hooksAt? path).map (f path) := by
  induction path generalizing table f with
  | nil => rfl
  | cons kind path ih =>
    cases path with
    | nil =>
      rw [hooksAt?_singleton, hooksAt?_singleton, find?_mapHooksAt]
      cases hk : table.find? kind with
      | none => rfl
      | some entry =>
        rw [Option.map_some, Option.map_some, Entry.rule_mapHooksAt,
          entry.rule.hooks_mapHooksAt (f := fun path => f (entry.kind :: path)) (hf _),
          kind_of_find? hk]
        rfl
    | cons kind' path =>
      rw [hooksAt?_cons, hooksAt?_cons, find?_mapHooksAt]
      cases hk : table.find? kind with
      | none => rfl
      | some entry =>
        simp only [Option.map_some, Option.bind_some, Entry.rule_mapHooksAt,
          Rule.table_mapHooksAt]
        rw [ih (fun path => hf _), kind_of_find? hk]

/-! ## Tables that correspond -/

/-- At every path of the given kinds both tables have a rule or neither has, and the callbacks of
the two rules are in the relation. -/
def Table.Corresponds (among : Kind → Prop) (Q : Hooks σ ε → Hooks σ' ε' → Prop)
    (table : Table σ ε) (table' : Table σ' ε') : Prop :=
  ∀ path, (∀ kind ∈ path, among kind) → Option.Rel Q (table.hooksAt? path) (table'.hooksAt? path)

/-- The callbacks of two entries are in the relation, and the tables below them correspond. -/
def Entry.Corresponds (among : Kind → Prop) (Q : Hooks σ ε → Hooks σ' ε' → Prop)
    (entry : Entry σ ε) (entry' : Entry σ' ε') : Prop :=
  Q entry.rule.hooks entry'.rule.hooks ∧ entry.rule.table.Corresponds among Q entry'.rule.table

/-- **Tables correspond if they do so entry by entry**, for the given kinds. -/
theorem Table.corresponds_iff {among : Kind → Prop} {Q : Hooks σ ε → Hooks σ' ε' → Prop}
    {table : Table σ ε} {table' : Table σ' ε'} :
    table.Corresponds among Q table'
      ↔ ∀ kind, among kind →
        Option.Rel (Entry.Corresponds among Q) (table.find? kind) (table'.find? kind) := by
  constructor
  · intro h kind hk
    have here := h [kind] (List.forall_mem_singleton.mpr hk)
    have below (kind' : Kind) (path : List Kind) (hp : ∀ kind ∈ kind' :: path, among kind) :=
      h (kind :: kind' :: path) (List.forall_mem_cons.mpr ⟨hk, hp⟩)
    simp only [hooksAt?_singleton, hooksAt?_cons] at here below
    cases he : table.find? kind <;> cases he' : table'.find? kind <;>
      simp only [he, he', Option.map_none, Option.map_some, Option.bind_some] at here below
    · exact .none
    · cases here
    · cases here
    · cases here with
      | some hooks =>
        refine .some ⟨hooks, fun path hp => ?_⟩
        cases path with
        | nil => exact .none
        | cons kind' path => exact below kind' path hp
  · intro h path hp
    cases path with
    | nil => exact .none
    | cons kind path =>
      obtain ⟨hk, hp⟩ := List.forall_mem_cons.mp hp
      have entries := h kind hk
      cases path with
      | nil =>
        rw [hooksAt?_singleton, hooksAt?_singleton]
        cases he : table.find? kind <;> cases he' : table'.find? kind <;>
          rw [he, he'] at entries <;> cases entries
        · exact .none
        · next same => exact .some same.1
      | cons kind' path =>
        rw [hooksAt?_cons, hooksAt?_cons]
        cases he : table.find? kind <;> cases he' : table'.find? kind <;>
          rw [he, he'] at entries <;> cases entries
        · exact .none
        · next same => exact same.2 (kind' :: path) hp

namespace Table.Corresponds

variable {among : Kind → Prop} {Q : Hooks σ ε → Hooks σ' ε' → Prop} {kind : Kind}
  {label label' : String} {entries : List (Entry σ ε)} {entries' : List (Entry σ' ε')}
  {ignored ignored' : List String}

/-- Names that are ignored do not matter. -/
theorem ignoring (h : Table.Corresponds among Q (.mk entries ignored) (.mk entries' ignored'))
    (others others' : List String) :
    Table.Corresponds among Q (.mk entries others) (.mk entries' others') := by
  have rules := corresponds_iff.mp h
  exact corresponds_iff.mpr fun kind hk => rules kind hk

theorem nil : Table.Corresponds among Q (.mk [] ignored) (.mk [] ignored') :=
  corresponds_iff.mpr fun _ _ => .none

/-- Tables that are written down entry by entry, for the same kinds in the same order. -/
theorem cons {rule : Rule σ ε} {rule' : Rule σ' ε'} (hooks : Q rule.hooks rule'.hooks)
    (below : rule.table.Corresponds among Q rule'.table)
    (rest : Table.Corresponds among Q (.mk entries ignored) (.mk entries' ignored')) :
    Table.Corresponds among Q (.mk (.mk kind label rule :: entries) ignored)
      (.mk (.mk kind label' rule' :: entries') ignored') := by
  refine corresponds_iff.mpr fun kind' hk' => ?_
  rw [find?_cons, find?_cons]
  by_cases hk : kind = kind'
  · rw [if_pos hk, if_pos hk]
    exact .some ⟨hooks, below⟩
  · rw [if_neg hk, if_neg hk]
    exact corresponds_iff.mp rest kind' hk'

/-- An entry for another kind may be added. -/
theorem skip {rule : Rule σ' ε'} (hk : ¬ among kind)
    (rest : Table.Corresponds among Q (.mk entries ignored) (.mk entries' ignored')) :
    Table.Corresponds among Q (.mk entries ignored)
      (.mk (.mk kind label rule :: entries') ignored') := by
  refine corresponds_iff.mpr fun kind' hk' => ?_
  have other : kind ≠ kind' := fun same => hk (same ▸ hk')
  rw [find?_cons kind, if_neg other]
  exact corresponds_iff.mp rest kind' hk'

/-! ### The same callbacks -/

section

variable {table table' table'' : Table σ ε}

theorem iff_eq : table.Corresponds among Eq table' ↔
    ∀ path, (∀ kind ∈ path, among kind) → table.hooksAt? path = table'.hooksAt? path := by
  refine forall₂_congr fun path _ => ?_
  generalize table.hooksAt? path = found, table'.hooksAt? path = found'
  constructor
  · rintro (⟨rfl⟩ | _) <;> rfl
  · rintro rfl
    cases found with
    | none => exact .none
    | some hooks => exact .some rfl

theorem trans (h : table.Corresponds among Eq table') (h' : table'.Corresponds among Eq table'') :
    table.Corresponds among Eq table'' :=
  iff_eq.mpr fun path hp => (iff_eq.mp h path hp).trans (iff_eq.mp h' path hp)

/-- Only what lookups find matters. -/
theorem of_find? (h : ∀ kind, table.find? kind = table'.find? kind) :
    table.Corresponds among Eq table' := by
  have self : table'.Corresponds among Eq table' := iff_eq.mpr fun _ _ => rfl
  refine corresponds_iff.mpr fun kind hk => ?_
  rw [h kind]
  exact corresponds_iff.mp self kind hk

end

end Table.Corresponds

end TreeRewrite
