import TreeRewrite.Pattern.Basic

/-!
# Tables with other callbacks

Much of what a walk does is settled by the keys of its table, whatever the callbacks are.  To say
so, the callbacks have to be exchanged and everything else has to stay.

## What is here

* `Table.mapHooks f` — the table with the same keys in which `f` has changed the callbacks of every
  rule, at any depth.  What a lookup finds in it is `Table.find?_mapHooks`, and what it finds is
  described by `Entry.rule_mapHooks`, `Rule.table_mapHooks` and `Rule.hooks_mapHooks`.
* `Table.outline` — what is left of a table when the callbacks do nothing.  Two tables with the
  same outline differ only in what their callbacks return or do to the context.
* `Table.Holds` — the rules that stand in a table, at any depth.
-/

set_option autoImplicit false

namespace TreeRewrite

variable {σ ε σ' ε' : Type}

/-- A lookup in a table that is written down entry by entry. -/
theorem Table.find?_cons (kind kind' : Kind) (label : String) (rule : Rule σ ε)
    (entries : List (Entry σ ε)) (ignored : List String) :
    Table.find? (.mk (.mk kind label rule :: entries) ignored) kind'
      = if kind = kind' then some (.mk kind label rule)
        else Table.find? (.mk entries ignored) kind' := by
  by_cases hk : kind = kind' <;> simp [find?, Table.entries, Entry.kind, hk]

/-! ## Changing the callbacks -/

mutual

/-- Changes the callbacks of all rules in a table. -/
def Table.mapHooks (f : Hooks σ ε → Hooks σ' ε') : Table σ ε → Table σ' ε'
  | .mk entries ignored => .mk (Entry.mapHooksAll f entries) ignored

/-- Changes the callbacks of all rules in several entries. -/
def Entry.mapHooksAll (f : Hooks σ ε → Hooks σ' ε') : List (Entry σ ε) → List (Entry σ' ε')
  | [] => []
  | entry :: rest => entry.mapHooks f :: Entry.mapHooksAll f rest

/-- Changes the callbacks of all rules in an entry. -/
def Entry.mapHooks (f : Hooks σ ε → Hooks σ' ε') : Entry σ ε → Entry σ' ε'
  | .mk kind label rule => .mk kind label (rule.mapHooks f)

/-- Changes the callbacks of a rule and of all rules below it. -/
def Rule.mapHooks (f : Hooks σ ε → Hooks σ' ε') : Rule σ ε → Rule σ' ε'
  | .nested table => .nested (table.mapHooks f)
  | .matched hooks table => .matched (f hooks) (table.mapHooks f)

end

section

variable {f : Hooks σ ε → Hooks σ' ε'}

theorem Entry.mapHooksAll_eq (entries : List (Entry σ ε)) :
    Entry.mapHooksAll f entries = entries.map (·.mapHooks f) := by
  induction entries with
  | nil => rfl
  | cons entry rest ih => rw [Entry.mapHooksAll, ih, List.map_cons]

@[simp] theorem Entry.kind_mapHooks (entry : Entry σ ε) :
    (entry.mapHooks f).kind = entry.kind := by
  cases entry; rfl

@[simp] theorem Entry.rule_mapHooks (entry : Entry σ ε) :
    (entry.mapHooks f).rule = entry.rule.mapHooks f := by
  cases entry; rfl

@[simp] theorem Rule.table_mapHooks (rule : Rule σ ε) :
    (rule.mapHooks f).table = rule.table.mapHooks f := by
  cases rule <;> rfl

/-- A rule that only descends has no callbacks, so they stay away if `f` invents none. -/
theorem Rule.hooks_mapHooks (hf : f {} = {}) (rule : Rule σ ε) :
    (rule.mapHooks f).hooks = f rule.hooks := by
  cases rule with
  | nested => exact hf.symm
  | matched => rfl

theorem Table.find?_mapHooks (table : Table σ ε) (kind : Kind) :
    (table.mapHooks f).find? kind = (table.find? kind).map (·.mapHooks f) := by
  cases table with
  | mk entries ignored =>
    show (Entry.mapHooksAll f entries).find? _ = _
    rw [Entry.mapHooksAll_eq, List.find?_map]
    simp only [Function.comp_def, Entry.kind_mapHooks]
    rfl

end

mutual

/-- Callbacks that are changed into themselves leave the table as it is. -/
theorem Table.mapHooks_self {f : Hooks σ ε → Hooks σ ε} (hf : ∀ hooks, f hooks = hooks) :
    ∀ table : Table σ ε, table.mapHooks f = table
  | .mk entries ignored => by rw [Table.mapHooks, Entry.mapHooksAll_self hf]

theorem Entry.mapHooksAll_self {f : Hooks σ ε → Hooks σ ε} (hf : ∀ hooks, f hooks = hooks) :
    ∀ entries : List (Entry σ ε), Entry.mapHooksAll f entries = entries
  | [] => rfl
  | entry :: rest => by rw [Entry.mapHooksAll, Entry.mapHooks_self hf, Entry.mapHooksAll_self hf]

theorem Entry.mapHooks_self {f : Hooks σ ε → Hooks σ ε} (hf : ∀ hooks, f hooks = hooks) :
    ∀ entry : Entry σ ε, entry.mapHooks f = entry
  | .mk kind label rule => by rw [Entry.mapHooks, Rule.mapHooks_self hf]

theorem Rule.mapHooks_self {f : Hooks σ ε → Hooks σ ε} (hf : ∀ hooks, f hooks = hooks) :
    ∀ rule : Rule σ ε, rule.mapHooks f = rule
  | .nested table => by rw [Rule.mapHooks, Table.mapHooks_self hf]
  | .matched hooks table => by rw [Rule.mapHooks, Table.mapHooks_self hf, hf]

end

/-! ## The outline of a table -/

/-- The same slots, filled with callbacks that do nothing. -/
def Hooks.outline (hooks : Hooks σ ε) : Hooks Unit Empty where
  filter? := hooks.filter?.map fun _ _ => return true
  visit? := hooks.visit?.map fun _ _ => return .unchanged
  leave? := hooks.leave?.map fun _ _ => return .unchanged

/-- The same table, with callbacks that do nothing. -/
def Table.outline (table : Table σ ε) : Table Unit Empty := table.mapHooks Hooks.outline

/-! ## The rules of a table -/

/-- `table.Holds rule` says that the rule stands in the table, at any depth. -/
inductive Table.Holds : Table σ ε → Rule σ ε → Prop
  | entry {table : Table σ ε} {entry : Entry σ ε} (h : entry ∈ table.entries) :
      Holds table entry.rule
  | deeper {table : Table σ ε} {rule rule' : Rule σ ε} (h : Holds table rule)
      (h' : Holds rule.table rule') : Holds table rule'

theorem Table.Holds.of_find? {table : Table σ ε} {kind : Kind} {entry : Entry σ ε}
    (h : table.find? kind = some entry) : table.Holds entry.rule :=
  .entry (List.mem_of_find?_eq_some h)

/-- To know something of all rules in a table it is enough to look at its entries and at the tables
below them. -/
theorem Table.forall_holds_iff {table : Table σ ε} {p : Rule σ ε → Prop} :
    (∀ rule, table.Holds rule → p rule) ↔
      ∀ entry ∈ table.entries,
        p entry.rule ∧ ∀ rule, entry.rule.table.Holds rule → p rule := by
  constructor
  · intro h entry he
    exact ⟨h _ (.entry he), fun rule hrule => h rule ((Holds.entry he).deeper hrule)⟩
  · intro h
    have all : ∀ rule, table.Holds rule → p rule ∧ ∀ rule', rule.table.Holds rule' → p rule' := by
      intro rule hrule
      induction hrule with
      | entry he => exact h _ he
      | deeper _ hdeeper ih _ =>
        obtain ⟨-, below⟩ := ih h
        exact ⟨below _ hdeeper, fun rule hrule => below rule (hdeeper.deeper hrule)⟩
    exact fun rule hrule => (all rule hrule).1

end TreeRewrite
