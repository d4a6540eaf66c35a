import TreeRewrite.Proofs.Pattern.Resolution
import TreeRewrite.Proofs.Traversal.Lookups

/-!
# Other ways to write the same keys

There are several ways to write down the same rules.  The keys of a list may stand in any order, a
kind may be given by any of its names, and a table may be given as such or as a rule without
callbacks over the same keys.  The tables differ then, in the order of their entries, in labels, in
the names that are ignored and in the sort of their rules; but they do the same.

## What is here

* `Key.Alike` — lists that differ in the order of keys, in names for the same kind, and in forms
  that are in a relation; and so do the lists inside them.
* `Key.Alike.firstFault?_eq_none_iff` — something is wrong with both or with neither.
* `Key.Alike.corresponds` — the tables that they describe have the same callbacks at the same paths.
* `Key.asRules` — the keys with tables written as rules; `Key.firstFault?_asRules`, the same is
  wrong with them, and `Key.alike_of_asRules`, lists that are the same then are alike.
* `Table.RunsAs` — tables that do the same in every session.
* `Table.ofKeys_rearranged` — other orders and other names.
* `Table.ofKeys_reformed` — tables and rules without callbacks.
-/

set_option autoImplicit false

namespace TreeRewrite

variable {σ ε : Type}

namespace Key

variable {kinds : KindTable}

/-! ## Names for a kind -/

/-- The names are the same, or both are names of one kind. -/
def SameName (kinds : KindTable) (name name' : String) : Prop :=
  name = name' ∨ ∃ kind, kinds.kindOf name = some kind ∧ kinds.kindOf name' = some kind

theorem SameName.kindOf {name name' : String} (h : SameName kinds name name') :
    kinds.kindOf name = kinds.kindOf name' := by
  obtain rfl | ⟨kind, h, h'⟩ := h
  · rfl
  · rw [h, h']

theorem SameName.isReserved {name name' : String} (h : SameName kinds name name') :
    isReserved name = isReserved name' := by
  obtain rfl | ⟨kind, h, h'⟩ := h
  · rfl
  · rw [KindTable.not_reserved_of_kindOf h, KindTable.not_reserved_of_kindOf h']

/-- One of the keys is for the kind. -/
def Names (kinds : KindTable) (keys : List (Key σ ε)) (kind : Kind) : Prop :=
  ∃ key ∈ keys, kinds.kindOf key.name = some kind

theorem names_cons {key : Key σ ε} {rest : List (Key σ ε)} {kind : Kind} :
    Names kinds (key :: rest) kind ↔ kinds.kindOf key.name = some kind ∨ Names kinds rest kind := by
  simp [Names]

theorem forall_apart_iff {key : Key σ ε} {rest : List (Key σ ε)} :
    (∀ other ∈ rest, Apart kinds key other) ↔
      ∀ kind, kinds.kindOf key.name = some kind → ¬ Names kinds rest kind := by
  constructor
  · rintro apart kind h ⟨other, mem, h'⟩
    exact apart other mem kind h h'
  · exact fun h other mem kind hk h' => h kind hk ⟨other, mem, h'⟩

theorem firstFault?_cons_eq_none {key : Key σ ε} {rest : List (Key σ ε)} :
    firstFault? kinds [] (key :: rest) = none ↔
      (isReserved key.name = false ∧ firstFault? kinds [] key.inner = none) ∧
      (∀ kind, kinds.kindOf key.name = some kind → ¬ Names kinds rest kind) ∧
      firstFault? kinds [] rest = none := by
  have behind : firstFault? kinds [] rest = none ↔ _ := firstFault?_eq_none
  rw [← forall_apart_iff, firstFault?_eq_none, behind, sound_cons, List.forall_mem_cons]
  simp only [List.not_mem_nil, false_implies, implies_true, and_true]
  constructor
  · rintro ⟨⟨reserved, apart, sound⟩, here, later⟩
    exact ⟨⟨reserved, here⟩, apart, sound, later⟩
  · rintro ⟨⟨reserved, here⟩, apart, sound, later⟩
    exact ⟨⟨reserved, apart, sound⟩, here, later⟩

theorem firstFault?_perm {keys keys' : List (Key σ ε)} (perm : keys.Perm keys')
    (h : firstFault? kinds [] keys = none) : firstFault? kinds [] keys' = none := by
  obtain ⟨sound, below, -⟩ := firstFault?_eq_none.1 h
  exact firstFault?_eq_none.2 ⟨sound.perm perm, fun key mem => below key (perm.mem_iff.2 mem),
    fun _ _ _ mem => nomatch mem⟩

/-! ## Lists that are alike -/

/-- `Alike kinds Q keys keys'` says that the keys may change their places in their list, that a name
may be exchanged for another name of its kind and a form for one in the relation `Q`, and all this
inside the keys as well, at any depth. -/
inductive Alike (kinds : KindTable) (Q : Form σ ε → Form σ ε → Prop) :
    List (Key σ ε) → List (Key σ ε) → Prop
  | perm {keys keys' : List (Key σ ε)} (h : keys.Perm keys') : Alike kinds Q keys keys'
  | cons {key key' : Key σ ε} {rest rest' : List (Key σ ε)}
      (name : SameName kinds key.name key'.name) (form : Q key.form key'.form)
      (inner : Alike kinds Q key.inner key'.inner) (behind : Alike kinds Q rest rest') :
      Alike kinds Q (key :: rest) (key' :: rest')
  | trans {keys keys' keys'' : List (Key σ ε)} (first : Alike kinds Q keys keys')
      (second : Alike kinds Q keys' keys'') : Alike kinds Q keys keys''

namespace Alike

variable {Q : Form σ ε → Form σ ε → Prop} {keys keys' : List (Key σ ε)}

theorem names (h : Alike kinds Q keys keys') (kind : Kind) :
    Names kinds keys kind ↔ Names kinds keys' kind := by
  induction h with
  | perm h => exact exists_congr fun _ => and_congr_left fun _ => h.mem_iff
  | cons name _ _ _ _ ih => rw [names_cons, names_cons, name.kindOf, ih]
  | trans _ _ first second => exact first.trans second

/-- Something is wrong with both lists or with neither. -/
theorem firstFault?_eq_none_iff (h : Alike kinds Q keys keys') :
    firstFault? kinds [] keys = none ↔ firstFault? kinds [] keys' = none := by
  induction h with
  | perm h => exact ⟨firstFault?_perm h, firstFault?_perm h.symm⟩
  | cons name _ _ behind inner rest =>
    simp only [firstFault?_cons_eq_none, name.isReserved, name.kindOf, inner, rest, behind.names]
  | trans _ _ first second => exact first.trans second

/-- **Lists that are alike describe tables with the same callbacks at the same paths**, if nothing
is wrong with them. -/
theorem corresponds (h : Alike kinds Q keys keys')
    (hooks : ∀ {form form' : Form σ ε}, Q form form' → form.hooks = form'.hooks)
    (sound : firstFault? kinds [] keys = none) :
    (described kinds keys).Corresponds (fun _ => True) Eq (described kinds keys') := by
  induction h with
  | perm h =>
    -- Only one key is for a kind, so it is found wherever it stands.
    refine .of_find? fun kind => ?_
    rw [find?_described, find?_described, (firstFault?_eq_none.1 sound).1.find?_perm h]
  | @cons key key' rest rest' name form inner behind ihInner ihBehind =>
    obtain ⟨⟨-, here⟩, -, later⟩ := firstFault?_cons_eq_none.1 sound
    have tables := (ihBehind later).ignoring (unknown kinds (key :: rest))
      (unknown kinds (key' :: rest'))
    rw [described, described, entries, entries, listed?_eq, listed?_eq, ← name.kindOf]
    cases kinds.kindOf key.name with
    | none => exact tables
    | some kind => exact .cons (by simpa using hooks form) (by simpa using ihInner here) tables
  | trans first _ ihFirst ihSecond =>
    -- Nothing is wrong with the list in between either.
    exact (ihFirst sound).trans (ihSecond (first.firstFault?_eq_none_iff.1 sound))

end Alike

/-! ## Forms -/

mutual

/-- The key with every table in it, and itself, as a rule, which has no callbacks if it was a
table. -/
def asRule : Key σ ε → Key σ ε
  | ⟨name, form, inner⟩ => ⟨name, .matched form.hooks, asRules inner⟩

/-- The keys with every table in them as a rule. -/
def asRules : List (Key σ ε) → List (Key σ ε)
  | [] => []
  | key :: rest => key.asRule :: asRules rest

end

@[simp] theorem name_asRule (key : Key σ ε) : key.asRule.name = key.name := by
  cases key
  rw [asRule]

theorem asRules_eq_map (keys : List (Key σ ε)) : asRules keys = keys.map asRule := by
  induction keys with
  | nil => rfl
  | cons key rest ih => rw [asRules, ih, List.map_cons]

theorem asRules_concat (before : List (Key σ ε)) (key : Key σ ε) :
    asRules (before ++ [key]) = asRules before ++ [key.asRule] := by
  rw [asRules_eq_map, asRules_eq_map, List.map_append, List.map_singleton]

theorem duplicateFault?_asRules (before : List (Key σ ε)) (name : String) :
    duplicateFault? kinds (asRules before) name = duplicateFault? kinds before name := by
  rw [duplicateFault?, duplicateFault?, asRules_eq_map]
  simp only [List.find?_map, Function.comp_def, name_asRule, Option.bind_eq_bind,
    Option.bind_map]

mutual

theorem fault?_asRule : ∀ (key : Key σ ε) (before : List (Key σ ε)),
    key.asRule.fault? kinds (asRules before) = key.fault? kinds before
  | ⟨name, form, inner⟩, before => by
    have inside := firstFault?_asRules inner []
    rw [asRules] at inside
    rw [asRule, fault?, fault?, inside, duplicateFault?_asRules]

/-- Forms make no difference to what is wrong with keys. -/
theorem firstFault?_asRules : ∀ (keys before : List (Key σ ε)),
    firstFault? kinds (asRules before) (asRules keys) = firstFault? kinds before keys
  | [], before => rfl
  | key :: rest, before => by
    rw [asRules, firstFault?, firstFault?, fault?_asRule key before, ← asRules_concat,
      firstFault?_asRules rest (before ++ [key])]

end

/-- Lists that are the same but for their forms are alike. -/
theorem alike_of_asRules : ∀ {keys keys' : List (Key σ ε)}, asRules keys = asRules keys' →
    Alike kinds (fun form form' => form.hooks = form'.hooks) keys keys'
  | [], [], _ => .perm .nil
  | ⟨name, form, inner⟩ :: rest, ⟨name', form', inner'⟩ :: rest', h => by
    rw [asRules, asRules, asRule, asRule, List.cons.injEq, Key.mk.injEq, Form.matched.injEq] at h
    obtain ⟨⟨names, hooks, inside⟩, behind⟩ := h
    exact .cons (.inl names) hooks (alike_of_asRules inside) (alike_of_asRules behind)

end Key

namespace Table

variable {kinds : KindTable}

/-- In every session, rewrites of a tree by the two tables end alike, leave the same session, and
make the same calls for the same rules. -/
def RunsAs (table table' : Table σ ε) : Prop :=
  ∀ (session : Session σ) (t : Tree),
    session.rewrite table' t = session.rewrite table t ∧
    session.calls table' t = session.calls table t ∧
    session.ownedCalls table' t = session.ownedCalls table t

theorem Corresponds.runsAs {table table' : Table σ ε}
    (h : table.Corresponds (fun _ => True) Eq table') : table.RunsAs table' :=
  fun session _ => session.agree_of_corresponds fun path _ => h path fun _ _ => trivial

/-- Lists that are alike both have a table or both have none, and the tables do the same. -/
theorem runsAs_of_alike {Q : Form σ ε → Form σ ε → Prop}
    (hooks : ∀ {form form' : Form σ ε}, Q form form' → form.hooks = form'.hooks)
    {keys keys' : List (Key σ ε)} (h : Key.Alike kinds Q keys keys') :
    ((∃ table, ofKeys kinds keys = .ok table) ↔ ∃ table, ofKeys kinds keys' = .ok table) ∧
    ∀ table table', ofKeys kinds keys = .ok table → ofKeys kinds keys' = .ok table' →
      table.RunsAs table' := by
  constructor
  · rw [exists_ofKeys_iff, exists_ofKeys_iff, h.firstFault?_eq_none_iff]
  · intro table table' built built'
    obtain ⟨sound, rfl⟩ := ofKeys_eq_ok_iff.1 built
    obtain ⟨-, rfl⟩ := ofKeys_eq_ok_iff.1 built'
    exact (h.corresponds hooks sound).runsAs

/-- **The order of keys does not matter, and neither does which name of a kind is used.** -/
theorem ofKeys_rearranged (kinds : KindTable) (keys keys' : List (Key σ ε))
    (h : Key.Alike kinds Eq keys keys') :
    ((∃ table, ofKeys kinds keys = .ok table) ↔ ∃ table, ofKeys kinds keys' = .ok table) ∧
    ∀ table table', ofKeys kinds keys = .ok table → ofKeys kinds keys' = .ok table' →
      table.RunsAs table' :=
  runsAs_of_alike (fun same => congrArg Form.hooks same) h

/-- A key by which blocks become statements. -/
def blocks : Key Unit Empty :=
  ⟨"Block", .matched { leave? := some fun _ => return .replaced (.leaf ⟨210⟩) }, []⟩

/-- A key for no kind, with the same inside. -/
def unheard : Key Unit Empty := ⟨"Unheard", .nested, [blocks]⟩

/-- Keys by which blocks below equals signs become statements. -/
def plain : List (Key Unit Empty) := [⟨"EqualsToken", .nested, [blocks, unheard]⟩, unheard]

theorem ofKeys_plain : ofKeys .builtin plain = .ok (Key.described .builtin plain) :=
  ofKeys_eq_ok_iff.2 ⟨by decide +kernel, rfl⟩

/-- The plain keys in other orders, and with another name for equals signs. -/
def shuffled : List (Key Unit Empty) := [unheard, ⟨"FirstAssignment", .nested, [unheard, blocks]⟩]

theorem alike_shuffled : Key.Alike .builtin Eq plain shuffled := by
  have renamed : Key.SameName .builtin "EqualsToken" "FirstAssignment" :=
    .inr ⟨⟨58⟩, by decide +kernel, by decide +kernel⟩
  have inside : Key.Alike .builtin Eq [blocks, unheard] [unheard, blocks] := .perm (.swap ..)
  have spelled : Key.Alike .builtin Eq plain
      [⟨"FirstAssignment", .nested, [unheard, blocks]⟩, unheard] :=
    .cons renamed rfl inside (.perm .rfl)
  exact spelled.trans (.perm (.swap ..))

theorem ofKeys_rearranged_shuffled :
    Key.Alike .builtin Eq plain shuffled ∧
    ∃ table, ofKeys .builtin shuffled = .ok table ∧
      ({ context := () } : Session Unit).rewrite table ⟨⟨58⟩, [], [.leaf ⟨207⟩]⟩
        = (.ok ⟨⟨58⟩, [], [.leaf ⟨210⟩]⟩,
          { context := (), stats := { visited := 2, matched := 2, replaced := 1 } }) := by
  obtain ⟨build, run⟩ := ofKeys_rearranged .builtin plain shuffled alike_shuffled
  obtain ⟨table, built⟩ := build.1 ⟨_, ofKeys_plain⟩
  exact ⟨alike_shuffled, table, built, (run _ table ofKeys_plain built _ _).1⟩

/-- **A table is as good as a rule without callbacks over the same keys.**  Once the tables that are
built at once are there, the same faults are reported as well. -/
theorem ofKeys_reformed (kinds : KindTable) (keys keys' : List (Key σ ε))
    (h : Key.asRules keys = Key.asRules keys') :
    ((∃ table, ofKeys kinds keys = .ok table) ↔ ∃ table, ofKeys kinds keys' = .ok table) ∧
    (∀ clauses clauses', Key.clauses kinds keys = .ok clauses →
      Key.clauses kinds keys' = .ok clauses' → ∀ error,
        ofClauses kinds clauses = .error error ↔ ofClauses kinds clauses' = .error error) ∧
    ∀ table table', ofKeys kinds keys = .ok table → ofKeys kinds keys' = .ok table' →
      table.RunsAs table' := by
  have alike : Key.Alike kinds (fun form form' => form.hooks = form'.hooks) keys keys' :=
    Key.alike_of_asRules h
  obtain ⟨build, run⟩ := runsAs_of_alike id alike
  refine ⟨build, fun clauses clauses' hc hc' error => ?_, run⟩
  have faults : Key.firstFault? kinds [] keys = Key.firstFault? kinds [] keys' := by
    rw [← Key.firstFault?_asRules, h, Key.firstFault?_asRules]
  rw [Key.ofClauses_eq hc, Key.ofClauses_eq hc', Tree.unlessFault_eq_error,
    Tree.unlessFault_eq_error, faults]

/-- The plain keys, some of the tables in them as rules without callbacks. -/
def reformed : List (Key Unit Empty) :=
  [⟨"EqualsToken", .matched {}, [blocks, unheard]⟩, ⟨"Unheard", .matched {}, [blocks]⟩]

theorem ofKeys_reformed_plain :
    Key.asRules plain = Key.asRules reformed ∧
    ∃ table, ofKeys .builtin reformed = .ok table ∧
      ({ context := () } : Session Unit).rewrite table ⟨⟨58⟩, [], [.leaf ⟨207⟩]⟩
        = (.ok ⟨⟨58⟩, [], [.leaf ⟨210⟩]⟩,
          { context := (), stats := { visited := 2, matched := 2, replaced := 1 } }) := by
  obtain ⟨build, -, run⟩ := ofKeys_reformed .builtin plain reformed rfl
  obtain ⟨table, built⟩ := build.1 ⟨_, ofKeys_plain⟩
  exact ⟨rfl, table, built, (run _ table ofKeys_plain built _ _).1⟩

end Table

end TreeRewrite
