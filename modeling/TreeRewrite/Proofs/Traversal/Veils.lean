import TreeRewrite.Proofs.Traversal.Eager

/-!
# A replacement by `visit` hides what lies below

Where a rule has a `visit` that always replaces, and no `leave`, the children are rewritten all the
same, but nothing becomes of it.  So as long as the rewriting of the children cannot be noticed in
another way, because it cannot fail and does not change the context, it does not matter how it is
done: the rule's own table may be exchanged for any other one.

## What is here

* `Hooks.Covers` — callbacks that put something in the place of the node in any case.
* `Table.Inert` — a table whose callbacks never fail and never change the context, at any depth;
  `Eager.eval_inert` says that rewriting by it cannot be noticed.
* `Table.EqOutside` — tables that are equal, but for such tables below such callbacks.
* `Session.rewrite_eqOutside` — rewrites by such tables.
-/

set_option autoImplicit false

namespace TreeRewrite

variable {σ ε α β : Type}

/-! ## Callbacks that cover, and tables that cannot be noticed -/

/-- There is a `visit`, it replaces the node whenever it does not fail, and no `leave` has the last
word. -/
structure Hooks.Covers (hooks : Hooks σ ε) : Prop where
  visit : ∃ visit, hooks.visit? = some visit ∧
    ∀ t c r c', visit t c = (.ok r, c') → r.isReplaced = true
  leave : hooks.leave? = none

/-- The callbacks never fail and never change the context. -/
structure Hooks.Inert (hooks : Hooks σ ε) : Prop where
  filter : ∀ filter, hooks.filter? = some filter → ∀ t c, ∃ accepted, filter t c = (.ok accepted, c)
  visit : ∀ visit, hooks.visit? = some visit → ∀ t c, ∃ r, visit t c = (.ok r, c)
  leave : ∀ leave, hooks.leave? = some leave → ∀ t c, ∃ r, leave t c = (.ok r, c)

/-- A table of such callbacks. -/
def Table.Inert (table : Table σ ε) : Prop := ∀ rule, table.Holds rule → rule.hooks.Inert

theorem Table.inert_iff {table : Table σ ε} :
    table.Inert ↔ ∀ entry ∈ table.entries, entry.rule.hooks.Inert ∧ entry.rule.table.Inert :=
  Table.forall_holds_iff

theorem Table.Inert.hooks {table : Table σ ε} (h : table.Inert) {kind : Kind} {entry : Entry σ ε}
    (hf : table.find? kind = some entry) : entry.rule.hooks.Inert := h _ (.of_find? hf)

theorem Table.Inert.below {table : Table σ ε} (h : table.Inert) {kind : Kind} {entry : Entry σ ε}
    (hf : table.find? kind = some entry) : entry.rule.table.Inert :=
  fun rule hrule => h rule ((Table.Holds.of_find? hf).deeper hrule)

/-! ## Tables that are equal outside -/

mutual

/-- The same kinds have entries, and their rules are equal outside. -/
inductive Table.EqOutside : Table σ ε → Table σ ε → Prop
  | intro {table table' : Table σ ε}
      (kinds : ∀ kind, (table.find? kind).isSome = (table'.find? kind).isSome)
      (rules : ∀ kind entry entry', table.find? kind = some entry →
        table'.find? kind = some entry' → Rule.EqOutside entry.rule entry'.rule) :
      Table.EqOutside table table'

/-- The same callbacks, over tables that are equal outside, or over any tables that cannot be
noticed if the callbacks cover them. -/
inductive Rule.EqOutside : Rule σ ε → Rule σ ε → Prop
  | nested {table table' : Table σ ε} (h : Table.EqOutside table table') :
      Rule.EqOutside (.nested table) (.nested table')
  | matched {hooks : Hooks σ ε} {table table' : Table σ ε} (h : Table.EqOutside table table') :
      Rule.EqOutside (.matched hooks table) (.matched hooks table')
  | covered {hooks : Hooks σ ε} {table table' : Table σ ε} (covers : hooks.Covers)
      (inert : table.Inert) (inert' : table'.Inert) :
      Rule.EqOutside (.matched hooks table) (.matched hooks table')

end

theorem Rule.EqOutside.hooks {rule rule' : Rule σ ε} (h : rule.EqOutside rule') :
    rule.hooks = rule'.hooks := by
  cases h <;> rfl

theorem Table.EqOutside.nil {ignored ignored' : List String} :
    Table.EqOutside (.mk [] ignored : Table σ ε) (.mk [] ignored') :=
  .intro (fun _ => rfl) nofun

/-- Tables that are written down entry by entry, for the same kinds in the same order. -/
theorem Table.EqOutside.cons {kind : Kind} {label label' : String} {rule rule' : Rule σ ε}
    {entries entries' : List (Entry σ ε)} {ignored ignored' : List String}
    (h : rule.EqOutside rule')
    (rest : Table.EqOutside (.mk entries ignored) (.mk entries' ignored')) :
    Table.EqOutside (.mk (.mk kind label rule :: entries) ignored)
      (.mk (.mk kind label' rule' :: entries') ignored') := by
  obtain ⟨kinds, rules⟩ := rest
  constructor
  · intro kind'
    rw [find?_cons, find?_cons]
    by_cases hk : kind = kind'
    · rw [if_pos hk, if_pos hk]
      rfl
    · rw [if_neg hk, if_neg hk]
      exact kinds kind'
  · intro kind' entry entry' he he'
    rw [find?_cons] at he he'
    by_cases hk : kind = kind'
    · rw [if_pos hk] at he he'
      cases he
      cases he'
      exact h
    · rw [if_neg hk] at he he'
      exact rules kind' entry entry' he he'

mutual

/-- Every table is equal to itself. -/
theorem Table.EqOutside.refl : ∀ table : Table σ ε, table.EqOutside table
  | .mk entries ignored => Entry.eqOutside_refl ignored entries

theorem Entry.eqOutside_refl (ignored : List String) : ∀ entries : List (Entry σ ε),
    Table.EqOutside (.mk entries ignored) (.mk entries ignored)
  | [] => .nil
  | .mk _ _ rule :: rest =>
    .cons (Rule.EqOutside.refl rule) (Entry.eqOutside_refl ignored rest)

theorem Rule.EqOutside.refl : ∀ rule : Rule σ ε, rule.EqOutside rule
  | .nested table => .nested (Table.EqOutside.refl table)
  | .matched _ table => .matched (Table.EqOutside.refl table)

end

/-! ## The plain interpreter -/

namespace Eager

theorem accepts_inert {rule : Rule σ ε} (h : rule.hooks.Inert) (t : Tree) (c : σ) :
    ∃ accepted, accepts rule t c = (.ok accepted, c) := by
  rw [accepts]
  cases hf : rule.hooks.filter? with
  | none => exact ⟨true, rfl⟩
  | some filter => exact h.filter filter hf t c

theorem visit_inert {rule : Rule σ ε} (h : rule.hooks.Inert) (t : Tree) (c : σ) :
    ∃ r, visit rule t c = (.ok r, c) := by
  rw [visit]
  cases hv : rule.hooks.visit? with
  | none => exact ⟨.unchanged, rfl⟩
  | some visit => exact h.visit visit hv t c

theorem settle_inert {rule : Rule σ ε} (h : rule.hooks.Inert) (visited : Rewrite) (t : Tree)
    (c : σ) : ∃ t', settle rule visited t c = (.ok t', c) := by
  rw [settle]
  cases hl : rule.hooks.leave? with
  | none => exact ⟨visited.resolve t, rfl⟩
  | some leave =>
    obtain ⟨r, hr⟩ := h.leave leave hl t c
    exact ⟨r.resolve t, bind_of_ok hr _⟩

mutual

/-- **Rewriting by a table that cannot be noticed gives a tree and leaves the context alone.** -/
theorem eval_inert : ∀ (t : Tree) (table : Table σ ε), table.Inert → ∀ c,
    ∃ t', eval t table c = (.ok t', c)
  | ⟨kind, attrs, children⟩, table, h, c => by
    rw [eval]
    cases hf : table.find? kind with
    | none =>
      obtain ⟨children', hc⟩ := evalAll_inert children table h c
      exact ⟨_, bind_of_ok hc _⟩
    | some entry =>
      have inert := h.hooks hf
      obtain ⟨accepted, ha⟩ := accepts_inert inert ⟨kind, attrs, children⟩ c
      dsimp only
      rw [bind_of_ok ha]
      cases accepted with
      | false =>
        obtain ⟨children', hc⟩ := evalAll_inert children table h c
        exact ⟨_, bind_of_ok hc _⟩
      | true =>
        obtain ⟨visited, hv⟩ := visit_inert inert ⟨kind, attrs, children⟩ c
        obtain ⟨children', hc⟩ := evalAll_inert children entry.rule.table (h.below hf) c
        rw [if_pos rfl, bind_of_ok hv, bind_of_ok hc]
        exact settle_inert inert visited _ c

theorem evalAll_inert : ∀ (ts : List Tree) (table : Table σ ε), table.Inert → ∀ c,
    ∃ ts', evalAll ts table c = (.ok ts', c)
  | [], _, _, _ => ⟨[], rfl⟩
  | t :: rest, table, h, c => by
    obtain ⟨head, hh⟩ := eval_inert t table h c
    obtain ⟨tail, ht⟩ := evalAll_inert rest table h c
    refine ⟨head :: tail, ?_⟩
    rw [evalAll, bind_of_ok hh, bind_of_ok ht]
    rfl

end

/-- Below callbacks that cover, what becomes of the children does not matter. -/
theorem apply_covered {hooks : Hooks σ ε} {table : Table σ ε} (covers : hooks.Covers)
    (inert : table.Inert) (t : Tree) :
    apply (.matched hooks table) t = (·.resolve t) <$> visit (.matched hooks table) t := by
  obtain ⟨⟨visit, hv, replaces⟩, hl⟩ := covers
  funext c
  rw [apply, map_eq_pure_bind, bind_apply, bind_apply, Eager.visit]
  simp only [Rule.hooks, hv]
  rcases hc : visit t c with ⟨e | r, c'⟩
  · rfl
  · obtain ⟨children', hkids⟩ := evalAll_inert t.children table inert c'
    have replaced : r.isReplaced = true := replaces t c r c' hc
    show (evalAll t.children table >>= _) c' = _
    rw [bind_of_ok hkids, settle]
    simp only [Rule.hooks, hl]
    cases r with
    | unchanged => cases replaced
    | replaced t' => rfl

theorem apply_eqOutside {rule rule' : Rule σ ε} (h : rule.EqOutside rule') (t : Tree)
    (kids : ∀ {table table' : Table σ ε}, table.EqOutside table' →
      evalAll t.children table = evalAll t.children table') :
    apply rule t = apply rule' t := by
  cases h with
  | nested h =>
    unfold apply
    rw [Rule.table, kids h]
    rfl
  | matched h =>
    unfold apply
    rw [Rule.table, kids h]
    rfl
  | covered covers inert inert' =>
    rw [apply_covered covers inert, apply_covered covers inert']
    rfl

mutual

/-- **Tables that are equal outside rewrite alike.** -/
theorem eval_eqOutside : ∀ (t : Tree) {table table' : Table σ ε}, table.EqOutside table' →
    eval t table = eval t table'
  | ⟨kind, attrs, children⟩, table, table', h => by
    have kids := evalAll_eqOutside children h
    obtain ⟨kinds, rules⟩ := h
    rw [eval_eq_apply, eval_eq_apply, kids]
    have found := kinds kind
    cases hf : table.find? kind with
    | none =>
      rw [hf, Option.isSome_none, eq_comm, Option.isSome_eq_false_iff, Option.isNone_iff_eq_none]
        at found
      rw [found]
    | some entry =>
      rw [hf, Option.isSome_some, eq_comm, Option.isSome_iff_exists] at found
      obtain ⟨entry', hf'⟩ := found
      have rule := rules kind entry entry' hf hf'
      rw [hf']
      simp only [accepts, rule.hooks]
      rw [apply_eqOutside rule _ fun h => evalAll_eqOutside children h]

theorem evalAll_eqOutside : ∀ (ts : List Tree) {table table' : Table σ ε},
    table.EqOutside table' → evalAll ts table = evalAll ts table'
  | [], _, _, _ => rfl
  | t :: rest, _, _, h => by
    rw [evalAll, evalAll, eval_eqOutside t h, evalAll_eqOutside rest h]

end

end Eager

/-! ## A rewrite in a session -/

namespace Session

/-- **What lies below a replacement by `visit` does not matter.**  Take two tables that are equal
but for the tables of rules whose `visit` replaces whenever it does not fail and that have no
`leave`, and let these tables, on both sides, have only callbacks that never fail and never change
the context.  Then rewrites give the same tree or the same error, and leave the same context. -/
theorem rewrite_eqOutside (session : Session σ) (table table' : Table σ ε) (t : Tree)
    (h : table.EqOutside table') :
    (session.rewrite table t).1 = (session.rewrite table' t).1 ∧
      (session.rewrite table t).2.context = (session.rewrite table' t).2.context := by
  have same := congrFun (Eager.eval_eqOutside t h) session.context
  rw [Eager.eval_eq, Eager.eval_eq, Observed.map_action_apply, Observed.map_action_apply] at same
  rw [session.rewrite_eq table, session.rewrite_eq table']
  exact Prod.ext_iff.mp same

/-- Below nodes of kind 5, replaces nodes of kind 1 and looks below them by another table. -/
def covering (below : Table Unit Empty) : Table Unit Empty :=
  .mk [.mk ⟨5⟩ "" (.nested (.mk [.mk ⟨1⟩ "" (.matched
    { visit? := some fun _ => return .replaced (.leaf ⟨4⟩) } below)] []))] []

/-- Replaces nodes of kind 2. -/
def noticing : Table Unit Empty :=
  .mk [.mk ⟨2⟩ "" (.matched { leave? := some fun _ => return .replaced (.leaf ⟨3⟩) } .empty)] []

theorem covering_eqOutside : (covering noticing).EqOutside (covering .empty) := by
  refine .cons (.nested (.cons (.covered ⟨⟨_, rfl, ?_⟩, rfl⟩ ?_ ?_) .nil)) .nil
  · rintro t c r c' ⟨⟩
    rfl
  · refine Table.inert_iff.mpr fun entry he => ?_
    cases List.mem_singleton.mp he
    refine ⟨⟨nofun, nofun, ?_⟩, Table.inert_iff.mpr nofun⟩
    rintro leave ⟨⟩ t c
    exact ⟨_, rfl⟩
  · exact Table.inert_iff.mpr nofun

theorem rewrite_eqOutside_covering :
    (covering noticing).EqOutside (covering .empty) ∧
    (({ context := () } : Session Unit).rewrite (covering noticing)
      ⟨⟨5⟩, [], [⟨⟨1⟩, [], [.leaf ⟨2⟩]⟩]⟩).1 = .ok ⟨⟨5⟩, [], [.leaf ⟨4⟩]⟩ ∧
    (({ context := () } : Session Unit).rewrite (covering noticing)
      ⟨⟨5⟩, [], [⟨⟨1⟩, [], [.leaf ⟨2⟩]⟩]⟩).2.stats.matched = 3 ∧
    (({ context := () } : Session Unit).rewrite (covering .empty)
      ⟨⟨5⟩, [], [⟨⟨1⟩, [], [.leaf ⟨2⟩]⟩]⟩).2.stats.matched = 2 := by
  refine ⟨covering_eqOutside, ?_, rfl, rfl⟩
  exact (rewrite_eqOutside { context := () } _ _ ⟨⟨5⟩, [], [⟨⟨1⟩, [], [.leaf ⟨2⟩]⟩]⟩
    covering_eqOutside).1

end Session

end TreeRewrite
