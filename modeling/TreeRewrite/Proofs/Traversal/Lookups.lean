import TreeRewrite.Proofs.Traversal.Owners

/-!
# Only the kinds of the tree are looked up

A walk looks up the nodes of the tree that it was given and no others; the trees that callbacks put
in their places are never entered.  So it does not matter what a table has for a kind that does not
occur in the tree: at its top, in the tables below its rules, or in any table below these.  Two
tables that agree on the kinds that do occur make the same walk of it.

## What is here

* `Tree.HasKind` — a kind occurs in a tree.
* `Observed.Same` — parts of walks that do the same from any context, with results in a relation;
  `Observed.Same.bind` puts parts together.
* `Observed.examine_congr` — tables that agree on the kinds of a tree make the same observed walk.
* `Observed.examine_empty` — the observed walk by a table without entries.
* `Session.agree_of_corresponds` — rewrites by tables that agree on the kinds of the tree.
* `Session.rewrite_congr` — such rewrites, and those by tables without an entry for any of its
  kinds.
-/

set_option autoImplicit false

namespace TreeRewrite

variable {σ ε α α' β β' : Type}

/-- The kind is that of a node of the tree. -/
def Tree.HasKind (t : Tree) (kind : Kind) : Prop :=
  ∃ position s, t.at? position = some s ∧ s.kind = kind

theorem Tree.every_hasKind (t : Tree) : t.Every fun s => t.HasKind s.kind :=
  fun position s hs => ⟨position, s, hs, rfl⟩

/-! ## Walks that do the same -/

/-- The same happened, and either both runs failed alike or their results are in the relation. -/
structure Transcript.Same (P : α → β → Prop) (run : Transcript σ ε α) (run' : Transcript σ ε β) :
    Prop where
  result : Agree P run.result run'.result
  context : run.context = run'.context
  events : run.events = run'.events

namespace Observed

/-- From every context the same happens. -/
def Same (P : α → β → Prop) (o : Observed σ ε α) (o' : Observed σ ε β) : Prop :=
  ∀ c, (o c).Same P (o' c)

theorem same_self (o : Observed σ ε α) : Same Eq o o := by
  intro c
  refine ⟨?_, rfl, rfl⟩
  cases (o c).result with
  | ok a => exact .ok rfl
  | error e => exact .error e

theorem Same.eq {o o' : Observed σ ε α} (h : Same Eq o o') : o = o' := by
  funext c
  obtain ⟨result, context, events⟩ := h c
  rcases ho : o c with ⟨r, c₁, events₁⟩
  rcases ho' : o' c with ⟨r', c₂, events₂⟩
  rw [ho, ho'] at result context events
  obtain rfl : r = r' := result.eq
  obtain rfl : c₁ = c₂ := context
  obtain rfl : events₁ = events₂ := events
  rfl

theorem Same.bind {P : α → α' → Prop} {Q : β → β' → Prop} {o : Observed σ ε α}
    {o' : Observed σ ε α'} {next : α → Observed σ ε β} {next' : α' → Observed σ ε β'}
    (first : Same P o o') (second : ∀ a a', P a a' → Same Q (next a) (next' a')) :
    Same Q (o >>= next) (o' >>= next') := by
  intro c
  show (o.bind next c).Same Q (o'.bind next' c)
  obtain ⟨result, context, events⟩ := first c
  rw [Observed.bind, Observed.bind]
  rcases ho : o c with ⟨r, c₁, events₁⟩
  rcases ho' : o' c with ⟨r', c₂, events₂⟩
  rw [ho, ho'] at result context events
  obtain rfl : c₁ = c₂ := context
  obtain rfl : events₁ = events₂ := events
  cases result with
  | error e => exact ⟨.error e, rfl, rfl⟩
  | @ok a a' related =>
    obtain ⟨result, context, events⟩ := second a a' related c₁
    exact ⟨result, context, congrArg (events₁ ++ ·) events⟩

/-! ## Tables that agree on some kinds -/

variable {among : Kind → Prop}

/-- Rules with the same callbacks, over tables that agree on some kinds. -/
def AgreeAmong (among : Kind → Prop) (rule rule' : Rule σ ε) : Prop :=
  rule.hooks = rule'.hooks ∧ rule.table.Corresponds among Eq rule'.table

theorem admitted_same {table table' : Table σ ε} (h : table.Corresponds among Eq table') {t : Tree}
    (ht : among t.kind) :
    Same (Option.Rel (AgreeAmong among)) (admitted table t) (admitted table' t) := by
  intro c
  have entries := Table.corresponds_iff.mp h t.kind ht
  rw [admitted_apply, admitted_apply]
  cases he : table.find? t.kind <;> cases he' : table'.find? t.kind <;>
    rw [he, he'] at entries <;> cases entries
  · exact ⟨.ok .none, rfl, rfl⟩
  · next entry entry' agree =>
    have applied : Agree (Option.Rel (AgreeAmong among))
        (.ok (some entry.rule) : Except ε _) (.ok (some entry'.rule)) := .ok (.some agree)
    simp only [← agree.1]
    cases entry.rule.hooks.filter? with
    | none => exact ⟨applied, rfl, rfl⟩
    | some filter =>
      dsimp only
      rcases filter t c with ⟨e | _ | _, c'⟩
      · exact ⟨.error e, rfl, rfl⟩
      · exact ⟨.ok .none, rfl, rfl⟩
      · exact ⟨applied, rfl, rfl⟩

theorem visit_congr {rule rule' : Rule σ ε} (h : rule.hooks = rule'.hooks) :
    visit rule = visit rule' := by
  funext t
  rw [visit, visit, h]

theorem leave_congr {rule rule' : Rule σ ε} (h : rule.hooks = rule'.hooks) :
    leave rule = leave rule' := by
  funext t visited below
  rw [leave, leave, h]

mutual

/-- **Tables that agree on the kinds of a tree make the same walk of it.** -/
theorem examine_congr : ∀ (t : Tree) {table table' : Table σ ε}, t.Every (fun s => among s.kind) →
    table.Corresponds among Eq table' → examine t table = examine t table'
  | ⟨kind, attrs, children⟩, table, table', ht, h => by
    obtain ⟨here, below⟩ := Tree.every_mk.mp ht
    rw [examine, examine]
    refine ((admitted_same h here).bind ?_).eq
    rintro _ _ (⟨hooks, tables⟩ | _) <;> dsimp only
    · rw [visit_congr hooks, leave_congr hooks, examineAll_congr children 0 below tables]
      exact same_self _
    · rw [examineAll_congr children 0 below h]
      exact same_self _

theorem examineAll_congr : ∀ (ts : List Tree) (index : Nat) {table table' : Table σ ε},
    (∀ t ∈ ts, t.Every fun s => among s.kind) → table.Corresponds among Eq table' →
      examineAll ts table index = examineAll ts table' index
  | [], _, _, _, _, _ => rfl
  | t :: rest, index, _, _, ht, h => by
    obtain ⟨here, later⟩ := List.forall_mem_cons.mp ht
    rw [examineAll, examineAll, examine_congr t here h, examineAll_congr rest (index + 1) later h]

end

end Observed

/-! ## Tables without entries -/

/-- Nodes are looked up, and nothing else happens. -/
def lookups (places : List (List Nat × Tree)) : List (Event σ) :=
  places.map fun place => ⟨place.1, .examined⟩

theorem tally_lookups (places : List (List Nat × Tree)) :
    tally (lookups places : List (Event σ)) = { visited := places.length } := by
  induction places with
  | nil => rfl
  | cons place rest ih =>
    rw [lookups, List.map_cons, ← lookups, tally_cons, ih]
    ext <;> simp [Deed.stats, Nat.add_comm]

theorem calls_lookups (places : List (List Nat × Tree)) :
    calls (lookups places : List (Event σ)) = [] := by
  rw [calls, lookups, List.filterMap_map, List.filterMap_eq_nil_iff]
  exact fun _ _ => rfl

theorem lookups_inside (places : List (List Nat × Tree)) (index : Nat) :
    (lookups places : List (Event σ)).map (·.inside index)
      = lookups (places.map fun (position, t) => (index :: position, t)) := by
  rw [lookups, lookups, List.map_map, List.map_map]
  rfl

namespace Observed

mutual

/-- Without entries a walk looks up every node and does nothing else. -/
theorem examine_empty : ∀ (t : Tree) (c : σ),
    examine t (.empty : Table σ ε) c = ⟨.ok .unchanged, c, lookups t.preorder⟩
  | ⟨kind, attrs, children⟩, c => by
    have own : admitted (.empty : Table σ ε) ⟨kind, attrs, children⟩ c
        = ⟨.ok none, c, [⟨[], .examined⟩]⟩ := admitted_apply ..
    rw [examine, bind_of_ok own]
    dsimp only
    rw [bind_of_ok (examineAll_empty children 0 c)]
    simp [Transcript.after, Walk.rebuild, Tree.preorder, lookups]

theorem examineAll_empty : ∀ (ts : List Tree) (index : Nat) (c : σ),
    examineAll ts (.empty : Table σ ε) index c
      = ⟨.ok none, c, lookups (Tree.preorderAll ts index)⟩
  | [], _, _ => rfl
  | t :: rest, index, c => by
    have head := inside_of_eq (ε := ε) (examine_empty t c) index
    rw [lookups_inside] at head
    rw [examineAll, bind_of_ok head, bind_of_ok (examineAll_empty rest (index + 1) c)]
    simp [Transcript.after, Walk.consChildren, Tree.preorderAll, lookups]

end

end Observed

/-! ## A rewrite in a session -/

namespace Session

theorem transcript_congr (session : Session σ) {table table' : Table σ ε} {t : Tree}
    (h : table.Corresponds t.HasKind Eq table') :
    session.transcript table' t = session.transcript table t := by
  rw [transcript, transcript, Observed.examine_congr t t.every_hasKind h]

theorem rewrite_empty (session : Session σ) (t : Tree) :
    session.rewrite (.empty : Table σ ε) t
      = (.ok t, { session with
          stats := { session.stats with visited := session.stats.visited + t.count } }) := by
  rw [rewrite_eq, transcript, Observed.examine_empty, tally_lookups, Tree.length_preorder]
  rfl

theorem calls_empty (session : Session σ) (t : Tree) :
    session.calls (.empty : Table σ ε) t = [] := by
  rw [calls_eq, transcript, Observed.examine_empty, calls_lookups]

/-- **The same callbacks at the same paths, for the kinds of the tree**: rewrites of the tree end
alike, leave the same session, and make the same calls for the same rules. -/
theorem agree_of_corresponds (session : Session σ) {table table' : Table σ ε} {t : Tree}
    (h : table.Corresponds t.HasKind Eq table') :
    session.rewrite table' t = session.rewrite table t ∧
    session.calls table' t = session.calls table t ∧
    session.ownedCalls table' t = session.ownedCalls table t := by
  have owned : (table.owned []).Corresponds t.HasKind Eq (table'.owned []) :=
    h.owned (fun path _ _ same => congrArg (Recorder.owned path).hooks same) []
  refine ⟨?_, ?_, ?_⟩
  · rw [rewrite_eq, rewrite_eq, session.transcript_congr h]
  · rw [calls_eq, calls_eq, session.transcript_congr h]
  · rw [ownedCalls, ownedCalls, rewrite_eq, rewrite_eq, transcript_congr _ owned]

/-- **Keys for kinds that do not occur in the tree do nothing.**  Take two tables that, for the
kinds of the tree, have rules at the same paths, with the same callbacks.  Then rewrites of the tree
end alike, leave the same session, and make the same calls, even if callbacks give trees with other
kinds.  So by a table that has no entry for any kind of the tree, nothing is called and the tree is
given back. -/
theorem rewrite_congr (session : Session σ) (table table' : Table σ ε) (t : Tree)
    (h : table.Corresponds t.HasKind Eq table') :
    session.rewrite table' t = session.rewrite table t ∧
    session.calls table' t = session.calls table t ∧
    session.ownedCalls table' t = session.ownedCalls table t ∧
    ∀ unused : Table σ ε, (∀ kind, t.HasKind kind → unused.find? kind = none) →
      session.rewrite unused t
        = (.ok t, { session with
            stats := { session.stats with visited := session.stats.visited + t.count } }) ∧
      session.calls unused t = [] := by
  obtain ⟨rewrites, calls, owned⟩ := session.agree_of_corresponds h
  refine ⟨rewrites, calls, owned, fun unused none => ?_⟩
  have agree : (Table.empty : Table σ ε).Corresponds t.HasKind Eq unused := by
    refine Table.corresponds_iff.mpr fun kind hk => ?_
    rw [none kind hk]
    exact .none
  obtain ⟨idle, silent, -⟩ := session.agree_of_corresponds agree
  exact ⟨idle.trans (session.rewrite_empty t), silent.trans (session.calls_empty t)⟩

/-- Below nodes of kind 1, replaces nodes of kind 2 by nodes of kind 9; on both levels there may be
more entries. -/
def bringing (more : List (Entry Unit Empty)) : Table Unit Empty :=
  .mk (more ++ [.mk ⟨1⟩ "" (.nested (.mk (more ++ [.mk ⟨2⟩ "" (.matched
    { visit? := some fun _ => return .replaced (.leaf ⟨9⟩) } .empty)]) []))]) []

/-- Replaces nodes of kind 9. -/
def clearing : Entry Unit Empty :=
  .mk ⟨9⟩ "" (.matched { leave? := some fun _ => return .replaced (.leaf ⟨7⟩) } .empty)

theorem not_hasKind_nine : ¬ Tree.HasKind ⟨⟨1⟩, [], [.leaf ⟨2⟩]⟩ ⟨9⟩ := by
  rintro ⟨position, s, hs, hk⟩
  have others : Tree.Every (fun s => s.kind ≠ ⟨9⟩) ⟨⟨1⟩, [], [.leaf ⟨2⟩]⟩ := by
    simp [Tree.every_mk, Tree.leaf]
  exact others position s hs hk

theorem corresponds_bringing :
    (bringing []).Corresponds (Tree.HasKind ⟨⟨1⟩, [], [.leaf ⟨2⟩]⟩) Eq (bringing [clearing]) :=
  .skip not_hasKind_nine (.cons rfl (.skip not_hasKind_nine (.cons rfl .nil .nil)) .nil)

theorem rewrite_congr_bringing :
    (bringing []).Corresponds (Tree.HasKind ⟨⟨1⟩, [], [.leaf ⟨2⟩]⟩) Eq (bringing [clearing]) ∧
    ({ context := () } : Session Unit).rewrite (bringing [clearing]) ⟨⟨1⟩, [], [.leaf ⟨2⟩]⟩
      = (.ok ⟨⟨1⟩, [], [.leaf ⟨9⟩]⟩,
        { context := (), stats := { visited := 2, matched := 2, replaced := 1 } }) ∧
    (∀ kind, Tree.HasKind ⟨⟨1⟩, [], [.leaf ⟨2⟩]⟩ kind →
      (Table.mk [clearing] []).find? kind = none) ∧
    ({ context := () } : Session Unit).calls (.mk [clearing] []) ⟨⟨1⟩, [], [.leaf ⟨2⟩]⟩ = [] := by
  have unused : ∀ kind, Tree.HasKind ⟨⟨1⟩, [], [.leaf ⟨2⟩]⟩ kind →
      (Table.mk [clearing] []).find? kind = none := by
    intro kind hk
    have other : (⟨9⟩ : Kind) ≠ kind := fun same => not_hasKind_nine (same ▸ hk)
    rw [clearing, Table.find?_cons, if_neg other]
    rfl
  obtain ⟨same, -, -, idle⟩ := rewrite_congr { context := () } (bringing []) (bringing [clearing])
    ⟨⟨1⟩, [], [.leaf ⟨2⟩]⟩ corresponds_bringing
  exact ⟨corresponds_bringing, same, unused, (idle (.mk [clearing] []) unused).2⟩

end Session

end TreeRewrite
