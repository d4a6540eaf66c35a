import TreeRewrite.Proofs.Traversal.Recorder

/-!
# Which nodes match

Below a matched node the table of its entry is in force, below any other node the table above.  So,
as long as no filter declines a node and no callback fails, the tree and the keys of the table alone
say which table is in force at which node, and with it, which nodes match.  This file lists the
nodes of a tree with these tables, and proves that a rewrite matches what the list says: whatever
callbacks give back, and whatever they make of the context.

A replacement is a tree that the list knows nothing of, so no node of it is ever matched.

## What is here

* `Table.beneath` — the table in force below a node of a kind.
* `Site` — a node of a tree with its position and the table in force there; `Tree.sites` — the sites
  of a tree in pre-order, one for every node (`Tree.mem_sites`).
* `Site.isMatched`, `Site.hasVisit`, `Site.hasLeave` — what the table has for the node.  That this
  depends on the outline of the table only is `Tree.places_outline`.
* `Hooks.Plain` — callbacks that neither filter nor fail.
* `Session.rewrite_sites` — a rewrite, by the sites of its tree.
-/

set_option autoImplicit false

namespace TreeRewrite

variable {σ ε σ' ε' α β : Type}

/-! ## The sites of a tree -/

/-- The table in force below a node of a kind. -/
def Table.beneath (table : Table σ ε) (kind : Kind) : Table σ ε :=
  match table.find? kind with
  | none => table
  | some entry => entry.rule.table

/-- A node of a tree, and the table in force there. -/
structure Site (σ ε : Type) where
  position : List Nat
  node : Tree
  table : Table σ ε

namespace Site

/-- The entry that the table has for the node. -/
def entry? (site : Site σ ε) : Option (Entry σ ε) := site.table.find? site.node.kind

/-- Is there an entry for the node? -/
def isMatched (site : Site σ ε) : Bool := site.entry?.isSome

/-- Is there an entry with a `visit`? -/
def hasVisit (site : Site σ ε) : Bool := site.entry?.any (·.rule.hooks.visit?.isSome)

/-- Is there an entry with a `leave`? -/
def hasLeave (site : Site σ ε) : Bool := site.entry?.any (·.rule.hooks.leave?.isSome)

/-- A site of a child, seen from the parent. -/
def inside (index : Nat) (site : Site σ ε) : Site σ ε :=
  { site with position := index :: site.position }

/-- The node with its position. -/
def place (site : Site σ ε) : List Nat × Tree := (site.position, site.node)

end Site

namespace Tree

mutual

/-- The sites of a tree in pre-order, given the table in force at its root. -/
def sites : Tree → Table σ ε → List (Site σ ε)
  | ⟨kind, attrs, children⟩, table =>
    ⟨[], ⟨kind, attrs, children⟩, table⟩ :: sitesAll children (table.beneath kind) 0

/-- The sites of the children of a node from the one with the index on. -/
def sitesAll : List Tree → Table σ ε → Nat → List (Site σ ε)
  | [], _, _ => []
  | t :: rest, table, index =>
    (t.sites table).map (·.inside index) ++ sitesAll rest table (index + 1)

end

theorem mem_sitesAll {ts : List Tree} {table : Table σ ε} {index : Nat} {site : Site σ ε} :
    site ∈ sitesAll ts table index
      ↔ ∃ (i : Nat) (t : Tree) (site' : Site σ ε),
          ts[i]? = some t ∧ site' ∈ t.sites table ∧ site = site'.inside (index + i) := by
  induction ts generalizing index with
  | nil => simp [sitesAll]
  | cons t rest ih =>
    rw [sitesAll, List.mem_append, List.mem_map, ih]
    constructor
    · rintro (⟨site', hs, rfl⟩ | ⟨i, t', site', hi, hs, rfl⟩)
      · exact ⟨0, t, site', rfl, hs, rfl⟩
      · exact ⟨i + 1, t', site', hi, hs, by rw [Nat.add_right_comm, Nat.add_assoc]⟩
    · rintro ⟨_ | i, t', site', hi, hs, rfl⟩
      · exact .inl ⟨site', Option.some.inj hi ▸ hs, rfl⟩
      · exact .inr ⟨i, t', site', hi, hs, by rw [Nat.add_right_comm, Nat.add_assoc]⟩

/-- Every node of a tree has a site, and sites are nodes of the tree. -/
theorem mem_sites {t s : Tree} {table : Table σ ε} {position : List Nat} :
    (∃ table', ⟨position, s, table'⟩ ∈ t.sites table) ↔ t.at? position = some s := by
  induction position generalizing t table with
  | nil =>
    obtain ⟨kind, attrs, ts⟩ := t
    simp [sites, mem_sitesAll, Site.inside, eq_comm]
  | cons i position ih =>
    obtain ⟨kind, attrs, ts⟩ := t
    rw [at?_cons_eq_some]
    simp only [sites, List.mem_cons, mem_sitesAll, Nat.zero_add]
    constructor
    · rintro ⟨table', hroot | ⟨j, child, site', hj, hs, heq⟩⟩
      · cases hroot
      · cases heq
        exact ⟨child, hj, ih.mp ⟨_, hs⟩⟩
    · rintro ⟨child, hi, hs⟩
      obtain ⟨table', hs'⟩ := ih.mpr hs
      exact ⟨table', .inr ⟨i, child, _, hi, hs', rfl⟩⟩

end Tree

/-! ## Tables with the same outline -/

theorem Table.find?_outline (table : Table σ ε) (kind : Kind) :
    table.outline.find? kind = (table.find? kind).map (·.mapHooks Hooks.outline) :=
  table.find?_mapHooks kind

theorem Table.beneath_outline (table : Table σ ε) (kind : Kind) :
    table.outline.beneath kind = (table.beneath kind).outline := by
  rw [beneath, beneath, find?_outline]
  cases table.find? kind with
  | none => rfl
  | some entry => simp only [Option.map_some, Entry.rule_mapHooks, Rule.table_mapHooks, outline]

namespace Site

/-- The site under the outline of its table. -/
def outline (site : Site σ ε) : Site Unit Empty :=
  { position := site.position, node := site.node, table := site.table.outline }

theorem isMatched_outline (site : Site σ ε) : site.outline.isMatched = site.isMatched := by
  rw [isMatched, isMatched, entry?, outline, Table.find?_outline, Option.isSome_map, entry?]

theorem hooks_outline (rule : Rule σ ε) :
    (rule.mapHooks Hooks.outline).hooks = rule.hooks.outline :=
  rule.hooks_mapHooks rfl

theorem hasVisit_outline (site : Site σ ε) : site.outline.hasVisit = site.hasVisit := by
  rw [hasVisit, hasVisit, entry?, outline, Table.find?_outline, Option.any_map, entry?]
  simp only [Entry.rule_mapHooks, hooks_outline, Hooks.outline,
    Option.isSome_map]

theorem hasLeave_outline (site : Site σ ε) : site.outline.hasLeave = site.hasLeave := by
  rw [hasLeave, hasLeave, entry?, outline, Table.find?_outline, Option.any_map, entry?]
  simp only [Entry.rule_mapHooks, hooks_outline, Hooks.outline,
    Option.isSome_map]

end Site

namespace Tree

mutual

theorem sites_outline : ∀ (t : Tree) (table : Table σ ε),
    t.sites table.outline = (t.sites table).map Site.outline
  | ⟨kind, attrs, children⟩, table => by
    rw [sites, sites, List.map_cons, Table.beneath_outline, sitesAll_outline children]
    rfl

theorem sitesAll_outline : ∀ (ts : List Tree) (table : Table σ ε) (index : Nat),
    sitesAll ts table.outline index = (sitesAll ts table index).map Site.outline
  | [], _, _ => rfl
  | t :: rest, table, index => by
    rw [sitesAll, sitesAll, List.map_append, sites_outline t, sitesAll_outline rest,
      List.map_map, List.map_map]
    rfl

end

/-- What is said of sites by the outlines of their tables singles out nodes by the outline of the
table at the root. -/
theorem places_outline {p : Site σ ε → Bool} {q : Site Unit Empty → Bool}
    (hpq : ∀ site, q site.outline = p site) (t : Tree) (table : Table σ ε) :
    ((t.sites table).filter p).map Site.place
      = ((t.sites table.outline).filter q).map Site.place := by
  rw [sites_outline, List.filter_map, List.map_map]
  simp only [Function.comp_def, hpq]
  rfl

theorem places_congr {p : Site σ ε → Bool} {p' : Site σ' ε' → Bool} {q : Site Unit Empty → Bool}
    (hpq : ∀ site, q site.outline = p site) (hpq' : ∀ site, q site.outline = p' site)
    {table : Table σ ε} {table' : Table σ' ε'} (same : table'.outline = table.outline) (t : Tree) :
    ((t.sites table').filter p').map Site.place = ((t.sites table).filter p).map Site.place := by
  rw [places_outline hpq', same, ← places_outline hpq]

end Tree

/-! ## A walk follows the sites -/

/-- Callbacks that neither filter nor fail. -/
structure Hooks.Plain (hooks : Hooks σ ε) : Prop where
  unfiltered : hooks.filter? = none
  visit : ∀ visit, hooks.visit? = some visit → ∀ t c, ∃ r c', visit t c = (.ok r, c')
  leave : ∀ leave, hooks.leave? = some leave → ∀ t c, ∃ r c', leave t c = (.ok r, c')

/-- A table of such callbacks. -/
def Table.Plain (table : Table σ ε) : Prop := ∀ rule, table.Holds rule → rule.hooks.Plain

/-- It is enough to look at the entries and at the tables below them. -/
theorem Table.plain_iff {table : Table σ ε} :
    table.Plain ↔ ∀ entry ∈ table.entries, entry.rule.hooks.Plain ∧ entry.rule.table.Plain :=
  Table.forall_holds_iff

theorem Table.Plain.hooks {table : Table σ ε} (h : table.Plain) {kind : Kind} {entry : Entry σ ε}
    (hf : table.find? kind = some entry) : entry.rule.hooks.Plain := h _ (.of_find? hf)

theorem Table.Plain.beneath {table : Table σ ε} (h : table.Plain) (kind : Kind) :
    (table.beneath kind).Plain := by
  rw [Table.beneath]
  cases hf : table.find? kind with
  | none => exact h
  | some entry => exact fun rule hrule => h rule ((Table.Holds.of_find? hf).deeper hrule)

/-- A run does at sites what their tables have for their nodes, in the order of the list. -/
structure Transcript.Follows (sites : List (Site σ ε)) (run : Transcript σ ε α) : Prop where
  done : ∃ a, run.result = .ok a
  visits : handed .visit run.events = (sites.filter (·.hasVisit)).map Site.place
  leaves : (handed .leave run.events).length = sites.countP (·.hasLeave)
  applied : applications run.events = (sites.filter (·.isMatched)).map Site.place

theorem Transcript.Follows.inside {sites : List (Site σ ε)} {result : Except ε α} {c : σ}
    {events : List (Event σ)} (h : Follows sites ⟨result, c, events⟩) (index : Nat) :
    Follows (sites.map (·.inside index)) ⟨result, c, events.map (·.inside index)⟩ where
  done := h.done
  visits := by
    rw [handed_inside, h.visits, List.filter_map, List.map_map, List.map_map]
    rfl
  leaves := by
    rw [handed_inside, List.length_map, h.leaves, List.countP_map]
    rfl
  applied := by
    rw [applications_inside, h.applied, List.filter_map, List.map_map, List.map_map]
    rfl

theorem Transcript.Follows.append {sites later : List (Site σ ε)} {result : Except ε α} {c : σ}
    {events : List (Event σ)} {run : Transcript σ ε β} (h : Follows sites ⟨result, c, events⟩)
    (h' : Follows later run) : Follows (sites ++ later) (run.after events) where
  done := h'.done
  visits := by
    rw [events_after, handed_append, h.visits, h'.visits, List.filter_append, List.map_append]
  leaves := by
    rw [events_after, handed_append, List.length_append, h.leaves, h'.leaves, List.countP_append]
  applied := by
    rw [events_after, applications_append, h.applied, h'.applied, List.filter_append,
      List.map_append]

namespace Observed

/-- Two parts in a row, of which the first does not fail. -/
theorem Ensures.bind_of_done {o : Observed σ ε α} {next : α → Observed σ ε β}
    {p : Transcript σ ε α → Prop} {q : Transcript σ ε β → Prop} (first : o.Ensures p)
    (ok : ∀ run, p run → ∃ a, run.result = .ok a)
    (done : ∀ a c events, p ⟨.ok a, c, events⟩ → (next a).Ensures fun run => q (run.after events)) :
    (o >>= next).Ensures q := by
  refine first.bind (fun e c events h => ?_) done
  obtain ⟨a, ha⟩ := ok _ h
  cases ha

theorem admitted_plain {table : Table σ ε} (h : table.Plain) (t : Tree) :
    (admitted table t).Ensures fun run =>
      run.result = .ok ((table.find? t.kind).map Entry.rule) ∧
      handed .visit run.events = [] ∧ handed .leave run.events = [] ∧
      applications run.events = if (table.find? t.kind).isSome then [([], t)] else [] := by
  intro c
  rw [admitted_apply]
  cases hf : table.find? t.kind with
  | none => exact ⟨rfl, rfl, rfl, rfl⟩
  | some entry =>
    simp only [(h.hooks hf).unfiltered]
    exact ⟨rfl, rfl, rfl, rfl⟩

theorem visit_plain {rule : Rule σ ε} (h : rule.hooks.Plain) (t : Tree) :
    (visit rule t).Ensures fun run => (∃ r, run.result = .ok r) ∧
      handed .visit run.events = (if rule.hooks.visit?.isSome then [([], t)] else []) ∧
      handed .leave run.events = [] ∧ applications run.events = [] := by
  intro c
  rw [visit_apply]
  cases hv : rule.hooks.visit? with
  | none => exact ⟨⟨_, rfl⟩, rfl, rfl, rfl⟩
  | some visit =>
    obtain ⟨r, c', hr⟩ := h.visit visit hv t c
    refine ⟨⟨r, ?_⟩, rfl, rfl, rfl⟩
    dsimp only
    rw [hr]

theorem leave_plain {rule : Rule σ ε} (h : rule.hooks.Plain) (t : Tree) (visited below : Rewrite) :
    (leave rule t visited below).Ensures fun run => (∃ r, run.result = .ok r) ∧
      handed .visit run.events = [] ∧
      (handed .leave run.events).length = (if rule.hooks.leave?.isSome then 1 else 0) ∧
      applications run.events = [] := by
  intro c
  rw [leave_apply]
  cases hl : rule.hooks.leave? with
  | none => cases visited <;> exact ⟨⟨_, rfl⟩, rfl, rfl, rfl⟩
  | some leave =>
    obtain ⟨r, c', hr⟩ := h.leave leave hl (below.resolve t) c
    simp only [hr]
    cases r <;> exact ⟨⟨_, rfl⟩, rfl, rfl, rfl⟩

mutual

/-- **A walk follows the sites of its tree.** -/
theorem examine_follows : ∀ (t : Tree) (table : Table σ ε), table.Plain →
    (examine t table).Ensures (·.Follows (t.sites table))
  | ⟨kind, attrs, children⟩, table, h => by
    have kids := examineAll_follows children (table.beneath kind) 0 (h.beneath kind)
    rw [examine, Tree.sites]
    refine (admitted_plain h _).bind_of_done (fun run h => ⟨_, h.1⟩) ?_
    rintro rule? c own ⟨hr, own₁, own₂, own₃⟩
    cases hf : table.find? kind with
    | none =>
      rw [Table.beneath, hf] at kids
      dsimp only at hr own₃
      rw [hf] at hr own₃
      cases hr
      refine kids.bind_of_done (fun run h => h.done) ?_
      intro children' c below hbelow
      refine ensures_pure fun c => ⟨⟨_, rfl⟩, ?_, ?_, ?_⟩
      · simp [own₁, hbelow.visits, Site.hasVisit, Site.entry?, hf, Table.beneath]
      · simp [own₂, hbelow.leaves, Site.hasLeave, Site.entry?, hf, Table.beneath]
      · simp [own₃, hbelow.applied, Site.isMatched, Site.entry?, hf, Table.beneath]
    | some entry =>
      rw [Table.beneath, hf] at kids
      dsimp only at hr own₃
      rw [hf] at hr own₃
      cases hr
      have plain := h.hooks hf
      refine (visit_plain plain _).bind_of_done (fun run h => h.1) ?_
      rintro visited c calls ⟨-, calls₁, calls₂, calls₃⟩
      refine kids.bind_of_done (fun run h => h.done) ?_
      intro children' c below hbelow
      refine (leave_plain plain _ visited _).mono ?_
      rintro run ⟨done, last₁, last₂, last₃⟩
      refine ⟨done, ?_, ?_, ?_⟩
      · cases hv : entry.rule.hooks.visit?.isSome <;>
          simp [own₁, calls₁, hbelow.visits, last₁, Site.hasVisit, Site.entry?, hf, Table.beneath,
            Site.place, hv]
      · cases hl : entry.rule.hooks.leave?.isSome <;>
          simp [own₂, calls₂, hbelow.leaves, last₂, Site.hasLeave, Site.entry?, hf, Table.beneath,
            hl]
      · simp [own₃, calls₃, hbelow.applied, last₃, Site.isMatched, Site.entry?, hf, Table.beneath,
          Site.place]

theorem examineAll_follows : ∀ (ts : List Tree) (table : Table σ ε) (index : Nat), table.Plain →
    (examineAll ts table index).Ensures (·.Follows (Tree.sitesAll ts table index))
  | [], _, _, _ => ensures_pure fun c => ⟨⟨_, rfl⟩, rfl, rfl, rfl⟩
  | t :: rest, table, index, h => by
    have head : (inside index (examine t table)).Ensures
        (·.Follows ((t.sites table).map (·.inside index))) :=
      ensures_inside (examine_follows t table h) fun r c events hfirst => hfirst.inside index
    rw [examineAll, Tree.sitesAll]
    refine head.bind_of_done (fun run h => h.done) ?_
    intro result c first hfirst
    refine Ensures.mono ?_ fun run hlater => hfirst.append hlater
    refine (examineAll_follows rest table (index + 1) h).bind_of_done (fun run h => h.done) ?_
    intro results c later hlater
    refine ensures_pure fun c => ⟨⟨_, rfl⟩, ?_, ?_, ?_⟩
    · simpa using hlater.visits
    · simpa using hlater.leaves
    · simpa using hlater.applied

end

end Observed

/-! ## A rewrite in a session -/

namespace Session

theorem transcript_follows (session : Session σ) {table : Table σ ε} (h : table.Plain) (t : Tree) :
    (session.transcript table t).Follows (t.sites table) :=
  Observed.examine_follows t table h session.context

/-- **The tree and the keys of the table decide what matches.**  If no filter declines a node and no
callback fails, a rewrite succeeds; it hands to `visit`, in pre-order, the nodes that have one, it
calls as many `leave`s as nodes have, and it applies a rule to every node that has an entry and to
nothing else.  All of this is the same for any other such table with the same outline. -/
theorem rewrite_sites (session : Session σ) (table : Table σ ε) (t : Tree) (h : table.Plain) :
    (∃ t', (session.rewrite table t).1 = .ok t') ∧
    ((session.calls table t).filter (·.slot = .visit)).map Call.given
      = ((t.sites table).filter (·.hasVisit)).map Site.node ∧
    handed .visit (session.transcript table t).events
      = ((t.sites table).filter (·.hasVisit)).map Site.place ∧
    ((session.calls table t).filter (·.slot = .leave)).length
      = (t.sites table).countP (·.hasLeave) ∧
    (session.rewrite table t).2.stats.matched
      = session.stats.matched + (t.sites table).countP (·.isMatched) ∧
    applications (session.transcript table t).events
      = ((t.sites table).filter (·.isMatched)).map Site.place ∧
    (∀ position given, (position, given) ∈ applications (session.transcript table t).events →
      t.at? position = some given) ∧
    ∀ (σ' ε' : Type) (session' : Session σ') (table' : Table σ' ε'),
      table'.Plain → table'.outline = table.outline →
        handed .visit (session'.transcript table' t).events
          = handed .visit (session.transcript table t).events ∧
        ((session'.calls table' t).filter (·.slot = .leave)).length
          = ((session.calls table t).filter (·.slot = .leave)).length ∧
        applications (session'.transcript table' t).events
          = applications (session.transcript table t).events := by
  have follows := session.transcript_follows h t
  refine ⟨?_, ?_, follows.visits, ?_, ?_, follows.applied, ?_, ?_⟩
  · obtain ⟨r, hr⟩ := follows.done
    rw [rewrite_eq, hr]
    exact ⟨_, rfl⟩
  · rw [calls_eq, ← handed_snd, follows.visits, List.map_map]
    rfl
  · rw [calls_eq, ← length_handed, follows.leaves]
  · rw [rewrite_eq, Stats.matched_add, ← length_applications, follows.applied, List.length_map,
      List.countP_eq_length_filter]
  · intro position given hm
    rw [follows.applied] at hm
    obtain ⟨site, hs, hplace⟩ := List.mem_map.mp hm
    cases hplace
    exact Tree.mem_sites.mp ⟨site.table, (List.mem_filter.mp hs).1⟩
  · intro σ' ε' session' table' h' same
    have follows' := session'.transcript_follows h' t
    refine ⟨?_, ?_, ?_⟩
    · rw [follows.visits, follows'.visits]
      exact Tree.places_congr Site.hasVisit_outline Site.hasVisit_outline same t
    · have leaves := congrArg List.length
        (Tree.places_congr Site.hasLeave_outline Site.hasLeave_outline same t)
      rw [List.length_map, List.length_map, ← List.countP_eq_length_filter,
        ← List.countP_eq_length_filter] at leaves
      rw [calls_eq, calls_eq, ← length_handed, ← length_handed, follows.leaves, follows'.leaves,
        leaves]
    · rw [follows.applied, follows'.applied]
      exact Tree.places_congr Site.isMatched_outline Site.isMatched_outline same t

/-- Replaces nodes of kind 1 by trees with nodes of the kinds 1 and 2, and looks at nodes of kind 2
below nodes of kind 1. -/
def growing : Table Unit Empty :=
  .mk [.mk ⟨1⟩ "" (.matched
    { visit? := some fun _ => return .replaced ⟨⟨1⟩, [], [.leaf ⟨1⟩, .leaf ⟨2⟩]⟩ }
    (.mk [.mk ⟨2⟩ "" (.matched { leave? := some fun _ => return .unchanged } .empty)] []))] []

theorem plain_growing : growing.Plain := by
  refine Table.plain_iff.mpr fun entry he => ?_
  cases List.mem_singleton.mp he
  refine ⟨⟨rfl, ?_, nofun⟩, Table.plain_iff.mpr fun entry he => ?_⟩
  · rintro visit ⟨⟩ t c
    exact ⟨_, c, rfl⟩
  · cases List.mem_singleton.mp he
    refine ⟨⟨rfl, nofun, ?_⟩, Table.plain_iff.mpr nofun⟩
    rintro leave ⟨⟩ t c
    exact ⟨_, c, rfl⟩

theorem rewrite_sites_growing :
    growing.Plain ∧
    (({ context := () } : Session Unit).rewrite growing
      ⟨⟨1⟩, [], [.leaf ⟨2⟩, .leaf ⟨1⟩]⟩).2.stats.matched = 2 ∧
    applications (({ context := () } : Session Unit).transcript growing
      ⟨⟨1⟩, [], [.leaf ⟨2⟩, .leaf ⟨1⟩]⟩).events
        = [([], ⟨⟨1⟩, [], [.leaf ⟨2⟩, .leaf ⟨1⟩]⟩), ([0], .leaf ⟨2⟩)] := by
  obtain ⟨-, -, -, -, matched, applied, -⟩ := rewrite_sites { context := () } growing
    ⟨⟨1⟩, [], [.leaf ⟨2⟩, .leaf ⟨1⟩]⟩ plain_growing
  exact ⟨plain_growing, matched, applied⟩

end Session

end TreeRewrite
