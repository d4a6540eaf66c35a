import TreeRewrite.Proofs.Traversal.Owners

/-!
# A filter that lets nothing through

A node that a filter declines is walked as a node without an entry: the table in force at the node
stays in force below it, not the table of the entry that declined.  So an entry whose filter
declines every node might as well not be there, whatever its other callbacks and its own table are.

## What is here

* `Rule.Declines` — a rule whose filter declines every node and does nothing else.
* `Table.Pruned` — two tables of which the second lacks such entries; it holds on to itself
  (`Table.simulation_pruned`).
* `Session.rewrite_erase` — a rewrite by a table without such entries, wherever they stood.
-/

set_option autoImplicit false

namespace TreeRewrite

variable {σ ε : Type}

/-- The rule has a filter, which declines every node, never fails, and leaves the context as it
was. -/
def Rule.Declines (rule : Rule σ ε) : Prop :=
  ∃ filter, rule.hooks.filter? = some filter ∧ ∀ t c, filter t c = (.ok false, c)

/-- What is written down for rules that are not gone. -/
def OwnedCall.remaining (gone : List Kind → Bool) (x : σ × List (OwnedCall σ)) :
    σ × List (OwnedCall σ) :=
  (x.1, x.2.filter fun owned => !gone owned.path)

theorem Recorder.owned_reads_remaining {gone : List Kind → Bool} {path : List Kind}
    (h : gone path = false) :
    (Recorder.owned path : Recorder σ _).Reads (Recorder.owned path)
      (OwnedCall.remaining gone) where
  context _ := rfl
  record c events x := by
    have kept (calls : List (Call σ)) :
        (calls.map (OwnedCall.mk path)).filter (fun owned => !gone owned.path)
          = calls.map (OwnedCall.mk path) := by
      refine List.filter_eq_self.mpr fun owned ho => ?_
      obtain ⟨call, -, rfl⟩ := List.mem_map.mp ho
      rw [h, Bool.not_false]
    simp only [Recorder.owned, OwnedCall.remaining, List.filter_append, kept]

/-- Writing down a call that does not remain is not seen. -/
theorem Rule.Declines.shut {rule : Rule σ ε} (h : rule.Declines) {gone : List Kind → Bool}
    {path : List Kind} (hg : gone path = true) :
    ((Recorder.owned path).hooks rule.hooks).Shut (OwnedCall.remaining gone) := by
  obtain ⟨filter, hf, declines⟩ := h
  refine ⟨(Recorder.owned path).keep .filter filter, by rw [Recorder.hooks, hf]; rfl, ?_⟩
  intro t x
  simp only [Recorder.keep]
  rw [declines]
  refine ⟨rfl, ?_⟩
  simp [Recorder.owned, OwnedCall.remaining, calls, Event.call?, hg]

/-- Every entry that is gone declines, seen from what stands above the table. -/
def Table.DeclinesAt (gone : List Kind → Bool) (above : List Kind) (table : Table σ ε) : Prop :=
  ∀ path rule, table.ruleAt? path = some rule → gone (above ++ path) = true → rule.Declines

theorem Table.DeclinesAt.below {gone : List Kind → Bool} {above : List Kind} {table : Table σ ε}
    (h : table.DeclinesAt gone above) {kind : Kind} {entry : Entry σ ε}
    (hf : table.find? kind = some entry) :
    entry.rule.table.DeclinesAt gone (above ++ [kind]) := by
  intro path rule hr hg
  rw [List.append_assoc] at hg
  exact h (kind :: path) rule (Table.ruleAt?_cons hf hr) hg

/-- Tables whose callbacks write down their owners; the second is the first without the entries that
are gone, all of which decline. -/
def Table.Pruned (gone : List Kind → Bool) (table table' : Table (σ × List (OwnedCall σ)) ε) :
    Prop :=
  ∃ (above : List Kind) (plain : Table σ ε), plain.DeclinesAt gone above ∧
    table = plain.owned above ∧ table' = (plain.erase fun path => gone (above ++ path)).owned above

theorem Table.simulation_pruned (gone : List Kind → Bool) :
    Table.Simulation (OwnedCall.remaining gone) (Table.Pruned gone (σ := σ) (ε := ε)) := by
  rintro _ _ ⟨above, plain, declines, rfl, rfl⟩ kind
  rw [find?_owned, find?_owned, find?_erase]
  cases hf : plain.find? kind with
  | none =>
    rw [Option.map_none, Option.map_none, ite_self]
    exact .absent
  | some entry =>
    have hk : entry.kind = kind := kind_of_find? hf
    cases hg : gone (above ++ [kind]) with
    | true =>
      refine .missing ?_
      rw [Entry.hooks_owned, hk]
      exact (declines [kind] entry.rule (ruleAt?_singleton hf) hg).shut hg
    | false =>
      refine .kept ⟨?_, above ++ [kind], entry.rule.table, declines.below hf, ?_, ?_⟩
      · rw [Entry.hooks_owned, Entry.hooks_owned, Entry.kind_erase, Entry.rule_erase,
          Rule.hooks_erase, hk]
        exact (Recorder.owned_reads_remaining hg).hooks entry.rule.hooks
      · rw [Entry.table_owned, hk]
      · rw [Entry.table_owned, Entry.kind_erase, Entry.rule_erase, Rule.table_erase, hk]
        simp only [List.append_assoc, List.singleton_append]

namespace Session

/-- **An entry that declines every node might as well not be there.**  Take any entries of a table,
at any depth, whose filters decline every node without failing or changing the context.  Without
them a rewrite gives the same tree or the same error and leaves the same context; the calls are
those of the other rules, in the same order, with the same nodes and contexts; and the counters are
the same but for the nodes that were declined. -/
theorem rewrite_erase (session : Session σ) (table : Table σ ε) (gone : List Kind → Bool)
    (t : Tree)
    (declines : ∀ path rule, table.ruleAt? path = some rule → gone path = true → rule.Declines) :
    let erased := table.erase gone
    (session.rewrite erased t).1 = (session.rewrite table t).1 ∧
    (session.rewrite erased t).2.context = (session.rewrite table t).2.context ∧
    session.ownedCalls erased t
      = (session.ownedCalls table t).filter (fun owned => !gone owned.path) ∧
    (session.ownedCalls table t).map OwnedCall.call = session.calls table t ∧
    (session.ownedCalls erased t).map OwnedCall.call = session.calls erased t ∧
    (session.rewrite erased t).2.stats.visited = (session.rewrite table t).2.stats.visited ∧
    (session.rewrite erased t).2.stats.matched = (session.rewrite table t).2.stats.matched ∧
    (session.rewrite erased t).2.stats.replaced = (session.rewrite table t).2.stats.replaced := by
  intro erased
  have fresh : session.unwritten.Alike (OwnedCall.remaining gone) session.unwritten := ⟨rfl, rfl⟩
  obtain ⟨result, alike⟩ := rewrite_simulates (Table.simulation_pruned gone)
    ⟨[], table, declines, rfl, rfl⟩ fresh t
  obtain ⟨result₁, alike₁, calls₁⟩ := session.rewrite_owned table t
  obtain ⟨result₂, alike₂, calls₂⟩ := session.rewrite_owned erased t
  have counters := Stats.withoutRejected_eq_iff.mp
    (alike₂.stats.trans (alike.stats.trans alike₁.stats.symm))
  obtain ⟨context, owners⟩ := Prod.ext_iff.mp alike.context
  refine ⟨?_, ?_, owners, calls₁, calls₂, counters⟩
  · rw [result₁, result₂]
    exact result
  · rw [alike₁.context, alike₂.context]
    exact context

/-- Below nodes of kind 1, declines nodes of kind 2, which have a table of their own, and replaces
nodes of kind 3. -/
def gated : Table Unit Empty :=
  .mk [.mk ⟨1⟩ "" (.nested (.mk [
    .mk ⟨2⟩ "" (.matched
      { filter? := some fun _ => return false
        visit? := some fun _ => return .replaced (.leaf ⟨7⟩) }
      (.mk [.mk ⟨3⟩ "" (.matched
        { visit? := some fun _ => return .replaced (.leaf ⟨8⟩) } .empty)] [])),
    .mk ⟨3⟩ "" (.matched { visit? := some fun _ => return .replaced (.leaf ⟨9⟩) } .empty)] []))] []

theorem declines_gated (path : List Kind) (rule : Rule Unit Empty)
    (h : gated.ruleAt? path = some rule) (hp : (path == [⟨1⟩, ⟨2⟩]) = true) : rule.Declines := by
  cases eq_of_beq hp
  cases h
  exact ⟨_, rfl, fun _ _ => rfl⟩

theorem rewrite_erase_gated :
    (∀ path rule, gated.ruleAt? path = some rule → (path == [⟨1⟩, ⟨2⟩]) = true → rule.Declines) ∧
    (({ context := () } : Session Unit).rewrite (gated.erase (· == [⟨1⟩, ⟨2⟩]))
      ⟨⟨1⟩, [], [⟨⟨2⟩, [], [.leaf ⟨3⟩]⟩]⟩).1 = .ok ⟨⟨1⟩, [], [⟨⟨2⟩, [], [.leaf ⟨9⟩]⟩]⟩ ∧
    (({ context := () } : Session Unit).rewrite gated
      ⟨⟨1⟩, [], [⟨⟨2⟩, [], [.leaf ⟨3⟩]⟩]⟩).2.stats
        = { visited := 3, matched := 2, rejected := 1, replaced := 1 } := by
  refine ⟨declines_gated, ?_, rfl⟩
  exact (rewrite_erase { context := () } gated (· == [⟨1⟩, ⟨2⟩])
    ⟨⟨1⟩, [], [⟨⟨2⟩, [], [.leaf ⟨3⟩]⟩]⟩ declines_gated).1

end Session

end TreeRewrite
