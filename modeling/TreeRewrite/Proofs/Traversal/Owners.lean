import TreeRewrite.Proofs.Pattern.Paths
import TreeRewrite.Proofs.Traversal.Simulation

/-!
# Calls and the rules they belong to

A `Call` says which node and which context a callback was given, but not whose callback it was.
Here callbacks write down the path of their rule as well.

## What is here

* `OwnedCall` — a call, with the path of the rule whose callback is called.
* `Session.ownedCalls` — the calls that callbacks write down in a rewrite, with their owners.
* `Recorder.Reads` — one record can be read off another one.
* `Session.rewrite_owned` — callbacks that write down their calls do what they do without that, and
  the calls they write down are the calls of the rewrite.
-/

set_option autoImplicit false

namespace TreeRewrite

variable {σ τ τ' ε α : Type}

/-- A call, and the path of the rule whose callback is called. -/
structure OwnedCall (σ : Type) where
  path : List Kind
  call : Call σ

/-- The calls are written down for the rule at a path. -/
def Recorder.owned (path : List Kind) : Recorder σ (σ × List (OwnedCall σ)) where
  context := Prod.fst
  record c events x := (c, x.2 ++ (TreeRewrite.calls events).map (⟨path, ·⟩))
  context_record _ _ _ := rfl
  record_nil x := by rw [TreeRewrite.calls, List.filterMap_nil, List.map_nil, List.append_nil]
  record_record c c' events later x := by rw [calls_append, List.map_append, List.append_assoc]
  record_inside c index events x := by rw [calls_inside]
  record_note c position deed x h := by
    rw [TreeRewrite.calls, TreeRewrite.calls, List.filterMap_cons_none h]

theorem Recorder.keep_owned (path : List Kind) (slot : Slot) (callback : Tree → Action σ ε α)
    (t : Tree) (x : σ × List (OwnedCall σ)) :
    (Recorder.owned path).keep slot callback t x
      = ((callback t x.1).1, ((callback t x.1).2, x.2 ++ [⟨path, ⟨slot, t, x.1⟩⟩])) := rfl

/-- The table whose callbacks write down their calls, with what stands above it in front of their
paths. -/
def Table.owned (above : List Kind) (table : Table σ ε) :
    Table (σ × List (OwnedCall σ)) ε :=
  table.mapHooksAt fun path => (Recorder.owned (above ++ path)).hooks

/-- The session in which nothing has been written down yet. -/
def Session.unwritten (session : Session σ) : Session (σ × List (OwnedCall σ)) :=
  { session with context := (session.context, []) }

/-- The calls that callbacks write down in a rewrite, with their owners. -/
def Session.ownedCalls (session : Session σ) (table : Table σ ε) (t : Tree) :
    List (OwnedCall σ) :=
  (session.unwritten.rewrite (table.owned []) t).2.context.2

theorem Table.find?_owned (above : List Kind) (table : Table σ ε) (kind : Kind) :
    (table.owned above).find? kind = (table.find? kind).map fun entry =>
      entry.mapHooksAt fun path => (Recorder.owned (above ++ path)).hooks :=
  table.find?_mapHooksAt kind

/-- Below an entry, its kind is added to what stands above. -/
theorem Entry.table_owned (above : List Kind) (entry : Entry σ ε) :
    (entry.mapHooksAt fun path => (Recorder.owned (above ++ path)).hooks).rule.table
      = entry.rule.table.owned (above ++ [entry.kind]) := by
  simp only [Entry.rule_mapHooksAt, Rule.table_mapHooksAt, Table.owned, List.append_assoc,
    List.singleton_append]

theorem Entry.hooks_owned (above : List Kind) (entry : Entry σ ε) :
    (entry.mapHooksAt fun path => (Recorder.owned (above ++ path)).hooks).rule.hooks
      = (Recorder.owned (above ++ [entry.kind])).hooks entry.rule.hooks := by
  rw [Entry.rule_mapHooksAt, Rule.hooks_mapHooksAt rfl]

theorem Table.hooksAt?_owned (above : List Kind) (table : Table σ ε) (path : List Kind) :
    (table.owned above).hooksAt? path
      = (table.hooksAt? path).map (Recorder.owned (above ++ path)).hooks :=
  Table.hooksAt?_mapHooksAt (fun _ => rfl) table path

/-- Tables that correspond do so when their callbacks write down their calls, if the relation
between the callbacks stands this. -/
theorem Table.Corresponds.owned {among : Kind → Prop} {Q : Hooks σ ε → Hooks σ ε → Prop}
    {Q' : Hooks (σ × List (OwnedCall σ)) ε → Hooks (σ × List (OwnedCall σ)) ε → Prop}
    {table table' : Table σ ε} (h : table.Corresponds among Q table')
    (hQ : ∀ path hooks hooks', Q hooks hooks' →
      Q' ((Recorder.owned path).hooks hooks) ((Recorder.owned path).hooks hooks'))
    (above : List Kind) : (table.owned above).Corresponds among Q' (table'.owned above) := by
  intro path hp
  have rules := h path hp
  rw [hooksAt?_owned, hooksAt?_owned]
  generalize table.hooksAt? path = found, table'.hooksAt? path = found' at rules ⊢
  cases rules with
  | none => exact .none
  | some related => exact .some (hQ _ _ _ related)

/-! ## Reading a record off another one -/

/-- The view of what the first recorder keeps is what the second one keeps. -/
structure Recorder.Reads (R : Recorder σ τ) (R' : Recorder σ τ') (view : τ → τ') : Prop where
  context : ∀ x, R'.context (view x) = R.context x
  record : ∀ c events x, R'.record c events (view x) = view (R.record c events x)

namespace Recorder.Reads

variable {R : Recorder σ τ} {R' : Recorder σ τ'} {view : τ → τ'}

theorem keep (h : R.Reads R' view) (slot : Slot) (callback : Tree → Action σ ε α) (t : Tree) :
    Action.Seen view (R.keep slot callback t) (R'.keep slot callback t) := by
  intro x
  simp only [Recorder.keep]
  rw [h.context]
  rcases callback t (R.context x) with ⟨result, c⟩
  exact congrArg (result, ·) (h.record c _ x)

/-- Callbacks that keep the one record agree with those that keep the other. -/
theorem hooks (h : R.Reads R' view) (hooks : Hooks σ ε) :
    (R.hooks hooks).Seen view (R'.hooks hooks) where
  filter := by
    rw [Recorder.hooks, Recorder.hooks]
    cases hooks.filter? with
    | none => exact .none
    | some filter => exact .some (h.keep .filter filter)
  visit := by
    rw [Recorder.hooks, Recorder.hooks]
    cases hooks.visit? with
    | none => exact .none
    | some visit => exact .some (h.keep .visit visit)
  leave := by
    rw [Recorder.hooks, Recorder.hooks]
    cases hooks.leave? with
    | none => exact .none
    | some leave => exact .some (h.keep .leave leave)

end Recorder.Reads

/-- A table whose callbacks write down their owners, and the same table with another record. -/
def Table.Rerecorded (R : Recorder σ τ) (table : Table (σ × List (OwnedCall σ)) ε)
    (table' : Table τ ε) : Prop :=
  ∃ (above : List Kind) (plain : Table σ ε), table = plain.owned above ∧ table' = R.table plain

theorem Table.simulation_rerecorded {R : Recorder σ τ}
    {view : σ × List (OwnedCall σ) → τ} (h : ∀ path, (Recorder.owned path).Reads R view) :
    Table.Simulation view (Table.Rerecorded R (ε := ε)) := by
  rintro _ _ ⟨above, plain, rfl, rfl⟩ kind
  rw [Table.find?_owned, Recorder.table, Table.find?_mapHooks]
  cases hf : plain.find? kind with
  | none => exact .absent
  | some entry =>
    refine .kept ⟨?_, above ++ [entry.kind], entry.rule.table, Entry.table_owned above entry, ?_⟩
    · rw [Entry.hooks_owned, Entry.rule_mapHooks, R.hooks_rule]
      exact (h _).hooks entry.rule.hooks
    · rw [Entry.rule_mapHooks, Rule.table_mapHooks, Recorder.table]

theorem Recorder.owned_reads_none (path : List Kind) :
    (Recorder.owned path : Recorder σ _).Reads Recorder.none Prod.fst :=
  ⟨fun _ => rfl, fun _ _ _ => rfl⟩

theorem Recorder.owned_reads_calls (path : List Kind) :
    (Recorder.owned path : Recorder σ _).Reads Recorder.calls
      fun x => (x.1, x.2.map OwnedCall.call) where
  context _ := rfl
  record c events x := by
    simp [Recorder.owned, Recorder.calls, Function.comp_def]

namespace Session

/-- **Writing down the owners of calls changes nothing**: the result and the context are those of
the rewrite, and so are the calls, and the counters but for the nodes that were declined. -/
theorem rewrite_owned (session : Session σ) (table : Table σ ε) (t : Tree) :
    (session.rewrite table t).1 = (session.unwritten.rewrite (table.owned []) t).1 ∧
    (session.unwritten.rewrite (table.owned []) t).2.Alike Prod.fst (session.rewrite table t).2 ∧
    (session.ownedCalls table t).map OwnedCall.call = session.calls table t := by
  have same : session.unwritten.Alike Prod.fst session := ⟨rfl, rfl⟩
  have same' : session.unwritten.Alike (fun x => (x.1, x.2.map OwnedCall.call))
      { session with context := (session.context, []) } := ⟨rfl, rfl⟩
  have plain := rewrite_simulates (Table.simulation_rerecorded Recorder.owned_reads_none)
    ⟨[], table, rfl, rfl⟩ same t
  have recorded := rewrite_simulates (Table.simulation_rerecorded Recorder.owned_reads_calls)
    ⟨[], table, rfl, rfl⟩ same' t
  rw [Recorder.table_none] at plain
  exact ⟨plain.1, plain.2, (congrArg Prod.snd recorded.2.context).symm⟩

end Session

end TreeRewrite
