import TreeRewrite.Proofs.Pattern.Hooks
import TreeRewrite.Proofs.Traversal.Observed

/-!
# An observed walk is the walk itself

An observed walk is told apart from `Walk.examine` by nothing that callbacks could notice.  To say
this for the calls as well as for the results, callbacks are allowed to write down what they are
given: a `Recorder` is a richer context in which the callbacks' own context is kept together with
something made of the events.

## What is here

* `Recorder` — a context of type `τ` that keeps a context of type `σ` and a record of events;
  `Recorder.hooks` — callbacks that keep the record up to date.
* `Recorder.walk_examine` — the walk whose callbacks keep a record ends as the transcript of the
  observed walk says: with the same result, the same context, the counters that the events add up
  to, and the record of these events.
* `Session.rewrite_eq` — the case without a record: a rewrite in a session, by its transcript.
* `Session.calls` — the calls that callbacks write down in a rewrite; `Session.calls_eq` says that
  these are the calls of the transcript.
-/

set_option autoImplicit false

namespace TreeRewrite

variable {σ τ ε α β : Type}

/-- A way to keep a context and a record of events in one value.  A record is made of calls only,
and positions do not matter. -/
structure Recorder (σ τ : Type) where
  /-- The context that is kept. -/
  context : τ → σ
  /-- Puts another context in its place and adds events to the record. -/
  record : σ → List (Event σ) → τ → τ
  context_record : ∀ c events x, context (record c events x) = c
  record_nil : ∀ x, record (context x) [] x = x
  record_record : ∀ c c' events later x,
    record c' later (record c events x) = record c' (events ++ later) x
  record_inside : ∀ c index events x,
    record c (events.map (·.inside index)) x = record c events x
  record_note : ∀ c position deed x, Event.call? (⟨position, deed⟩ : Event σ) = none →
    record c [⟨position, deed⟩] x = record c [] x

namespace Recorder

variable (R : Recorder σ τ)

/-! ## Callbacks that keep a record -/

/-- Calls a callback and adds the call to the record. -/
def keep (slot : Slot) (callback : Tree → Action σ ε α) : Tree → Action τ ε α := fun t x =>
  let (result, c) := callback t (R.context x)
  (result, R.record c [⟨[], .called ⟨slot, t, R.context x⟩⟩] x)

/-- The hooks that also keep the record. -/
def hooks (h : Hooks σ ε) : Hooks τ ε where
  filter? := h.filter?.map (R.keep .filter)
  visit? := h.visit?.map (R.keep .visit)
  leave? := h.leave?.map (R.keep .leave)

/-- The table whose callbacks also keep the record. -/
def table (table : Table σ ε) : Table τ ε := table.mapHooks R.hooks

theorem hooks_rule (rule : Rule σ ε) : (rule.mapHooks R.hooks).hooks = R.hooks rule.hooks :=
  rule.hooks_mapHooks rfl

/-! ## An observed walk as a walk -/

/-- Carries out an observed walk in a session: events are counted and recorded. -/
def walk (o : Observed σ ε α) : Walk τ ε α := fun session =>
  let run := o (R.context session.context)
  (run.result,
    { context := R.record run.context run.events session.context
      stats := session.stats + tally run.events })

@[simp] theorem walk_pure (a : α) : R.walk (pure a : Observed σ ε α) = pure a := by
  funext session
  exact congrArg (fun x => ((.ok a : Except ε α), ({ session with context := x } : Session τ)))
    (R.record_nil session.context)

@[simp] theorem walk_bind (o : Observed σ ε α) (next : α → Observed σ ε β) :
    R.walk (o >>= next) = R.walk o >>= fun a => R.walk (next a) := by
  funext session
  show R.walk (o.bind next) session = _
  simp only [walk, Observed.bind, bind, ExceptT.bind, ExceptT.mk, StateT.bind]
  rcases o (R.context session.context) with ⟨e | a, c, events⟩
  · rfl
  · simp only [ExceptT.bindCont, walk, Transcript.after, tally_append, ← Stats.add_assoc,
      R.context_record, R.record_record]

@[simp] theorem walk_note (deed : Deed σ) (h : Event.call? (⟨[], deed⟩ : Event σ) = none) :
    R.walk (Observed.note deed : Observed σ ε Unit) = Walk.tally (· + deed.stats) := by
  funext session
  have hx : R.record (R.context session.context) [⟨[], deed⟩] session.context
      = session.context := by
    rw [R.record_note _ _ _ _ h, R.record_nil]
  exact congrArg (fun x => ((.ok () : Except ε Unit),
    ({ context := x, stats := session.stats + deed.stats } : Session τ))) hx

@[simp] theorem walk_call (slot : Slot) (callback : Tree → Action σ ε α) (t : Tree) :
    R.walk (Observed.call slot callback t) = Walk.call (R.keep slot callback t) := by
  funext session
  rfl

@[simp] theorem walk_inside (index : Nat) (o : Observed σ ε α) :
    R.walk (Observed.inside index o) = R.walk o := by
  funext session
  simp only [walk, Observed.inside, tally_inside, R.record_inside]

/-! ## The walk of a tree -/

theorem walk_admitted (table : Table σ ε) (t : Tree) :
    Walk.admitted (R.table table) t
      = Option.map (·.mapHooks R.hooks) <$> R.walk (Observed.admitted table t) := by
  have decided (rule : Rule σ ε) (accepted : Bool) :
      (if accepted then do
          Walk.tally fun s => { s with matched := s.matched + 1 }
          return some (rule.mapHooks R.hooks)
        else do
          Walk.tally fun s => { s with rejected := s.rejected + 1 }
          return none : Walk τ ε (Option (Rule τ ε)))
        = Option.map (·.mapHooks R.hooks) <$> R.walk (if accepted then do
            Observed.note (.matched t)
            return some rule
          else do
            Observed.note .rejected
            return none) := by
    cases accepted <;>
      simp only [Bool.false_eq_true, if_false, if_true] <;>
      rw [walk_bind, walk_note _ _ rfl, walk_pure, map_bind] <;>
      rfl
  rw [Observed.admitted, walk_bind, walk_note _ _ rfl, Walk.admitted, map_bind]
  congr 1
  funext _
  rw [Recorder.table, Table.find?_mapHooks]
  cases table.find? t.kind with
  | none => rw [walk_pure]; rfl
  | some entry =>
    simp only [Option.map_some, Entry.rule_mapHooks, hooks_rule]
    cases hf : entry.rule.hooks.filter? with
    | none =>
      simp only [hooks, hf, Option.map_none, walk_bind, walk_pure, pure_bind]
      exact decided entry.rule true
    | some filter =>
      simp only [hooks, hf, Option.map_some, walk_bind, walk_call, map_bind]
      congr 1
      funext accepted
      exact decided entry.rule accepted

theorem walk_visit (rule : Rule σ ε) (t : Tree) :
    Walk.visit (rule.mapHooks R.hooks) t = R.walk (Observed.visit rule t) := by
  rw [Observed.visit, Walk.visit, hooks_rule, hooks]
  cases rule.hooks.visit? with
  | none => rw [walk_pure]; rfl
  | some visit => rw [walk_call]; rfl

theorem walk_replaced (t : Tree) :
    R.walk (do
        Observed.note (.replaced t)
        return .replaced t : Observed σ ε Rewrite)
      = (do
        Walk.tallyReplaced
        return .replaced t) := by
  rw [walk_bind, walk_note _ _ rfl, walk_pure]
  rfl

theorem walk_leave (rule : Rule σ ε) (t : Tree) (visited below : Rewrite) :
    Walk.leave (rule.mapHooks R.hooks) t visited below
      = R.walk (Observed.leave rule t visited below) := by
  rw [Observed.leave, Walk.leave, hooks_rule, hooks]
  cases rule.hooks.leave? with
  | none =>
    simp only [pure_bind, Option.map_none]
    cases visited with
    | unchanged => exact (R.walk_pure below).symm
    | replaced t' => exact (R.walk_replaced t').symm
  | some leave =>
    simp only [walk_bind, walk_call, Option.map_some]
    congr 1
    funext verdict
    cases verdict with
    | unchanged => exact (R.walk_pure below).symm
    | replaced t' => exact (R.walk_replaced t').symm

mutual

/-- **The walk is the observed walk**, if its callbacks keep the record. -/
theorem walk_examine : ∀ (t : Tree) (table : Table σ ε),
    Walk.examine t (R.table table) = R.walk (Observed.examine t table)
  | ⟨kind, attrs, children⟩, table => by
    rw [Observed.examine, Walk.examine, walk_bind, walk_admitted, bind_map_left]
    congr 1
    funext admitted
    cases admitted with
    | none =>
      simp only [Option.map_none, walk_bind, walk_examineAll children table 0, walk_pure]
    | some rule =>
      simp only [Option.map_some, Rule.table_mapHooks, walk_visit, walk_bind, walk_leave]
      congr 1
      funext visited
      rw [← Recorder.table, walk_examineAll children rule.table 0]

theorem walk_examineAll : ∀ (ts : List Tree) (table : Table σ ε) (index : Nat),
    Walk.examineAll ts (R.table table) = R.walk (Observed.examineAll ts table index)
  | [], _, _ => by
    rw [Observed.examineAll, Walk.examineAll, walk_pure]
  | t :: rest, table, index => by
    rw [Observed.examineAll, Walk.examineAll, walk_bind, walk_inside, walk_examine t,
      walk_examineAll rest table (index + 1)]
    simp only [walk_bind, walk_pure]

end

end Recorder

/-! ## A rewrite in a session -/

/-- No record is kept. -/
def Recorder.none : Recorder σ σ where
  context c := c
  record c _ _ := c
  context_record _ _ _ := rfl
  record_nil _ := rfl
  record_record _ _ _ _ _ := rfl
  record_inside _ _ _ _ := rfl
  record_note _ _ _ _ _ := rfl

/-- All calls are written down. -/
def Recorder.calls : Recorder σ (σ × List (Call σ)) where
  context := Prod.fst
  record c events x := (c, x.2 ++ TreeRewrite.calls events)
  context_record _ _ _ := rfl
  record_nil x := by rw [TreeRewrite.calls, List.filterMap_nil, List.append_nil]
  record_record c c' events later x := by rw [calls_append, List.append_assoc]
  record_inside c index events x := by rw [calls_inside]
  record_note c position deed x h := by
    rw [TreeRewrite.calls, TreeRewrite.calls, List.filterMap_cons_none h]

theorem Recorder.table_none (table : Table σ ε) : Recorder.none.table table = table := by
  refine Table.mapHooks_self (fun h => ?_) table
  rcases h with ⟨_ | filter, _ | visit, _ | leave⟩ <;> rfl

/-- The transcript of a rewrite. -/
def Session.transcript (session : Session σ) (table : Table σ ε) (t : Tree) :
    Transcript σ ε Rewrite :=
  Observed.examine t table session.context

/-- The calls that callbacks write down in a rewrite. -/
def Session.calls (session : Session σ) (table : Table σ ε) (t : Tree) : List (Call σ) :=
  (({ session with context := (session.context, []) } : Session (σ × List (Call σ))).rewrite
    (Recorder.calls.table table) t).2.context.2

theorem Session.examine_eq (session : Session σ) (table : Table σ ε) (t : Tree) :
    Walk.examine t table session
      = ((session.transcript table t).result,
        { context := (session.transcript table t).context
          stats := session.stats + tally (session.transcript table t).events }) := by
  conv => lhs; rw [← Recorder.table_none table, Recorder.walk_examine]
  rfl

/-- **A rewrite by its transcript.** -/
theorem Session.rewrite_eq (session : Session σ) (table : Table σ ε) (t : Tree) :
    session.rewrite table t
      = ((session.transcript table t).result.map (·.resolve t),
        { context := (session.transcript table t).context
          stats := session.stats + tally (session.transcript table t).events }) := by
  rw [Session.rewrite, session.examine_eq]
  cases (session.transcript table t).result <;> rfl

/-- **The calls that callbacks write down are those of the transcript.** -/
theorem Session.calls_eq (session : Session σ) (table : Table σ ε) (t : Tree) :
    session.calls table t = TreeRewrite.calls (session.transcript table t).events := by
  rw [Session.calls, Session.rewrite, Recorder.walk_examine, Recorder.walk]
  simp only [Session.transcript, Recorder.calls]
  cases (Observed.examine t table session.context).result <;> simp

end TreeRewrite
