import TreeRewrite.Proofs.Traversal.Eager
import TreeRewrite.Proofs.Traversal.Owners

/-!
# The first failure ends a rewrite

A callback that fails ends the rewrite at once, wherever it is called: no filter that would come
later is asked, nothing is visited, and none of the `leave`s that are pending on the way up is
called.  To say what has been left out, a rewrite that fails is held against one that goes on: by
callbacks that do the same wherever the first ones do not fail, and anything where they do.  The
calls of the first rewrite are those with which the second one starts.

Callbacks write down their calls, and a rewrite that goes on only adds to what has been written
down.  So it is enough to compare what the two have written: `Action.Outruns` is kept when
computations are put together, and so is what `Table.Explains` says of calls and failures.

## What is here

* `Action.ContinuedBy` — the second computation does what the first does unless that fails.
* `Table.answer?` — what the callback for a call does; `Table.Answered` — calls that did not fail.
* `Table.Explains` — a result by the calls: if it is a failure, it is that of the last call.
* `Action.Outruns` — what happens in computations that write down calls, of which one goes on where
  the other fails.
* `Session.rewrite_stops` — a rewrite that fails.
-/

set_option autoImplicit false

namespace TreeRewrite

variable {σ ε α β : Type}

/-! ## Callbacks that go on -/

/-- Where the first computation does not fail, the second one does the same. -/
def Action.ContinuedBy (x y : Action σ ε α) : Prop :=
  ∀ c a c', x c = (.ok a, c') → y c = (.ok a, c')

/-- Two tables with callbacks at the same places; where those of the first do not fail, those of the
second do the same. -/
def Table.ContinuedBy (table table' : Table σ ε) : Prop :=
  table.Corresponds (fun _ => True) (Hooks.Related Action.ContinuedBy) table'

/-! ## Logs of computations of which one goes on -/

/-- The second computation only adds to the log, and it does what the first one does unless that
fails; then the log that the first one leaves is that with which the second one starts. -/
structure Action.Outruns (x y : Action (σ × List (OwnedCall σ)) ε α) : Prop where
  adds : ∀ c, c.2 <+: (y c).2.2
  agree : ∀ c, y c = x c ∨ ∃ e c', x c = (.error e, c') ∧ c'.2 <+: (y c).2.2

namespace Action.Outruns

theorem prefix_bind {y : Action (σ × List (OwnedCall σ)) ε α}
    {next : α → Action (σ × List (OwnedCall σ)) ε β}
    (adds : ∀ a c, c.2 <+: (next a c).2.2) (c : σ × List (OwnedCall σ)) :
    (y c).2.2 <+: ((y >>= next) c).2.2 := by
  rcases run : y c with ⟨e | a, c'⟩
  · exact ⟨[], by rw [Eager.bind_of_error run, List.append_nil]⟩
  · rw [Eager.bind_of_ok run]
    exact adds a c'

theorem congruence : Action.Congruence (Action.Outruns (σ := σ) (ε := ε)) where
  pure a := ⟨fun c => List.prefix_rfl, fun c => .inl rfl⟩
  bind {_ _ x y next next'} first second := by
    have later (c) := prefix_bind (y := y) (fun a => (second a).adds) c
    refine ⟨fun c => (first.adds c).trans (later c), fun c => ?_⟩
    rcases first.agree c with same | ⟨e, c', failed, goes⟩
    · rcases run : x c with ⟨e | a, c'⟩
      · rw [Eager.bind_of_error run, Eager.bind_of_error (same.trans run)]
        exact .inl rfl
      · rw [Eager.bind_of_ok run, Eager.bind_of_ok (same.trans run)]
        exact (second a).agree c'
    · exact .inr ⟨e, c', Eager.bind_of_error failed _, goes.trans (later c)⟩

/-- Writing down the call, the second callback does so too, whatever comes of the call. -/
theorem keep (path : List Kind) (slot : Slot) {callback callback' : Tree → Action σ ε α}
    (h : ∀ t, (callback t).ContinuedBy (callback' t)) (t : Tree) :
    Action.Outruns ((Recorder.owned path).keep slot callback t)
      ((Recorder.owned path).keep slot callback' t) where
  adds c := List.prefix_append _ _
  agree c := by
    rw [Recorder.keep_owned, Recorder.keep_owned]
    rcases run : callback t c.1 with ⟨e | a, c'⟩
    · exact .inr ⟨e, _, rfl, List.prefix_rfl⟩
    · rw [h t c.1 a c' run]
      exact .inl rfl

theorem hooks (path : List Kind) {h h' : Hooks σ ε} (related : h.Related Action.ContinuedBy h') :
    ((Recorder.owned path).hooks h).Related Action.Outruns ((Recorder.owned path).hooks h') := by
  obtain ⟨filter?, visit?, leave?⟩ := h
  obtain ⟨filter?', visit?', leave?'⟩ := h'
  obtain ⟨filters, visits, leaves⟩ := related
  refine ⟨?_, ?_, ?_⟩
  · cases filters with
    | none => exact .none
    | some filters => exact .some (keep path .filter filters)
  · cases visits with
    | none => exact .none
    | some visits => exact .some (keep path .visit visits)
  · cases leaves with
    | none => exact .none
    | some leaves => exact .some (keep path .leave leaves)

end Action.Outruns

/-! ## What calls say about a result -/

namespace Table

/-- What the callback for a call does, if there is one. -/
def answer? (table : Table σ ε) (owned : OwnedCall σ) : Option (Except ε Answer × σ) :=
  (table.hooksAt? owned.path).bind (·.answer? owned.call)

/-- None of the calls fails. -/
def Answered (table : Table σ ε) (calls : List (OwnedCall σ)) : Prop :=
  ∀ owned ∈ calls, ∃ answer c, table.answer? owned = some (.ok answer, c)

/-- The calls account for a result: without a failure none of them fails, and a failure is that of
the last call, which leaves the context, and no call before it fails. -/
def Explains (table : Table σ ε) : Except ε α → σ × List (OwnedCall σ) → Prop
  | .ok _, (_, calls) => table.Answered calls
  | .error e, (c, calls) =>
    ∃ earlier last, calls = earlier ++ [last] ∧ table.Answered earlier ∧
      table.answer? last = some (.error e, c)

/-- The calls that a computation adds to those that did not fail account for its result. -/
def Accounts (table : Table σ ε) (x : Action (σ × List (OwnedCall σ)) ε α) : Prop :=
  ∀ c, table.Answered c.2 → table.Explains (x c).1 (x c).2

variable {table : Table σ ε}

theorem accounts_congruence :
    Action.Congruence fun (x _ : Action (σ × List (OwnedCall σ)) ε _) => table.Accounts x where
  pure a c h := h
  bind {_ _ x _ next _} first second c h := by
    have own := first c h
    rcases run : x c with ⟨e | a, c'⟩
    · rw [run] at own
      rw [Eager.bind_of_error run]
      exact own
    · rw [run] at own
      rw [Eager.bind_of_ok run]
      exact second a c' own

/-- A callback that writes down its calls accounts for what it gives. -/
theorem accounts_keep {path : List Kind} {slot : Slot} {callback : Tree → Action σ ε α}
    {answer : α → Answer}
    (h : ∀ t c, table.answer? ⟨path, ⟨slot, t, c⟩⟩
      = some ((callback t c).1.map answer, (callback t c).2)) (t : Tree) :
    table.Accounts ((Recorder.owned path).keep slot callback t) := by
  rintro ⟨c, calls⟩ answered
  have here := h t c
  rw [Recorder.keep_owned]
  dsimp only
  rcases run : callback t c with ⟨e | a, c'⟩ <;> rw [run] at here
  · exact ⟨calls, ⟨path, ⟨slot, t, c⟩⟩, rfl, answered, here⟩
  · intro owned ho
    rcases List.mem_append.mp ho with ho | ho
    · exact answered owned ho
    · cases List.mem_singleton.mp ho
      exact ⟨answer a, c', here⟩

theorem accounts_hooks {path : List Kind} {h : Hooks σ ε} (hp : table.hooksAt? path = some h) :
    ((Recorder.owned path).hooks h).Related (fun x _ => table.Accounts x)
      ((Recorder.owned path).hooks h) := by
  have answers (call : Call σ) : table.answer? ⟨path, call⟩ = h.answer? call := by
    rw [answer?, hp, Option.bind_some]
  obtain ⟨filter?, visit?, leave?⟩ := h
  refine ⟨?_, ?_, ?_⟩
  · cases filter? with
    | none => exact .none
    | some filter => exact .some (accounts_keep fun t c => answers ⟨.filter, t, c⟩)
  · cases visit? with
    | none => exact .none
    | some visit => exact .some (accounts_keep fun t c => answers ⟨.visit, t, c⟩)
  · cases leave? with
    | none => exact .none
    | some leave => exact .some (accounts_keep fun t c => answers ⟨.leave, t, c⟩)

/-- **The calls of a rewrite account for its result.** -/
theorem accounts_eval (table : Table σ ε) (t : Tree) :
    table.Accounts (Eager.eval t (table.owned [])) := by
  have related : (table.owned []).Corresponds (fun _ => True)
      (Hooks.Related fun x _ => table.Accounts x) (table.owned []) := by
    intro path _
    rw [hooksAt?_owned]
    cases hp : table.hooksAt? path with
    | none => exact .none
    | some h => exact .some (accounts_hooks hp)
  exact Eager.eval_related accounts_congruence t related

end Table

/-! ## A rewrite in a session -/

namespace Session

/-- A rewrite with its calls, by the interpreter. -/
theorem eval_owned (session : Session σ) (table : Table σ ε) (t : Tree) :
    Eager.eval t (table.owned []) (session.context, [])
      = ((session.rewrite table t).1,
        ((session.rewrite table t).2.context, session.ownedCalls table t)) := by
  obtain ⟨result, left, -⟩ := session.rewrite_owned table t
  rw [show (session.context, []) = session.unwritten.context from rfl, ← rewrite_eager, result,
    left.context]
  rfl

/-- **The first failure ends a rewrite.**  Take a rewrite that fails, and callbacks that do the same
wherever the first ones do not fail.  Then the calls of the rewrite are the first ones of the
rewrite by those callbacks.  The last of them is the one that failed, its error is the error of the
rewrite, and the context that it left is the one that is left; no other call failed. -/
theorem rewrite_stops (session after : Session σ) (table table' : Table σ ε) (t : Tree) (e : ε)
    (agree : table.ContinuedBy table') (h : session.rewrite table t = (.error e, after)) :
    session.ownedCalls table t <+: session.ownedCalls table' t ∧
    ∃ earlier last, session.ownedCalls table t = earlier ++ [last] ∧
      table.answer? last = some (.error e, after.context) ∧
      ∀ owned ∈ earlier, ∃ answer c, table.answer? owned = some (.ok answer, c) := by
  have run := session.eval_owned table t
  rw [h] at run
  constructor
  · have outruns := Eager.eval_related Action.Outruns.congruence t
      (agree.owned (fun path _ _ => Action.Outruns.hooks path) [])
    rcases outruns.agree (session.context, []) with same | ⟨e', c, failed, goes⟩
    · rw [run, eval_owned] at same
      exact (Prod.mk.inj (Prod.mk.inj same).2).2 ▸ List.prefix_rfl
    · rw [run] at failed
      obtain ⟨-, rfl⟩ := Prod.mk.inj failed
      rw [eval_owned] at goes
      exact goes
  · have explained := table.accounts_eval t (session.context, []) nofun
    rw [run] at explained
    obtain ⟨earlier, last, calls, answered, failed⟩ := explained
    exact ⟨earlier, last, calls, failed, answered⟩

/-- Counts the nodes of kind 1 on the way down and on the way up; what is done at the nodes of
kind 2 below them is left open. -/
def guarding (visit : Tree → Action Nat String Rewrite) : Table Nat String :=
  .mk [.mk ⟨1⟩ "" (.matched
    { visit? := some fun _ c => (.ok .unchanged, c + 1)
      leave? := some fun _ c => (.ok .unchanged, c + 1) }
    (.mk [.mk ⟨2⟩ "" (.matched { visit? := some visit } .empty)] []))] []

theorem guarding_continuedBy :
    (guarding fun _ _ => (.error "two", 7)).ContinuedBy
      (guarding fun _ => return .replaced (.leaf ⟨3⟩)) := by
  have self (x : Action Nat String Rewrite) : x.ContinuedBy x := fun _ _ _ => id
  have failing : Action.ContinuedBy (fun _ => (.error "two", 7) : Action Nat String Rewrite)
      (return .replaced (.leaf ⟨3⟩)) := fun _ _ _ => nofun
  refine .cons ⟨.none, .some fun _ => self _, .some fun _ => self _⟩ ?_ .nil
  exact .cons ⟨.none, .some fun _ => failing, .none⟩ .nil .nil

/-- A node over two nodes that are alike. -/
def twins : Tree := ⟨⟨1⟩, [], [.leaf ⟨2⟩, .leaf ⟨2⟩]⟩

theorem rewrite_stops_guarding :
    (guarding fun _ _ => (.error "two", 7)).ContinuedBy
      (guarding fun _ => return .replaced (.leaf ⟨3⟩)) ∧
    ({ context := 0 } : Session Nat).rewrite (guarding fun _ _ => (.error "two", 7)) twins
      = (.error "two", { context := 7, stats := { visited := 2, matched := 2 } }) ∧
    [⟨[⟨1⟩], ⟨.visit, twins, 0⟩⟩, ⟨[⟨1⟩, ⟨2⟩], ⟨.visit, .leaf ⟨2⟩, 1⟩⟩]
      <+: ({ context := 0 } : Session Nat).ownedCalls
          (guarding fun _ => return .replaced (.leaf ⟨3⟩)) twins :=
  ⟨guarding_continuedBy, rfl,
    (rewrite_stops { context := 0 } { context := 7, stats := { visited := 2, matched := 2 } } _ _
      twins "two" guarding_continuedBy rfl).1⟩

end Session

end TreeRewrite
