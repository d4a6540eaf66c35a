import TreeRewrite.Proofs.Traversal.Recorder

/-!
# Two walks side by side

Under two tables the same tree is walked twice, and callbacks of the one do what those of the other
do, seen through a `view` of their contexts.  Entries of the first table may be missing in the
second if their filters let no node through and leave nothing behind that the view shows.  Then the
walks cannot be told apart, but for the nodes that a filter declined.

Tables are infinitely deep for an induction on trees, so what they have in common is said by a
relation that holds on to itself: wherever it holds of two tables, lookups find entries that agree,
and it holds again of the tables below them.

## What is here

* `Session.Alike` — sessions that agree through a view.
* `Walk.Simulates` — parts of two walks that take such sessions to such sessions, with results that
  agree; `Walk.Simulates.bind` puts parts together.
* `Table.Simulation` — a relation between tables that holds on to itself.
* `Walk.examine_simulates` — walks under related tables; `Session.rewrite_simulates` — rewrites.
-/

set_option autoImplicit false

namespace TreeRewrite

variable {σ τ ε α α' β β' : Type}

/-! ## Results and sessions that agree -/

/-- Both fail in the same way, or both give results in the relation. -/
inductive Agree (P : α → β → Prop) : Except ε α → Except ε β → Prop
  | ok {a : α} {b : β} (h : P a b) : Agree P (.ok a) (.ok b)
  | error (e : ε) : Agree P (.error e) (.error e)

theorem Agree.eq {x y : Except ε α} (h : Agree Eq x y) : x = y := by
  cases h with
  | ok h => rw [h]
  | error => rfl

/-- The counters, but for the nodes that were declined. -/
def Stats.withoutRejected (s : Stats) : Stats := { s with rejected := 0 }

theorem Stats.withoutRejected_eq_iff {s s' : Stats} :
    s'.withoutRejected = s.withoutRejected
      ↔ s'.visited = s.visited ∧ s'.matched = s.matched ∧ s'.replaced = s.replaced := by
  simp [withoutRejected]

/-- The context of the second session is what the view shows of the first one, and the counters are
the same but for the nodes that were declined. -/
structure Session.Alike (view : τ → σ) (s : Session τ) (s' : Session σ) : Prop where
  context : s'.context = view s.context
  stats : s'.stats.withoutRejected = s.stats.withoutRejected

namespace Walk

variable {view : τ → σ}

/-- Parts of two walks that take sessions that agree to sessions that agree. -/
def Simulates (view : τ → σ) (P : α → β → Prop) (x : Walk τ ε α) (y : Walk σ ε β) : Prop :=
  ∀ s s', s.Alike view s' → Agree P (x s).1 (y s').1 ∧ (x s).2.Alike view (y s').2

theorem simulates_pure {P : α → β → Prop} {a : α} {b : β} (h : P a b) :
    Simulates view P (pure a : Walk τ ε α) (pure b) := fun _ _ alike => ⟨.ok h, alike⟩

theorem bind_apply (x : Walk σ ε α) (next : α → Walk σ ε β) (s : Session σ) :
    (x >>= next) s = ExceptT.bindCont next (x s).1 (x s).2 := rfl

theorem Simulates.bind {P : α → α' → Prop} {Q : β → β' → Prop} {x : Walk τ ε α}
    {y : Walk σ ε α'} {next : α → Walk τ ε β} {next' : α' → Walk σ ε β'}
    (first : Simulates view P x y)
    (second : ∀ a a', P a a' → Simulates view Q (next a) (next' a')) :
    Simulates view Q (x >>= next) (y >>= next') := by
  intro s s' alike
  obtain ⟨agree, left⟩ := first s s' alike
  rw [bind_apply, bind_apply]
  cases hx : (x s).1 <;> cases hy : (y s').1 <;> rw [hx, hy] at agree <;> cases agree
  · exact ⟨.error _, left⟩
  · next h => exact second _ _ h _ _ left

theorem simulates_tally {f : Stats → Stats}
    (h : ∀ s s' : Stats, s'.withoutRejected = s.withoutRejected →
      (f s').withoutRejected = (f s).withoutRejected) :
    Simulates view Eq (tally f : Walk τ ε Unit) (tally f) := fun s s' alike =>
  ⟨.ok rfl, alike.context, h s.stats s'.stats alike.stats⟩

/-- What is counted in both walks is counted alike. -/
theorem simulates_count {f : Stats → Stats}
    (h : ∀ s s' : Stats, s'.withoutRejected = s.withoutRejected →
      (f s').withoutRejected = (f s).withoutRejected) {P : α → β → Prop} {a : α} {b : β}
    (hab : P a b) :
    Simulates view P (do tally f; return a : Walk τ ε α) (do tally f; return b) :=
  (simulates_tally h).bind fun _ _ _ => simulates_pure hab

end Walk

/-! ## Callbacks that agree -/

/-- The second callback does what the first one does, as the view shows it. -/
def Action.Seen (view : τ → σ) (action : Action τ ε α) (action' : Action σ ε α) : Prop :=
  ∀ x, action' (view x) = ((action x).1, view (action x).2)

/-- Both rules have the same callbacks, and these agree. -/
structure Hooks.Seen (view : τ → σ) (h : Hooks τ ε) (h' : Hooks σ ε) : Prop where
  filter : Option.Rel (fun f f' => ∀ t, Action.Seen view (f t) (f' t)) h.filter? h'.filter?
  visit : Option.Rel (fun f f' => ∀ t, Action.Seen view (f t) (f' t)) h.visit? h'.visit?
  leave : Option.Rel (fun f f' => ∀ t, Action.Seen view (f t) (f' t)) h.leave? h'.leave?

/-- There is a filter, it declines every node without failing, and the view shows no change. -/
def Hooks.Shut (view : τ → σ) (h : Hooks τ ε) : Prop :=
  ∃ filter, h.filter? = some filter ∧
    ∀ t x, (filter t x).1 = .ok false ∧ view (filter t x).2 = view x

/-- Rules with callbacks that agree, over related tables. -/
structure Rule.Alike (view : τ → σ) (R : Table τ ε → Table σ ε → Prop) (rule : Rule τ ε)
    (rule' : Rule σ ε) : Prop where
  hooks : rule.hooks.Seen view rule'.hooks
  below : R rule.table rule'.table

/-- What lookups find in related tables. -/
inductive Entry.Alike (view : τ → σ) (R : Table τ ε → Table σ ε → Prop) :
    Option (Entry τ ε) → Option (Entry σ ε) → Prop
  /-- Neither has an entry. -/
  | absent : Alike view R none none
  /-- Both have an entry. -/
  | kept {entry : Entry τ ε} {entry' : Entry σ ε} (h : entry.rule.Alike view R entry'.rule) :
      Alike view R (some entry) (some entry')
  /-- An entry that lets no node through is missing. -/
  | missing {entry : Entry τ ε} (h : entry.rule.hooks.Shut view) :
      Alike view R (some entry) none

/-- A relation between tables that holds on to itself. -/
def Table.Simulation (view : τ → σ) (R : Table τ ε → Table σ ε → Prop) : Prop :=
  ∀ table table', R table table' → ∀ kind,
    Entry.Alike view R (table.find? kind) (table'.find? kind)

/-! ## Walks under related tables -/

namespace Walk

variable {view : τ → σ} {R : Table τ ε → Table σ ε → Prop}

theorem call_apply (action : Action σ ε α) (s : Session σ) :
    call action s = ((action s.context).1, { s with context := (action s.context).2 }) := rfl

theorem simulates_call {action : Action τ ε α} {action' : Action σ ε α}
    (h : Action.Seen view action action') :
    Simulates view Eq (call action : Walk τ ε α) (call action') := by
  intro s s' alike
  rw [call_apply, call_apply, alike.context, h s.context]
  refine ⟨?_, rfl, alike.stats⟩
  cases (action s.context).1 with
  | ok a => exact .ok rfl
  | error e => exact .error e

/-- What a lookup and the filter of its entry say about a node. -/
theorem admitted_eq (table : Table σ ε) (t : Tree) :
    admitted table t = (do
      tally fun s => { s with visited := s.visited + 1 }
      match table.find? t.kind with
      | none => return none
      | some entry => do
        let accepted ← entry.rule.hooks.filter?.elim (pure true) fun filter => call (filter t)
        if accepted then
          tally fun s => { s with matched := s.matched + 1 }
          return some entry.rule
        else
          tally fun s => { s with rejected := s.rejected + 1 }
          return none) := by
  rw [admitted]
  congr 1
  funext _
  cases table.find? t.kind with
  | none => rfl
  | some entry =>
    simp only
    cases entry.rule.hooks.filter? <;> rfl

/-- Where a filter declines a node and the view shows no change, there might as well be no entry. -/
theorem simulates_shut {rule : Rule τ ε} (h : rule.hooks.Shut view) (t : Tree)
    {P : Option (Rule τ ε) → Option (Rule σ ε) → Prop} (hP : P none none) :
    Simulates view P
      (do
        let accepted ← rule.hooks.filter?.elim (pure true) fun filter => call (filter t)
        if accepted then
          tally fun s => { s with matched := s.matched + 1 }
          return some rule
        else
          tally fun s => { s with rejected := s.rejected + 1 }
          return none)
      (pure none) := by
  intro s s' alike
  obtain ⟨filter, hf, shut⟩ := h
  obtain ⟨declined, unseen⟩ := shut t s.context
  rw [hf, Option.elim_some, bind_apply, call_apply, declined]
  exact ⟨.ok hP, alike.context.trans unseen.symm, alike.stats⟩

theorem admitted_simulates (h : Table.Simulation view R) {table : Table τ ε} {table' : Table σ ε}
    (related : R table table') (t : Tree) :
    Simulates view (Option.Rel (Rule.Alike view R)) (admitted table t) (admitted table' t) := by
  rw [admitted_eq, admitted_eq]
  refine (simulates_tally fun s s' hs => ?_).bind fun _ _ _ => ?_
  · simpa [Stats.withoutRejected_eq_iff] using hs
  generalize hfound : table.find? t.kind = found, hfound' : table'.find? t.kind = found'
  cases hfound ▸ hfound' ▸ h table table' related t.kind with
  | absent => exact simulates_pure .none
  | missing shut => exact simulates_shut shut t .none
  | @kept entry entry' alike =>
    refine Simulates.bind (P := Eq) ?_ ?_
    · have hooks := alike.hooks.filter
      cases hv : entry.rule.hooks.filter? <;> cases hv' : entry'.rule.hooks.filter? <;>
        rw [hv, hv'] at hooks <;> cases hooks
      · exact simulates_pure rfl
      · next h => exact simulates_call (h t)
    · rintro accepted _ rfl
      cases accepted with
      | true => exact simulates_count (by simp [Stats.withoutRejected_eq_iff]) (.some alike)
      | false => exact simulates_count (by simp [Stats.withoutRejected_eq_iff]) .none

theorem visit_simulates {rule : Rule τ ε} {rule' : Rule σ ε} (h : rule.Alike view R rule')
    (t : Tree) : Simulates view Eq (visit rule t) (visit rule' t) := by
  rw [visit, visit]
  have hooks := h.hooks.visit
  cases hv : rule.hooks.visit? <;> cases hv' : rule'.hooks.visit? <;>
    rw [hv, hv'] at hooks <;> cases hooks
  · exact simulates_pure rfl
  · next h => exact simulates_call (h t)

theorem leave_simulates {rule : Rule τ ε} {rule' : Rule σ ε} (h : rule.Alike view R rule')
    (t : Tree) (visited below : Rewrite) :
    Simulates view Eq (leave rule t visited below) (leave rule' t visited below) := by
  rw [leave, leave]
  have kept : Simulates view Eq (pure below : Walk τ ε Rewrite) (pure below : Walk σ ε Rewrite) :=
    simulates_pure rfl
  have replaced (t' : Tree) : Simulates view Eq
      (do tallyReplaced; return .replaced t' : Walk τ ε Rewrite)
      (do tallyReplaced; return .replaced t' : Walk σ ε Rewrite) :=
    simulates_count (by simp [Stats.withoutRejected_eq_iff]) rfl
  have hooks := h.hooks.leave
  cases hv : rule.hooks.leave? <;> cases hv' : rule'.hooks.leave? <;>
    rw [hv, hv'] at hooks <;> cases hooks
  · cases visited with
    | unchanged => exact kept
    | replaced t' => exact replaced t'
  · next h =>
    refine (simulates_call (h _)).bind ?_
    rintro verdict _ rfl
    cases verdict with
    | unchanged => exact kept
    | replaced t' => exact replaced t'

mutual

/-- **Walks under related tables cannot be told apart.** -/
theorem examine_simulates (h : Table.Simulation view R) : ∀ (t : Tree) (table : Table τ ε)
    (table' : Table σ ε), R table table' → Simulates view Eq (examine t table) (examine t table')
  | ⟨kind, attrs, children⟩, table, table', related => by
    rw [examine, examine]
    refine (admitted_simulates h related _).bind ?_
    rintro _ _ (alike | _)
    · refine (visit_simulates alike _).bind ?_
      rintro visited _ rfl
      refine (examineAll_simulates h children _ _ alike.below).bind ?_
      rintro children' _ rfl
      exact leave_simulates alike _ visited _
    · refine (examineAll_simulates h children table table' related).bind ?_
      rintro children' _ rfl
      exact simulates_pure rfl

theorem examineAll_simulates (h : Table.Simulation view R) : ∀ (ts : List Tree)
    (table : Table τ ε) (table' : Table σ ε), R table table' →
      Simulates view Eq (examineAll ts table) (examineAll ts table')
  | [], _, _, _ => simulates_pure rfl
  | t :: rest, table, table', related => by
    rw [examineAll, examineAll]
    refine (examine_simulates h t table table' related).bind ?_
    rintro head _ rfl
    refine (examineAll_simulates h rest table table' related).bind ?_
    rintro tail _ rfl
    exact simulates_pure rfl

end

end Walk
/-! ## Rewrites in sessions -/

/-- **Rewrites under related tables cannot be told apart**, but for the nodes that were declined. -/
theorem Session.rewrite_simulates {view : τ → σ} {R : Table τ ε → Table σ ε → Prop}
    (h : Table.Simulation view R) {table : Table τ ε} {table' : Table σ ε}
    (related : R table table') {session : Session τ} {session' : Session σ}
    (alike : session.Alike view session') (t : Tree) :
    (session'.rewrite table' t).1 = (session.rewrite table t).1 ∧
      (session.rewrite table t).2.Alike view (session'.rewrite table' t).2 := by
  obtain ⟨agree, left⟩ := Walk.examine_simulates h t table table' related session session' alike
  rw [rewrite, rewrite]
  rcases hx : Walk.examine t table session with ⟨result, s⟩
  rcases hy : Walk.examine t table' session' with ⟨result', s'⟩
  rw [hx, hy] at agree left
  cases agree with
  | ok hr => exact ⟨by rw [hr], left⟩
  | error e => exact ⟨rfl, left⟩

end TreeRewrite
