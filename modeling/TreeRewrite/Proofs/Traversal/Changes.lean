import TreeRewrite.Proofs.Traversal.Recorder

/-!
# A change is reported exactly where one was counted

A rewrite of a tree is `unchanged` or `replaced`, and what a parent makes of its children's rewrites
depends on which of the two they are.  The counter of replacements is kept by the side, for the
whole session.  This file proves that the two agree, for the tree and for every tree in it: between
the start and the end of the walk of a tree the counter moves exactly if the walk gives `replaced`.

Both directions are carried by the same induction.  Its only case of interest is `leave`: either the
result is that of the children and nothing is counted, or it is `replaced` and counted.

## What is here

* `Observed.examine_replaces` — the result of a walk against the replacements among its events.
* `Walk.Overridden` — at the root `visit` gives a replacement, and `leave` gives none.
* `Session.examine_changes` — the agreement, in a session and at every position of the tree.
-/

set_option autoImplicit false

namespace TreeRewrite

variable {σ ε α β : Type}

/-! ## The result and the events -/

theorem Walk.isReplaced_rebuild (t : Tree) (children : Option (List Tree)) :
    (Walk.rebuild t children).isReplaced = children.isSome := by
  cases children <;> rfl

theorem Walk.isSome_consChildren (t : Tree) (rest : List Tree) (head : Rewrite)
    (tail : Option (List Tree)) :
    (Walk.consChildren t rest head tail).isSome = (head.isReplaced || tail.isSome) := by
  cases head <;> cases tail <;> rfl

namespace Observed

theorem admitted_replaces (table : Table σ ε) (t : Tree) :
    (admitted table t).Ensures fun run => (tally run.events).replaced = 0 := by
  intro c
  rw [admitted_apply]
  repeat' split
  all_goals simp [Deed.stats]

theorem visit_replaces (rule : Rule σ ε) (t : Tree) :
    (visit rule t).Ensures fun run => (tally run.events).replaced = 0 := by
  intro c
  rw [visit_apply]
  split <;> rfl

/-- Either the children's rewrite is passed on, or a replacement is counted and reported. -/
theorem leave_replaces (rule : Rule σ ε) (t : Tree) (visited below : Rewrite) :
    (leave rule t visited below).Ensures fun run => ∀ r, run.result = .ok r →
      r = below ∧ (tally run.events).replaced = 0 ∨
        r.isReplaced = true ∧ (tally run.events).replaced ≠ 0 := by
  intro c
  rw [leave_apply]
  repeat' split
  all_goals simp [Deed.stats, Rewrite.isReplaced]

mutual

/-- **A walk gives `replaced` exactly if a replacement took effect in it.** -/
theorem examine_replaces : ∀ (t : Tree) (table : Table σ ε),
    (examine t table).Ensures fun run => ∀ r, run.result = .ok r →
      (r.isReplaced = true ↔ (tally run.events).replaced ≠ 0)
  | ⟨kind, attrs, children⟩, table => by
    rw [examine]
    refine (admitted_replaces table _).bind (fun e c own _ => nofun) ?_
    intro rule? c own own0
    cases rule? with
    | none =>
      refine (examineAll_replaces children table 0).bind (fun e c kids _ => nofun) ?_
      intro children' c kids changed c'
      rintro r ⟨⟩
      simp [Walk.isReplaced_rebuild, changed, own0]
    | some rule =>
      refine (visit_replaces rule _).bind (fun e c calls _ => nofun) ?_
      intro visited c calls calls0
      refine (examineAll_replaces children rule.table 0).bind (fun e c kids _ => nofun) ?_
      intro children' c kids changed
      refine (leave_replaces rule _ visited _).mono ?_
      intro run settled r hr
      -- a replacement outweighs whatever was counted before, so `replaced` is right in any case
      rcases settled r hr with ⟨rfl, none⟩ | ⟨replaced, some⟩
      · simp [Walk.isReplaced_rebuild, changed, own0, calls0, none]
      · simp [replaced, some]

theorem examineAll_replaces : ∀ (ts : List Tree) (table : Table σ ε) (index : Nat),
    (examineAll ts table index).Ensures fun run => ∀ children, run.result = .ok children →
      (children.isSome = true ↔ (tally run.events).replaced ≠ 0)
  | [], _, _ => ensures_pure fun c => by
    rintro children ⟨⟩
    simp
  | t :: rest, table, index => by
    rw [examineAll]
    have head : (inside index (examine t table)).Ensures fun run => ∀ r, run.result = .ok r →
        (r.isReplaced = true ↔ (tally run.events).replaced ≠ 0) := by
      refine ensures_inside (examine_replaces t table) fun r c events changed => ?_
      rw [tally_inside]
      exact changed
    refine head.bind (fun e c first _ => nofun) ?_
    intro result c first changed
    refine (examineAll_replaces rest table (index + 1)).bind (fun e c later _ => nofun) ?_
    intro results c later changed' c'
    rintro children ⟨⟩
    rw [Walk.isSome_consChildren, Bool.or_eq_true, changed result rfl, changed' results rfl]
    simp only [Transcript.after, pure_apply, tally_append, tally_nil, Stats.replaced_add,
      Stats.add_zero]
    omega

end

end Observed

/-! ## The result and the counter -/

namespace Walk

/-- A part that comes to its end is followed by the next. -/
theorem bind_of_ok {x : Walk σ ε α} {next : α → Walk σ ε β} {session session' : Session σ} {a : α}
    (h : x session = (.ok a, session')) : (x >>= next) session = next a session' := by
  show ExceptT.bindCont next (x session).1 (x session).2 = _
  rw [h]
  rfl

theorem snd_map (f : α → β) (x : Walk σ ε α) (session : Session σ) :
    ((f <$> x) session).2 = (x session).2 := by
  simp only [Functor.map, ExceptT.map, ExceptT.mk, StateT.bind, bind]
  rcases x session with ⟨_ | _, session'⟩ <;> rfl

theorem replaced_admitted (table : Table σ ε) (t : Tree) (session : Session σ) :
    (admitted table t session).2.stats.replaced = session.stats.replaced := by
  have none := Observed.admitted_replaces table t session.context
  rw [← Recorder.table_none table, Recorder.walk_admitted, snd_map]
  exact congrArg (session.stats.replaced + ·) none

theorem stats_visit (rule : Rule σ ε) (t : Tree) (session : Session σ) :
    (visit rule t session).2.stats = session.stats := by
  rw [visit]
  cases rule.hooks.visit? <;> rfl

/-- At the root of the tree a rule is applied, its `visit` gives a replacement, and its `leave` says
that nothing changed; in between, from the session `start` to the session `stop`, the children are
rewritten to `children`. -/
def Overridden (t : Tree) (table : Table σ ε) (session start stop : Session σ)
    (children : Option (List Tree)) : Prop :=
  ∃ (rule : Rule σ ε) (leave : Tree → Action σ ε Rewrite) (matched : Session σ) (t' : Tree) (c : σ),
    admitted table t session = (.ok (some rule), matched) ∧
    visit rule t matched = (.ok (.replaced t'), start) ∧
    examineAll t.children rule.table start = (.ok children, stop) ∧
    rule.hooks.leave? = some leave ∧
    leave ((rebuild t children).resolve t) stop.context = (.ok .unchanged, c)

/-- The replacement that `visit` gave is dropped: what is reported and counted is the children's. -/
theorem Overridden.examine_eq {t : Tree} {table : Table σ ε} {session start stop : Session σ}
    {children : Option (List Tree)} (h : Overridden t table session start stop children) :
    ∃ c, examine t table session = (.ok (rebuild t children), { stop with context := c }) ∧
      start.stats.replaced = session.stats.replaced := by
  obtain ⟨rule, leave, matched, t', c, hadmitted, hvisit, hall, hleave, hunchanged⟩ := h
  refine ⟨c, ?_, ?_⟩
  · obtain ⟨kind, attrs, ts⟩ := t
    rw [examine, bind_of_ok hadmitted]
    dsimp only
    rw [bind_of_ok hvisit, bind_of_ok hall, Walk.leave, hleave]
    have hcall : call (leave ((rebuild ⟨kind, attrs, ts⟩ children).resolve ⟨kind, attrs, ts⟩)) stop
        = (.ok .unchanged, { stop with context := c }) := by
      rw [call, hunchanged]
    exact bind_of_ok hcall
  · have h₁ := replaced_admitted table t session
    have h₂ := stats_visit rule t matched
    rw [hadmitted] at h₁
    rw [hvisit] at h₂
    exact (congrArg Stats.replaced h₂).trans h₁

end Walk

namespace Session

theorem replaced_iff {session after : Session σ} {table : Table σ ε} {t : Tree} {r : Rewrite}
    (h : Walk.examine t table session = (.ok r, after)) :
    r.isReplaced = true ↔ after.stats.replaced ≠ session.stats.replaced := by
  rw [examine_eq] at h
  obtain ⟨hr, rfl⟩ := Prod.mk.inj h
  rw [Observed.examine_replaces t table session.context r hr, Stats.replaced_add, transcript]
  omega

/-- **A change is reported exactly where one was counted.**  A walk that comes to its end gives
`unchanged` exactly if the counter of replacements stands where it stood, and then the rewrite is
the tree itself.  The same holds of the walk of every tree in it, which begins with the counters
that the events before it have left, and a replacement of `visit` that `leave` overrides is neither
counted nor reported. -/
theorem examine_changes (session after : Session σ) (table : Table σ ε) (t : Tree) (r : Rewrite)
    (h : Walk.examine t table session = (.ok r, after)) :
    (r = .unchanged ↔ after.stats.replaced = session.stats.replaced) ∧
    (r = .unchanged → session.rewrite table t = (.ok t, after)) ∧
    (∀ (position : List Nat) (s : Tree), t.at? position = some s →
      ∃ (table' : Table σ ε) (start stop : Session σ) (r' : Rewrite)
          (before later : List (Event σ)),
        (session.transcript table t).events
          = before ++ (start.transcript table' s).events.map (·.under position) ++ later ∧
        start.stats = session.stats + tally before ∧
        Walk.examine s table' start = (.ok r', stop) ∧
        (r'.isReplaced = true ↔ stop.stats.replaced ≠ start.stats.replaced)) ∧
    (∀ (start stop : Session σ) (children : Option (List Tree)),
      Walk.Overridden t table session start stop children →
        r = Walk.rebuild t children ∧
        after.stats.replaced = stop.stats.replaced ∧
        start.stats.replaced = session.stats.replaced) := by
  have transcribed := h
  rw [examine_eq] at transcribed
  obtain ⟨hr, -⟩ := Prod.mk.inj transcribed
  refine ⟨?_, ?_, ?_, ?_⟩
  · have changed := replaced_iff h
    cases r with
    | unchanged => simpa [Rewrite.isReplaced] using changed
    | replaced t' => simpa [Rewrite.isReplaced] using changed
  · rintro rfl
    rw [rewrite, h]
    rfl
  · intro position s hs
    obtain ⟨table', c', r', hr', before, later, events⟩ := Observed.examine_at hr hs
    let start : Session σ := { context := c', stats := session.stats + tally before }
    have examined := start.examine_eq table' s
    rw [show (start.transcript table' s).result = .ok r' from hr'] at examined
    exact ⟨table', start, _, r', before, later, events.symm, rfl, examined, replaced_iff examined⟩
  · intro start stop children overridden
    obtain ⟨c, heq, uncounted⟩ := overridden.examine_eq
    obtain ⟨hr, rfl⟩ := Prod.mk.inj (h.symm.trans heq)
    exact ⟨Except.ok.inj hr, rfl, uncounted⟩

/-- Replaces nodes of kind 2 below nodes of kind 1, whose own replacement is overridden. -/
def overriding : Table Unit Empty :=
  .mk [.mk ⟨1⟩ "" (.matched
    { visit? := some fun _ => return .replaced (.leaf ⟨4⟩)
      leave? := some fun _ => return .unchanged }
    (.mk [.mk ⟨2⟩ "" (.matched
      { leave? := some fun _ => return .replaced (.leaf ⟨3⟩) } .empty)] []))] []

theorem examine_changes_overriding :
    Walk.examine ⟨⟨1⟩, [], [.leaf ⟨2⟩]⟩ overriding { context := () }
      = (.ok (.replaced ⟨⟨1⟩, [], [.leaf ⟨3⟩]⟩),
        { context := (), stats := { visited := 2, matched := 2, replaced := 1 } }) ∧
    ((Rewrite.replaced ⟨⟨1⟩, [], [.leaf ⟨3⟩]⟩ : Rewrite) = .unchanged ↔ 1 = 0) :=
  ⟨rfl, (examine_changes { context := () }
    { context := (), stats := { visited := 2, matched := 2, replaced := 1 } } overriding
    ⟨⟨1⟩, [], [.leaf ⟨2⟩]⟩ _ rfl).1⟩

end Session

end TreeRewrite
