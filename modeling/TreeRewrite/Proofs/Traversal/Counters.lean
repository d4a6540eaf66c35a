import TreeRewrite.Proofs.Traversal.Recorder

/-!
# The counters account for every node once

A walk that comes to its end looks up every node of its tree once, whatever callbacks return, and a
walk that fails looks up some of them.  At a node that is looked up a rule is applied or declined at
most once, and a replacement takes effect only where a rule is applied.  So the counters of a
session bound each other, and a session of many rewrites is nothing but their sum.

## What is here

* `Stats.Ordered` — the inequalities between counters, which are kept by addition.
* `Transcript.Accounts` — what the counters of a run have to do with a number of nodes;
  `Observed.examine_accounts` proves it of the walk of a tree, for the number of its nodes.
* `Session.afterAll` — the session after any number of rewrites, some of which may have failed.
* `Session.rewrite_counts` — what a rewrite adds to the counters of such a session.
-/

set_option autoImplicit false

namespace TreeRewrite

variable {σ ε α β : Type}

/-! ## Counters in order -/

namespace Stats

/-- A rule is applied or declined only at a node that was looked up, and a replacement takes effect
only where a rule is applied. -/
structure Ordered (s : Stats) : Prop where
  lookedUp : s.matched + s.rejected ≤ s.visited
  applied : s.replaced ≤ s.matched

theorem Ordered.add {s s' : Stats} (h : s.Ordered) (h' : s'.Ordered) : (s + s').Ordered where
  lookedUp := by
    have := Nat.add_le_add h.lookedUp h'.lookedUp
    simp only [matched_add, rejected_add, visited_add]
    omega
  applied := Nat.add_le_add h.applied h'.applied

theorem ordered_zero : (0 : Stats).Ordered := ⟨Nat.le_refl 0, Nat.le_refl 0⟩

end Stats

theorem ordered_append {events later : List (Event σ)} (h : (tally events).Ordered)
    (h' : (tally later).Ordered) : (tally (events ++ later)).Ordered := by
  rw [tally_append]
  exact h.add h'

/-! ## The counters of a walk -/

/-- The counters of a run are in order and account for `n` nodes: no node is looked up twice, and
all are looked up if the run does not fail. -/
structure Transcript.Accounts (n : Nat) (run : Transcript σ ε α) : Prop where
  ordered : (tally run.events).Ordered
  atMost : (tally run.events).visited ≤ n
  all : ∀ a, run.result = .ok a → (tally run.events).visited = n

namespace Transcript

theorem accounts_nil (result : Except ε α) (c : σ) : Accounts 0 ⟨result, c, []⟩ :=
  ⟨Stats.ordered_zero, Nat.le_refl 0, fun _ _ => rfl⟩

/-- A run that failed may have left nodes out. -/
theorem Accounts.failed {m n : Nat} {e : ε} {c : σ} {events : List (Event σ)}
    (h : Accounts m (⟨.error e, c, events⟩ : Transcript σ ε α)) (hmn : m ≤ n) :
    Accounts n (⟨.error e, c, events⟩ : Transcript σ ε β) :=
  ⟨h.ordered, Nat.le_trans h.atMost hmn, nofun⟩

theorem Accounts.after {k n : Nat} {run : Transcript σ ε α} (h : run.Accounts n)
    {earlier : List (Event σ)} (ordered : (tally earlier).Ordered)
    (hk : (tally earlier).visited + n = k) : (run.after earlier).Accounts k where
  ordered := ordered_append ordered h.ordered
  atMost := by
    rw [events_after, tally_append, Stats.visited_add, ← hk]
    exact Nat.add_le_add_left h.atMost _
  all a ha := by
    rw [events_after, tally_append, Stats.visited_add, h.all a ha, hk]

end Transcript

namespace Observed

theorem admitted_tally (table : Table σ ε) (t : Tree) :
    (admitted table t).Ensures fun run =>
      (tally run.events).Ordered ∧ (tally run.events).visited = 1 ∧
        ∀ rule, run.result = .ok (some rule) →
          (tally run.events).replaced < (tally run.events).matched := by
  intro c
  rw [admitted_apply]
  repeat' split
  all_goals refine ⟨⟨?_, ?_⟩, ?_, ?_⟩ <;> simp [Deed.stats]

theorem visit_tally (rule : Rule σ ε) (t : Tree) :
    (visit rule t).Ensures fun run => tally run.events = 0 := by
  intro c
  rw [visit_apply]
  split <;> rfl

theorem leave_tally (rule : Rule σ ε) (t : Tree) (visited below : Rewrite) :
    (leave rule t visited below).Ensures fun run =>
      (tally run.events).visited = 0 ∧ (tally run.events).matched = 0 ∧
        (tally run.events).rejected = 0 ∧ (tally run.events).replaced ≤ 1 := by
  intro c
  rw [leave_apply]
  repeat' split
  all_goals simp [Deed.stats]

/-- A rule that was applied leaves room for one more replacement. -/
theorem leave_accounts (rule : Rule σ ε) (t : Tree) (visited below : Rewrite)
    {earlier : List (Event σ)} (ordered : (tally earlier).Ordered)
    (room : (tally earlier).replaced < (tally earlier).matched) :
    (leave rule t visited below).Ensures fun run =>
      (run.after earlier).Accounts (tally earlier).visited := by
  refine (leave_tally rule t visited below).mono ?_
  rintro run ⟨visited0, matched0, rejected0, replaced1⟩
  have same : (tally (run.after earlier).events).visited = (tally earlier).visited := by
    rw [Transcript.events_after, tally_append, Stats.visited_add, visited0, Nat.add_zero]
  refine ⟨⟨?_, ?_⟩, Nat.le_of_eq same, fun _ _ => same⟩
  · rw [same, Transcript.events_after, tally_append, Stats.matched_add, Stats.rejected_add,
      matched0, rejected0]
    exact ordered.lookedUp
  · rw [Transcript.events_after, tally_append, Stats.matched_add, Stats.replaced_add, matched0]
    omega

mutual

/-- **A walk accounts for every node of its tree.** -/
theorem examine_accounts : ∀ (t : Tree) (table : Table σ ε),
    (examine t table).Ensures (·.Accounts t.count)
  | ⟨kind, attrs, children⟩, table => by
    rw [examine, Tree.count]
    refine (admitted_tally table _).bind ?_ ?_
    · rintro e c own ⟨ordered, own1, -⟩
      exact ⟨ordered, by rw [own1]; exact Nat.le_add_right 1 _, nofun⟩
    · rintro rule? c own ⟨ordered, own1, room⟩
      cases rule? with
      | none =>
        refine (examineAll_accounts children table 0).bind ?_ ?_
        · intro e c kids hkids
          exact (hkids.failed (Nat.le_refl _)).after ordered (by rw [own1])
        · intro children' c kids hkids
          refine ensures_pure fun c => ?_
          refine Transcript.Accounts.after ?_ ordered (by rw [own1])
          exact (Transcript.accounts_nil _ c).after hkids.ordered (hkids.all _ rfl)
      | some rule =>
        refine (visit_tally rule _).bind ?_ ?_
        · intro e c calls calls0
          refine Transcript.Accounts.after ?_ ordered (by rw [own1])
          exact ⟨calls0 ▸ Stats.ordered_zero, calls0 ▸ Nat.zero_le _, nofun⟩
        · intro visited c calls calls0
          dsimp only at calls0
          have called : (tally calls).Ordered := calls0 ▸ Stats.ordered_zero
          refine (examineAll_accounts children rule.table 0).bind ?_ ?_
          · intro e c kids hkids
            refine Transcript.Accounts.after ?_ ordered (by rw [own1])
            exact (hkids.failed (Nat.le_refl _)).after called (by rw [calls0]; exact Nat.zero_add _)
          · intro children' c kids hkids
            have kids' : (tally kids).visited = Tree.countAll children := hkids.all _ rfl
            have applied : (tally kids).replaced ≤ (tally kids).matched := hkids.ordered.applied
            -- what `leave` may count is weighed against the application of the rule itself
            have room' : (tally (own ++ (calls ++ kids))).replaced
                < (tally (own ++ (calls ++ kids))).matched := by
              rw [tally_append, tally_append, calls0, Stats.zero_add]
              exact Nat.add_lt_add_of_lt_of_le (room rule rfl) applied
            have visited' : (tally (own ++ (calls ++ kids))).visited
                = 1 + Tree.countAll children := by
              rw [tally_append, tally_append, calls0, Stats.zero_add, Stats.visited_add, own1,
                kids']
            refine (leave_accounts rule _ visited _
              (ordered_append ordered (ordered_append called hkids.ordered)) room').mono ?_
            intro run h
            rw [visited', Transcript.after_append, Transcript.after_append] at h
            exact h

theorem examineAll_accounts : ∀ (ts : List Tree) (table : Table σ ε) (index : Nat),
    (examineAll ts table index).Ensures (·.Accounts (Tree.countAll ts))
  | [], _, _ => ensures_pure fun c => Transcript.accounts_nil _ c
  | t :: rest, table, index => by
    rw [examineAll, Tree.countAll]
    have head : (inside index (examine t table)).Ensures (·.Accounts t.count) := by
      refine ensures_inside (examine_accounts t table) ?_
      rintro r c events ⟨ordered, atMost, all⟩
      constructor <;> rw [tally_inside] <;> assumption
    refine head.bind ?_ ?_
    · intro e c first hfirst
      exact hfirst.failed (Nat.le_add_right _ _)
    · intro result c first hfirst
      have first' : (tally first).visited = t.count := hfirst.all _ rfl
      refine (examineAll_accounts rest table (index + 1)).bind ?_ ?_
      · intro e c later hlater
        exact (hlater.failed (Nat.le_refl _)).after hfirst.ordered (by rw [first'])
      · intro results c later hlater
        refine ensures_pure fun c => ?_
        refine Transcript.Accounts.after ?_ hfirst.ordered (by rw [first'])
        exact (Transcript.accounts_nil _ c).after hlater.ordered (hlater.all _ rfl)

end

theorem examine_looksUp (t : Tree) (table : Table σ ε) :
    (examine t table).Ensures fun run => 1 ≤ (tally run.events).visited := by
  obtain ⟨kind, attrs, children⟩ := t
  rw [examine]
  refine (admitted_tally table _).bind (fun e c own h => Nat.le_of_eq h.2.1.symm) ?_
  intro rule? c own h c'
  simp only [Transcript.events_after, tally_append, Stats.visited_add, h.2.1]
  exact Nat.le_add_right 1 _

end Observed

/-! ## Sessions of many rewrites -/

namespace Session

/-- The session after rewrites of trees, one after the other; a failure does not end it. -/
def afterAll (session : Session σ) (table : Table σ ε) : List Tree → Session σ
  | [] => session
  | t :: rest => (session.rewrite table t).2.afterAll table rest

theorem transcript_accounts (session : Session σ) (table : Table σ ε) (t : Tree) :
    (session.transcript table t).Accounts t.count :=
  Observed.examine_accounts t table session.context

theorem ordered_rewrite {session : Session σ} (h : session.stats.Ordered) (table : Table σ ε)
    (t : Tree) : (session.rewrite table t).2.stats.Ordered := by
  rw [rewrite_eq]
  exact h.add (session.transcript_accounts table t).ordered

theorem ordered_afterAll {session : Session σ} (h : session.stats.Ordered) (table : Table σ ε)
    (ts : List Tree) : (session.afterAll table ts).stats.Ordered := by
  induction ts generalizing session with
  | nil => exact h
  | cons t rest ih => exact ih (ordered_rewrite h table t)

/-- A rewrite does not see the counters it starts from, and adds the same to all of them. -/
theorem rewrite_shift (session : Session σ) (table : Table σ ε) (t : Tree) (stats : Stats) :
    ({ session with stats } : Session σ).rewrite table t
      = ((session.rewrite table t).1,
        { context := (session.rewrite table t).2.context
          stats := stats + tally (session.transcript table t).events }) := by
  rw [rewrite_eq, rewrite_eq]
  rfl

/-- **The counters account for every node once.**  After any rewrites in a session, one more raises
the number of nodes looked up by the size of its tree if it succeeds, and by at least one and at
most that size if it fails.  The counters are in order after it, and all it does is independent of
those before it. -/
theorem rewrite_counts (table : Table σ ε) (context : σ) (earlier : List Tree) (t : Tree) :
    let before := ({ context } : Session σ).afterAll table earlier
    let result := (before.rewrite table t).1
    let after := (before.rewrite table t).2
    (match result with
      | .ok _ => after.stats.visited = before.stats.visited + t.count
      | .error _ =>
        before.stats.visited + 1 ≤ after.stats.visited ∧
          after.stats.visited ≤ before.stats.visited + t.count) ∧
    after.stats.matched + after.stats.rejected ≤ after.stats.visited ∧
    after.stats.replaced ≤ after.stats.matched ∧
    ∃ added : Stats, ∀ stats : Stats, ({ before with stats } : Session σ).rewrite table t
      = (result, { after with stats := stats + added }) := by
  intro before result after
  have ordered : after.stats.Ordered :=
    ordered_rewrite (ordered_afterAll Stats.ordered_zero table earlier) table t
  refine ⟨?_, ordered.lookedUp, ordered.applied, _, before.rewrite_shift table t⟩
  obtain ⟨-, atMost, all⟩ := before.transcript_accounts table t
  have pos := Observed.examine_looksUp t table before.context
  simp only [result, after, rewrite_eq, Stats.visited_add]
  cases hr : (before.transcript table t).result with
  | error e => exact ⟨Nat.add_le_add_left pos _, Nat.add_le_add_left atMost _⟩
  | ok r => exact congrArg _ (all r hr)

end Session

end TreeRewrite
