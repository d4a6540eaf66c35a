import TreeRewrite.Proofs.Traversal.Changes
import TreeRewrite.Proofs.Traversal.Targets

/-!
# Walks that replace nothing

A rewrite that gives back the tree it was given may still have replaced a node by one that looks the
same.  This file is about walks that do not: they report that nothing changed, and they leave the
context as they found it.

## What is here

* `Walk.Keeps c x a` — from the context `c`, the part `x` of a walk gives `a` and comes back to `c`.
* `Walk.examine_keeps_of_passed`, `Walk.examine_keeps_of_applied` — a walk changes nothing at a node
  if it changes nothing below it and, where a rule is applied, neither do the callbacks.
* `Table.Targets.keeps` — a walk changes nothing if it changes nothing at the outermost targets.
* `Session.rewrite_of_keeps` — such a walk gives the tree back, with no replacement counted.
-/

set_option autoImplicit false

namespace TreeRewrite

variable {σ ε α β : Type} {c : σ}

namespace Walk

/-- From the context, whatever the counters, the part gives the result and comes back to the
context. -/
def Keeps (c : σ) (x : Walk σ ε α) (a : α) : Prop :=
  ∀ stats, ∃ stats', x { context := c, stats } = (.ok a, { context := c, stats := stats' })

theorem keeps_pure (a : α) : Keeps c (pure a : Walk σ ε α) a := fun stats => ⟨stats, rfl⟩

theorem keeps_tally (f : Stats → Stats) : Keeps c (tally f : Walk σ ε Unit) () :=
  fun stats => ⟨f stats, rfl⟩

theorem keeps_call {action : Action σ ε α} {a : α} (h : action c = (.ok a, c)) :
    Keeps c (call action) a := fun stats => ⟨stats, by rw [call, h]⟩

theorem Keeps.bind {x : Walk σ ε α} {next : α → Walk σ ε β} {a : α} {b : β} (h : Keeps c x a)
    (hnext : Keeps c (next a) b) : Keeps c (x >>= next) b := by
  intro stats
  obtain ⟨stats', hx⟩ := h stats
  obtain ⟨stats'', hb⟩ := hnext stats'
  exact ⟨stats'', by rw [bind_of_ok hx, hb]⟩

variable {table : Table σ ε} {t : Tree}

/-! ## Nodes -/

theorem admitted_keeps_of_none (h : table.find? t.kind = none) :
    Keeps c (admitted table t) none := by
  rw [admitted, h]
  exact (keeps_tally _).bind (keeps_pure none)

theorem admitted_keeps_of_some {entry : Entry σ ε} (h : table.find? t.kind = some entry) {b : Bool}
    (accepts : Eager.accepts entry.rule t c = (.ok b, c)) :
    Keeps c (admitted table t) (if b then some entry.rule else none) := by
  rw [Eager.accepts] at accepts
  rw [admitted, h]
  refine (keeps_tally _).bind ?_
  dsimp only
  cases hf : entry.rule.hooks.filter? with
  | none =>
    rw [hf] at accepts
    obtain rfl : true = b := Except.ok.inj (Prod.mk.inj accepts).1
    exact (keeps_pure true).bind ((keeps_tally _).bind (keeps_pure _))
  | some filter =>
    rw [hf] at accepts
    refine (keeps_call accepts).bind ?_
    cases b with
    | true => exact (keeps_tally _).bind (keeps_pure _)
    | false => exact (keeps_tally _).bind (keeps_pure _)

theorem examineAll_keeps {ts : List Tree}
    (h : ∀ t ∈ ts, Keeps c (examine t table) .unchanged) : Keeps c (examineAll ts table) none := by
  induction ts with
  | nil => exact keeps_pure none
  | cons t rest ih =>
    obtain ⟨here, later⟩ := List.forall_mem_cons.mp h
    rw [examineAll]
    exact here.bind ((ih later).bind (keeps_pure none))

/-- Where no rule is applied to a node, nothing changes if nothing changes below it. -/
theorem examine_keeps_of_passed (h : Keeps c (admitted table t) none)
    (below : ∀ child ∈ t.children, Keeps c (examine child table) .unchanged) :
    Keeps c (examine t table) .unchanged := by
  obtain ⟨kind, attrs, children⟩ := t
  rw [examine]
  exact h.bind ((examineAll_keeps below).bind (keeps_pure _))

/-- Where a rule is applied to a node, its callbacks must not change anything either. -/
theorem examine_keeps_of_applied {rule : Rule σ ε} (h : Keeps c (admitted table t) (some rule))
    (visited : Keeps c (visit rule t) .unchanged)
    (below : ∀ child ∈ t.children, Keeps c (examine child rule.table) .unchanged)
    (left : Keeps c (leave rule t .unchanged .unchanged) .unchanged) :
    Keeps c (examine t table) .unchanged := by
  obtain ⟨kind, attrs, children⟩ := t
  rw [examine]
  exact h.bind (visited.bind ((examineAll_keeps below).bind left))

end Walk

/-! ## Trees -/

theorem Table.Targets.keeps {p : Tree → Bool} {change : Tree → Action σ ε Tree} {table : Table σ ε}
    (h : table.Targets p change) {t : Tree}
    (kept : ∀ s ∈ t.outermost p, Walk.Keeps c (Walk.examine s table) .unchanged) :
    Walk.Keeps c (Walk.examine t table) .unchanged := by
  induction t using Tree.induction with
  | node t ih =>
    cases hp : p t with
    | true =>
      rw [Tree.outermost_of_pos hp] at kept
      exact kept t List.mem_cons_self
    | false =>
      rw [Tree.outermost_of_neg hp] at kept
      refine Walk.examine_keeps_of_passed ?_ fun child hc => ih child hc fun s hs =>
        kept s (List.mem_flatMap.mpr ⟨child, hc, hs⟩)
      -- the node has no entry, or its entry declines it
      have here := h t
      rw [Table.TargetsAt] at here
      cases hf : table.find? t.kind with
      | none => exact Walk.admitted_keeps_of_none hf
      | some entry =>
        simp only [hf, hp] at here
        exact Walk.admitted_keeps_of_some (b := false) hf (congrFun here.1 c)

/-- **A walk that keeps everything** gives the tree back, and no replacement is counted. -/
theorem Session.rewrite_of_keeps {table : Table σ ε} {t : Tree}
    (h : Walk.Keeps c (Walk.examine t table) .unchanged) :
    ∃ session, ({ context := c } : Session σ).rewrite table t = (.ok t, session) ∧
      session.stats.replaced = 0 := by
  obtain ⟨stats, examined⟩ := h {}
  refine ⟨_, by rw [rewrite, examined]; rfl, ?_⟩
  have counted := replaced_iff examined
  simpa [Rewrite.isReplaced] using counted

end TreeRewrite
