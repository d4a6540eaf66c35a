import TreeRewrite.Proofs.Traversal.Eager
import TreeRewrite.Proofs.Tree.Outermost

/-!
# Tables that change the outermost nodes with a property

Where the filters of a table decide by the node alone, whether a rule is applied to a node is a
property of the node, and a rewrite by the table is a change of the outermost nodes that have it.
What happens at such a node may be a rewrite by another table again.

## What is here

* `Table.Targets p change` — the table applies a rule to a node exactly if the node has the property
  `p`, and the rule does `change`.  A rewrite by it is `Tree.mapOutermostM p change`
  (`Eager.eval_targets`).
* `Action.Drains fresh` — an action that, from the context `fresh`, comes back to it unless it
  fails.
* `Action.record` — an action that changes the context unless there is a fault.
* `Action.Settles` — an action that, from a context, comes to a result and another context unless
  there is a fault.  What a table with such changes makes of a tree is said by
  `Table.Targets.rewrite_unlessFault`.
* `Table.Separates` — a table that goes from child to child with a fresh context, except at nodes of
  one kind; `Table.Targets.separates` says when a table does.
-/

set_option autoImplicit false

namespace TreeRewrite

variable {σ ε α β : Type}

/-! ## Tables with targets -/

/-- The table applies a rule to the node exactly if the node has the property, and the rule makes of
it what `change` does. -/
def Table.TargetsAt (table : Table σ ε) (p : Tree → Bool) (change : Tree → Action σ ε Tree)
    (t : Tree) : Prop :=
  match table.find? t.kind with
  | none => p t = false
  | some entry =>
    Eager.accepts entry.rule t = pure (p t) ∧ (p t = true → Eager.apply entry.rule t = change t)

/-- The same at every node. -/
def Table.Targets (table : Table σ ε) (p : Tree → Bool) (change : Tree → Action σ ε Tree) : Prop :=
  ∀ t, table.TargetsAt p change t

section

variable {p : Tree → Bool} {change : Tree → Action σ ε Tree} {t : Tree} {table : Table σ ε}

theorem Table.targetsAt_nil {ignored : List String} (h : p t = false) :
    (Table.mk [] ignored : Table σ ε).TargetsAt p change t := h

/-- The targets of a table that is written down entry by entry. -/
theorem Table.targetsAt_cons {kind : Kind} {label : String} {rule : Rule σ ε}
    {entries : List (Entry σ ε)} {ignored : List String}
    (here : t.kind = kind → Eager.accepts rule t = pure (p t) ∧
      (p t = true → Eager.apply rule t = change t))
    (later : t.kind ≠ kind → (Table.mk entries ignored).TargetsAt p change t) :
    (Table.mk (.mk kind label rule :: entries) ignored).TargetsAt p change t := by
  rw [Table.TargetsAt, Table.find?_cons]
  by_cases hk : kind = t.kind
  · rw [if_pos hk]
    exact here hk.symm
  · rw [if_neg hk]
    exact later fun h => hk h.symm

namespace Eager

theorem evalAll_eq_mapM (ts : List Tree) (table : Table σ ε) :
    evalAll ts table = ts.mapM (eval · table) := by
  induction ts with
  | nil => rfl
  | cons t rest ih => rw [evalAll, ih, List.mapM_cons]

/-- **A rewrite by a table with targets changes the outermost of them.** -/
theorem eval_targets (h : table.Targets p change) (t : Tree) :
    eval t table = t.mapOutermostM p change := by
  induction t using Tree.induction with
  | node t ih =>
    have kids : evalAll t.children table = t.children.mapM (Tree.mapOutermostM p change) := by
      rw [evalAll_eq_mapM]
      exact Tree.mapM_congr ih
    obtain ⟨kind, attrs, children⟩ := t
    have here := h ⟨kind, attrs, children⟩
    rw [Table.TargetsAt] at here
    rw [eval_eq_apply, Tree.mapOutermostM_eq, map_eq_pure_bind, ← kids]
    -- a node without an entry and a node that its filter rejects are treated alike
    cases hf : table.find? kind with
    | none =>
      simp only [hf] at here
      rw [here]
      rfl
    | some entry =>
      simp only [hf] at here
      obtain ⟨accepts, applies⟩ := here
      simp only [accepts, pure_bind]
      split
      · rename_i hp
        exact applies hp
      · rfl

theorem evalAll_targets (h : table.Targets p change) (ts : List Tree) :
    evalAll ts table = ts.mapM (Tree.mapOutermostM p change) := by
  rw [evalAll_eq_mapM]
  exact Tree.mapM_congr fun t _ => eval_targets h t

/-- The table without entries rewrites nothing. -/
theorem eval_empty (t : Tree) : eval t (.empty : Table σ ε) = pure t := by
  induction t using Tree.induction with
  | node t ih =>
    obtain ⟨kind, attrs, children⟩ := t
    rw [eval_eq_apply, evalAll_eq_mapM, Tree.mapM_eq_pure ih]
    rfl

/-! ### What rules make of a node -/

theorem apply_nested (h : table.Targets p change) (t : Tree) :
    apply (.nested table) t = t.rebuilt <$> t.children.mapM (Tree.mapOutermostM p change) := by
  rw [apply, Rule.table, evalAll_targets h, map_eq_pure_bind]
  rfl

/-- A rule with a `leave` and no `visit`. -/
theorem apply_leave {filter? : Option (Tree → Action σ ε Bool)}
    {leave : Tree → Action σ ε Rewrite} (h : table.Targets p change) (t : Tree) :
    apply (.matched { filter?, leave? := some leave } table) t = do
      let t' ← t.rebuilt <$> t.children.mapM (Tree.mapOutermostM p change)
      return (← leave t').resolve t' := by
  rw [apply, Rule.table, evalAll_targets h, bind_map_left]
  rfl

/-- A rule with a `visit` and no `leave`, and nothing below. -/
theorem apply_visit {filter? : Option (Tree → Action σ ε Bool)}
    {visit : Tree → Action σ ε Rewrite} (t : Tree) :
    apply (.matched { filter?, visit? := some visit } .empty) t
      = (·.resolve t) <$> visit t := by
  rw [apply, Rule.table, evalAll_eq_mapM, Tree.mapM_eq_pure fun child _ => eval_empty child,
    map_eq_pure_bind]
  simp only [pure_bind, Tree.rebuilt_children]
  rfl

end Eager

end

/-! ## Actions that come back to the context from which they started -/

/-- From the context `fresh`, the action comes back to it unless it fails. -/
def Action.Drains (fresh : σ) (x : Action σ ε α) : Prop := ∀ a c, x fresh = (.ok a, c) → c = fresh

namespace Action

variable {fresh : σ}

theorem drains_pure (a : α) : Drains fresh (pure a : Action σ ε α) := by
  rintro _ _ ⟨⟩
  rfl

theorem Drains.bind {x : Action σ ε α} {next : α → Action σ ε β} (h : Drains fresh x)
    (hnext : ∀ a, Drains fresh (next a)) : Drains fresh (x >>= next) := by
  intro b c hb
  rcases hx : x fresh with ⟨e | a, c'⟩
  · rw [Eager.bind_of_error hx] at hb
    cases hb
  · rw [Eager.bind_of_ok hx, h a c' hx] at hb
    exact hnext a b c hb

/-- What comes after an action that drains starts from the same context. -/
theorem Drains.fst_bind {x : Action σ ε α} {next : α → Action σ ε β} (h : Drains fresh x) :
    ((x >>= next) fresh).1 = (x fresh).1 >>= fun a => (next a fresh).1 := by
  rcases hx : x fresh with ⟨e | a, c'⟩
  · rw [Eager.bind_of_error hx]
    rfl
  · rw [Eager.bind_of_ok hx, h a c' hx]
    rfl

theorem Drains.mapM {step : α → Action σ ε β} {xs : List α} (h : ∀ x ∈ xs, Drains fresh (step x)) :
    Drains fresh (xs.mapM step) := by
  induction xs with
  | nil => exact drains_pure []
  | cons x rest ih =>
    obtain ⟨here, later⟩ := List.forall_mem_cons.mp h
    rw [List.mapM_cons]
    exact here.bind fun b => (ih later).bind fun bs => drains_pure _

theorem Drains.fst_mapM {step : α → Action σ ε β} {xs : List α}
    (h : ∀ x ∈ xs, Drains fresh (step x)) :
    ((xs.mapM step) fresh).1 = xs.mapM fun x => (step x fresh).1 := by
  induction xs with
  | nil => rfl
  | cons x rest ih =>
    obtain ⟨here, later⟩ := List.forall_mem_cons.mp h
    rw [List.mapM_cons, List.mapM_cons, here.fst_bind]
    congr 1
    funext b
    rw [(Drains.mapM later).fst_bind, ih later]
    rfl

variable {p : Tree → Bool} {change : Tree → Action σ ε Tree}

theorem drains_mapOutermostM (h : ∀ t, p t = true → Drains fresh (change t)) (t : Tree) :
    Drains fresh (t.mapOutermostM p change) := by
  induction t using Tree.induction with
  | node t ih =>
    cases hp : p t with
    | true =>
      rw [Tree.mapOutermostM_of_pos hp]
      exact h t hp
    | false =>
      rw [Tree.mapOutermostM_of_neg hp, map_eq_pure_bind]
      exact (Drains.mapM ih).bind fun _ => drains_pure _

/-- Changes that drain do not hear of each other. -/
theorem fst_mapOutermostM (h : ∀ t, p t = true → Drains fresh (change t)) (t : Tree) :
    (t.mapOutermostM p change fresh).1 = t.mapOutermostM p fun s => (change s fresh).1 := by
  induction t using Tree.induction with
  | node t ih =>
    cases hp : p t with
    | true => rw [Tree.mapOutermostM_of_pos hp, Tree.mapOutermostM_of_pos hp]
    | false =>
      have kids : Drains fresh (t.children.mapM (Tree.mapOutermostM p change)) :=
        Drains.mapM fun child _ => drains_mapOutermostM h child
      rw [Tree.mapOutermostM_of_neg hp, Tree.mapOutermostM_of_neg hp, map_eq_pure_bind,
        map_eq_pure_bind, kids.fst_bind,
        Drains.fst_mapM fun child _ => drains_mapOutermostM h child, Tree.mapM_congr ih]
      rfl

end Action

/-! ## Actions that record -/

namespace Action

/-- Fails if there is a fault, and else changes the context by `step`. -/
def record (fault? : β → Option ε) (step : σ → β → σ) (b : β) : Action σ ε Unit := fun c =>
  match fault? b with
  | none => (.ok (), step c b)
  | some e => (.error e, c)

variable {fault? : β → Option ε} {step : σ → β → σ} {bs : List β}

/-- Where nothing is at fault, everything is recorded. -/
theorem forM_record_of_none (h : bs.findSome? fault? = none) (c : σ) :
    forM bs (record fault? step) c = (.ok (), bs.foldl step c) := by
  induction bs generalizing c with
  | nil => rfl
  | cons b rest ih =>
    obtain ⟨here, later⟩ := List.forall_mem_cons.mp (List.findSome?_eq_none_iff.mp h)
    have first : record fault? step b c = (.ok (), step c b) := by rw [record, here]
    rw [List.forM_cons, Eager.bind_of_ok first, ih (List.findSome?_eq_none_iff.mpr later)]
    rfl

/-- Otherwise the first fault counts. -/
theorem forM_record_of_some {e : ε} (h : bs.findSome? fault? = some e) (c : σ) :
    ∃ c', forM bs (record fault? step) c = (.error e, c') := by
  induction bs generalizing c with
  | nil => cases h
  | cons b rest ih =>
    rw [List.findSome?_cons] at h
    cases hb : fault? b with
    | none =>
      have first : record fault? step b c = (.ok (), step c b) := by rw [record, hb]
      rw [hb] at h
      rw [List.forM_cons, Eager.bind_of_ok first]
      exact ih h _
    | some e' =>
      have first : record fault? step b c = (.error e', c) := by rw [record, hb]
      rw [hb] at h
      cases h
      exact ⟨c, by rw [List.forM_cons, Eager.bind_of_error first]⟩

end Action

/-! ## Actions that settle -/

namespace Action

/-- From the context `before`, the action fails if there is a fault, and else it gives the result
and leaves the context `after` behind. -/
def Settles (before after : σ) (x : Action σ ε α) (fault? : Option ε) (result : α) : Prop :=
  ∃ c, x before = (Tree.unlessFault fault? result, c) ∧ (fault? = none → c = after)

variable {before after : σ} {x : Action σ ε α} {result : α}

theorem Settles.fst_eq {fault? : Option ε} (h : Settles before after x fault? result) :
    (x before).1 = Tree.unlessFault fault? result := by
  obtain ⟨c, hx, -⟩ := h
  rw [hx]

theorem Settles.drains {fault? : Option ε} (h : Settles before before x fault? result) :
    Drains before x := by
  obtain ⟨c, hx, emptied⟩ := h
  intro a c' ha
  rw [hx] at ha
  cases fault? with
  | none =>
    cases ha
    exact emptied rfl
  | some e => cases ha

/-- Where something is recorded first, what has been recorded is where the action goes on. -/
theorem Settles.after_record {fault? : β → Option ε} {step : σ → β → σ} {bs : List β}
    {later? : Option ε} (h : Settles (bs.foldl step before) after x later? result) :
    Settles before after (do forM bs (record fault? step); x) ((bs.findSome? fault?).or later?)
      result := by
  obtain ⟨c, hx, emptied⟩ := h
  cases hb : bs.findSome? fault? with
  | none =>
    refine ⟨c, ?_, emptied⟩
    rw [Eager.bind_of_ok (forM_record_of_none hb before)]
    exact hx
  | some e =>
    obtain ⟨c', failed⟩ := forM_record_of_some hb before
    exact ⟨c', Eager.bind_of_error failed _, nofun⟩

end Action

/-! ## Tables that go from child to child with a fresh context -/

/-- At every node but those of one kind, a rewrite from the fresh context goes from child to child,
each time from the fresh context; a child for which it fails is the last.  And a rewrite from the
fresh context comes back to it unless it fails. -/
structure Table.Separates (table : Table σ ε) (fresh : σ) (kind : Kind) : Prop where
  rebuilds : ∀ t : Tree, t.kind ≠ kind →
    table.rewrite fresh t = t.rebuilt <$> t.children.mapM (table.rewrite fresh)
  drains : ∀ t t' c, table.rewriteWith fresh t = .ok (t', c) → c = fresh

namespace Table.Targets

variable {p : Tree → Bool} {change : Tree → Action σ ε Tree} {table : Table σ ε} {fresh : σ}

theorem rewrite_eq (h : table.Targets p change)
    (drains : ∀ t, p t = true → Action.Drains fresh (change t)) (t : Tree) :
    table.rewrite fresh t = t.mapOutermostM p fun s => (change s fresh).1 := by
  rw [Table.rewrite_eq, Eager.eval_targets h, Action.fst_mapOutermostM drains]

/-- **A table whose changes settle** changes the outermost targets, unless there is a fault with one
of them. -/
theorem rewrite_unlessFault {fault? : Tree → Option ε} {f : Tree → Tree}
    (h : table.Targets p change)
    (settles : ∀ t, (change t).Settles fresh fresh (fault? t) (f t)) (t : Tree) :
    table.rewrite fresh t
      = Tree.unlessFault ((t.outermost p).findSome? fault?) (t.mapOutermost p f) := by
  rw [h.rewrite_eq fun s _ => (settles s).drains]
  simp only [fun s => (settles s).fst_eq]
  exact Tree.mapOutermostM_unlessFault t

/-- **A table separates** if all its targets are of one kind and what it does to them drains. -/
theorem separates (h : table.Targets p change)
    (drains : ∀ t, p t = true → Action.Drains fresh (change t)) {kind : Kind}
    (only : ∀ t, p t = true → t.kind = kind) : table.Separates fresh kind where
  rebuilds t hk := by
    have hp : p t = false := Bool.eq_false_iff.mpr fun hp => hk (only t hp)
    rw [h.rewrite_eq drains, Tree.mapOutermostM_of_neg hp]
    exact congrArg _ (Tree.mapM_congr fun child _ => (h.rewrite_eq drains child).symm)
  drains t t' c ht := by
    rw [Table.rewriteWith_eq, Eager.eval_targets h] at ht
    rcases hx : t.mapOutermostM p change fresh with ⟨e | t'', c''⟩
    · rw [hx] at ht
      cases ht
    · rw [hx] at ht
      cases ht
      exact Action.drains_mapOutermostM drains t _ _ hx

end Table.Targets

end TreeRewrite
