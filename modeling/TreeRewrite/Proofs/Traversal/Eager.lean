import TreeRewrite.Proofs.Pattern.Paths
import TreeRewrite.Proofs.Traversal.Recorder

/-!
# The walk without its bookkeeping

A walk tells nodes that changed from nodes that did not, and makes a list of children only where one
of them changed.  None of this can be seen from outside: the plain interpreter in this file builds
every node anew from whatever became of its children, and it ends with the same tree or the same
error, and with the same context.

## What is here

* `Eager.eval` — the plain interpreter; a rule is asked by `Eager.accepts` and `Eager.visit`, and
  `Eager.settle` has the last word on a matched node.  What becomes of such a node is `Eager.apply`.
* `Action.Congruence` — a relation between computations that is kept when they are put together;
  `Eager.eval_related` says that what callbacks have in common, rewrites by them have.
* `Observed.action` — an observed walk as a computation on the context alone.
* `Eager.eval_eq` — the interpreter is the observed walk, with `Rewrite.resolve` taken at the end.
* `Session.rewrite_eager` — a rewrite in a session does what the interpreter does.
* `Table.rewriteWith_eq`, `Table.rewrite_eq` — a rewrite from a context, by the interpreter.
-/

set_option autoImplicit false

namespace TreeRewrite

variable {σ ε σ' ε' α β : Type}

/-! ## The plain interpreter -/

namespace Eager

/-- Is the rule for a node applied?  Without a filter it is. -/
def accepts (rule : Rule σ ε) (t : Tree) : Action σ ε Bool :=
  match rule.hooks.filter? with
  | none => return true
  | some filter => filter t

/-- What `visit` says about a node. -/
def visit (rule : Rule σ ε) (t : Tree) : Action σ ε Rewrite :=
  match rule.hooks.visit? with
  | none => return .unchanged
  | some visit => visit t

/-- The result at a matched node: `leave` decides on the rebuilt node; without a `leave` it is what
`visit` put in its place. -/
def settle (rule : Rule σ ε) (visited : Rewrite) (rebuilt : Tree) : Action σ ε Tree :=
  match rule.hooks.leave? with
  | none => return visited.resolve rebuilt
  | some leave => return (← leave rebuilt).resolve rebuilt

mutual

/-- Evaluates a tree under the table in force at its root. -/
def eval : Tree → Table σ ε → Action σ ε Tree
  | ⟨kind, attrs, children⟩, table => do
    let t : Tree := ⟨kind, attrs, children⟩
    match table.find? kind with
    | none => return t.rebuilt (← evalAll children table)
    | some entry =>
      if ← accepts entry.rule t then
        let visited ← visit entry.rule t
        let children' ← evalAll children entry.rule.table
        settle entry.rule visited (t.rebuilt children')
      else
        return t.rebuilt (← evalAll children table)

/-- Evaluates trees one by one under the same table. -/
def evalAll : List Tree → Table σ ε → Action σ ε (List Tree)
  | [], _ => return []
  | t :: rest, table => do
    let head ← eval t table
    let tail ← evalAll rest table
    return head :: tail

end

/-- What becomes of a node to which a rule is applied. -/
def apply (rule : Rule σ ε) (t : Tree) : Action σ ε Tree := do
  let visited ← visit rule t
  let children' ← evalAll t.children rule.table
  settle rule visited (t.rebuilt children')

theorem eval_eq_apply (kind : Kind) (attrs : Fields) (children : List Tree) (table : Table σ ε) :
    eval ⟨kind, attrs, children⟩ table
      = match table.find? kind with
        | none => do return Tree.rebuilt ⟨kind, attrs, children⟩ (← evalAll children table)
        | some entry => do
          if ← accepts entry.rule ⟨kind, attrs, children⟩ then
            apply entry.rule ⟨kind, attrs, children⟩
          else return Tree.rebuilt ⟨kind, attrs, children⟩ (← evalAll children table) := by
  rw [eval]
  rfl

theorem bind_apply (x : Action σ ε α) (next : α → Action σ ε β) (c : σ) :
    (x >>= next) c = ExceptT.bindCont next (x c).1 (x c).2 := rfl

/-- Where one part gives a result, the next one goes on from the context that is left. -/
theorem bind_of_ok {x : Action σ ε α} {a : α} {c c' : σ} (h : x c = (.ok a, c'))
    (next : α → Action σ ε β) : (x >>= next) c = next a c' := by
  rw [bind_apply, h]
  rfl

/-- Where one part fails, all that comes after it is left out. -/
theorem bind_of_error {x : Action σ ε α} {e : ε} {c c' : σ} (h : x c = (.error e, c'))
    (next : α → Action σ ε β) : (x >>= next) c = (.error e, c') := by
  rw [bind_apply, h]
  rfl

/-- Where parts succeed one after the other, both do. -/
theorem of_bind_eq_ok {x : Action σ ε α} {next : α → Action σ ε β} {b : β} {c c' : σ}
    (h : (x >>= next) c = (.ok b, c')) :
    ∃ a between, x c = (.ok a, between) ∧ next a between = (.ok b, c') := by
  rcases run : x c with ⟨e | a, between⟩
  · rw [bind_of_error run] at h
    cases h
  · rw [bind_of_ok run] at h
    exact ⟨a, between, rfl, h⟩

/-- Of parts that fail one after the other, the first fails or the second does after it. -/
theorem of_bind_eq_error {x : Action σ ε α} {next : α → Action σ ε β} {e : ε} {c c' : σ}
    (h : (x >>= next) c = (.error e, c')) :
    x c = (.error e, c') ∨
      ∃ a between, x c = (.ok a, between) ∧ next a between = (.error e, c') := by
  rcases run : x c with ⟨a | a, between⟩
  · rw [bind_of_error run] at h
    cases h
    exact .inl rfl
  · rw [bind_of_ok run] at h
    exact .inr ⟨a, between, rfl, h⟩

end Eager

/-! ## Computations in a relation -/

/-- A relation between computations on two contexts that equal results are in, and that holds of
computations that are put together from parts in the relation. -/
structure Action.Congruence
    (R : ∀ {α : Type}, Action σ ε α → Action σ' ε' α → Prop) : Prop where
  pure : ∀ {α : Type} (a : α), R (pure a : Action σ ε α) (pure a)
  bind : ∀ {α β : Type} {x : Action σ ε α} {y : Action σ' ε' α} {next : α → Action σ ε β}
    {next' : α → Action σ' ε' β}, R x y → (∀ a, R (next a) (next' a)) → R (x >>= next) (y >>= next')

/-- Both have the same callbacks, and on every node these are in the relation. -/
structure Hooks.Related (R : ∀ {α : Type}, Action σ ε α → Action σ' ε' α → Prop)
    (h : Hooks σ ε) (h' : Hooks σ' ε') : Prop where
  filter : Option.Rel (fun filter filter' => ∀ t, R (filter t) (filter' t)) h.filter? h'.filter?
  visit : Option.Rel (fun visit visit' => ∀ t, R (visit t) (visit' t)) h.visit? h'.visit?
  leave : Option.Rel (fun leave leave' => ∀ t, R (leave t) (leave' t)) h.leave? h'.leave?

namespace Eager

variable {R : ∀ {α : Type}, Action σ ε α → Action σ' ε' α → Prop} (hR : Action.Congruence R)
  {rule : Rule σ ε} {rule' : Rule σ' ε'}

include hR

theorem accepts_related (h : rule.hooks.Related R rule'.hooks) (t : Tree) :
    R (accepts rule t) (accepts rule' t) := by
  rw [accepts, accepts]
  have filters := h.filter
  generalize rule.hooks.filter? = filter?, rule'.hooks.filter? = filter?' at filters ⊢
  cases filters with
  | none => exact hR.pure true
  | some related => exact related t

theorem visit_related (h : rule.hooks.Related R rule'.hooks) (t : Tree) :
    R (visit rule t) (visit rule' t) := by
  rw [visit, visit]
  have visits := h.visit
  generalize rule.hooks.visit? = visit?, rule'.hooks.visit? = visit?' at visits ⊢
  cases visits with
  | none => exact hR.pure Rewrite.unchanged
  | some related => exact related t

theorem settle_related (h : rule.hooks.Related R rule'.hooks) (visited : Rewrite)
    (rebuilt : Tree) : R (settle rule visited rebuilt) (settle rule' visited rebuilt) := by
  rw [settle, settle]
  have leaves := h.leave
  generalize rule.hooks.leave? = leave?, rule'.hooks.leave? = leave?' at leaves ⊢
  cases leaves with
  | none => exact hR.pure _
  | some related => exact hR.bind (related rebuilt) fun verdict => hR.pure _

mutual

/-- **What callbacks have in common, rewrites have**: a relation that is kept when computations are
put together holds of rewrites of any tree, by tables with related callbacks. -/
theorem eval_related : ∀ (t : Tree) {table : Table σ ε} {table' : Table σ' ε'},
    table.Corresponds (fun _ => True) (Hooks.Related R) table' → R (eval t table) (eval t table')
  | ⟨kind, attrs, children⟩, table, table', h => by
    have entries := Table.corresponds_iff.mp h kind trivial
    have passed : R
        (do return Tree.rebuilt ⟨kind, attrs, children⟩ (← evalAll children table))
        (do return Tree.rebuilt ⟨kind, attrs, children⟩ (← evalAll children table')) :=
      hR.bind (evalAll_related children h) fun children' => hR.pure _
    rw [eval, eval]
    generalize table.find? kind = found, table'.find? kind = found' at entries ⊢
    cases entries with
    | none => exact passed
    | some related =>
      obtain ⟨hooks, below⟩ := related
      refine hR.bind (accepts_related hR hooks _) fun accepted => ?_
      cases accepted with
      | false => exact passed
      | true =>
        refine hR.bind (visit_related hR hooks _) fun visited => ?_
        refine hR.bind (evalAll_related children below) fun children' => ?_
        exact settle_related hR hooks visited _

theorem evalAll_related : ∀ (ts : List Tree) {table : Table σ ε} {table' : Table σ' ε'},
    table.Corresponds (fun _ => True) (Hooks.Related R) table' →
      R (evalAll ts table) (evalAll ts table')
  | [], _, _, _ => hR.pure []
  | t :: rest, _, _, h => by
    rw [evalAll, evalAll]
    refine hR.bind (eval_related t h) fun head => ?_
    exact hR.bind (evalAll_related rest h) fun tail => hR.pure _

end

end Eager

/-! ## Observed walks as computations on the context -/

namespace Observed

/-- Forgets what happened. -/
def action (o : Observed σ ε α) : Action σ ε α := fun c => ((o c).result, (o c).context)

@[simp] theorem action_pure (a : α) : (pure a : Observed σ ε α).action = pure a := rfl

@[simp] theorem action_bind (o : Observed σ ε α) (next : α → Observed σ ε β) :
    (o >>= next).action = o.action >>= fun a => (next a).action := by
  funext c
  show (o.bind next).action c = _
  simp only [action, Observed.bind, bind, ExceptT.bind, ExceptT.mk, StateT.bind]
  rcases o c with ⟨e | a, c', events⟩ <;> rfl

@[simp] theorem action_note (deed : Deed σ) :
    (note deed : Observed σ ε Unit).action = pure () := rfl

@[simp] theorem action_call (slot : Slot) (callback : Tree → Action σ ε α) (t : Tree) :
    (call slot callback t).action = callback t := rfl

@[simp] theorem action_inside (index : Nat) (o : Observed σ ε α) :
    (inside index o).action = o.action := rfl

theorem map_action_apply (f : α → β) (o : Observed σ ε α) (c : σ) :
    (f <$> o.action) c = ((o c).result.map f, (o c).context) := by
  simp only [Functor.map, ExceptT.map, ExceptT.mk, StateT.bind, action, bind]
  cases (o c).result <;> rfl

end Observed

/-! ## The bookkeeping resolved -/

theorem Tree.rebuilt_children (t : Tree) : t.rebuilt t.children = t := by cases t; rfl

/-- Where no child changed, building the node anew gives the node that was there. -/
theorem Walk.rebuild_resolve (t : Tree) (children : Option (List Tree)) :
    (Walk.rebuild t children).resolve t = t.rebuilt (children.getD t.children) := by
  cases children with
  | none => exact t.rebuilt_children.symm
  | some children => rfl

/-- A list of children that starts late is filled up with the children that were there. -/
theorem Walk.consChildren_getD (t : Tree) (rest : List Tree) (head : Rewrite)
    (tail : Option (List Tree)) :
    (Walk.consChildren t rest head tail).getD (t :: rest) = head.resolve t :: tail.getD rest := by
  cases head <;> cases tail <;> rfl

namespace Eager

theorem admitted_action (table : Table σ ε) (t : Tree) :
    (Observed.admitted table t).action
      = match table.find? t.kind with
        | none => pure none
        | some entry => do
          if ← accepts entry.rule t then return some entry.rule else return none := by
  rw [Observed.admitted, Observed.action_bind, Observed.action_note, pure_bind]
  cases table.find? t.kind with
  | none => rfl
  | some entry =>
    simp only [accepts]
    cases hf : entry.rule.hooks.filter? with
    | none => rfl
    | some filter =>
      simp only [Observed.action_bind, Observed.action_call]
      congr 1
      funext accepted
      cases accepted <;> rfl

theorem visit_action (rule : Rule σ ε) (t : Tree) :
    (Observed.visit rule t).action = visit rule t := by
  rw [Observed.visit, visit]
  cases rule.hooks.visit? <;> rfl

theorem leave_action (rule : Rule σ ε) (t : Tree) (visited : Rewrite)
    (children : Option (List Tree)) :
    (·.resolve t) <$> (Observed.leave rule t visited (Walk.rebuild t children)).action
      = settle rule visited (t.rebuilt (children.getD t.children)) := by
  rw [Observed.leave, settle, ← Walk.rebuild_resolve]
  cases rule.hooks.leave? with
  | none => cases visited <;> rfl
  | some leave =>
    simp only [Observed.action_bind, Observed.action_call, map_bind]
    congr 1
    funext verdict
    cases verdict <;> rfl

mutual

/-- **The interpreter is the observed walk, resolved.** -/
theorem eval_eq : ∀ (t : Tree) (table : Table σ ε),
    eval t table = (·.resolve t) <$> (Observed.examine t table).action
  | ⟨kind, attrs, children⟩, table => by
    rw [Observed.examine, eval, Observed.action_bind, admitted_action]
    cases table.find? kind with
    | none =>
      rw [evalAll_eq children table 0]
      simp [Walk.rebuild_resolve]
    | some entry =>
      simp only [map_bind, bind_assoc]
      congr 1
      funext accepted
      cases accepted with
      | false =>
        rw [evalAll_eq children table 0]
        simp [Walk.rebuild_resolve]
      | true =>
        rw [evalAll_eq children entry.rule.table 0]
        simp [visit_action, leave_action]

/-- Children are resolved to themselves where none changed. -/
theorem evalAll_eq : ∀ (ts : List Tree) (table : Table σ ε) (index : Nat),
    evalAll ts table = (·.getD ts) <$> (Observed.examineAll ts table index).action
  | [], _, _ => rfl
  | t :: rest, table, index => by
    rw [Observed.examineAll, evalAll, eval_eq t, evalAll_eq rest table (index + 1)]
    simp [Walk.consChildren_getD]

end

end Eager

/-! ## A rewrite in a session -/

/-- **The bookkeeping cannot be seen**: from any session, under any table, a rewrite gives the tree
or the error of the plain interpreter, and leaves its context. -/
theorem Session.rewrite_eager (session : Session σ) (table : Table σ ε) (t : Tree) :
    ((session.rewrite table t).1, (session.rewrite table t).2.context)
      = Eager.eval t table session.context := by
  rw [session.rewrite_eq, Eager.eval_eq, Observed.map_action_apply, Session.transcript]

theorem Table.rewriteWith_eq (table : Table σ ε) (context : σ) (t : Tree) :
    table.rewriteWith context t
      = (Eager.eval t table context).1.map (·, (Eager.eval t table context).2) := by
  rw [Table.rewriteWith, Session.rewrite_eq, Eager.eval_eq, Observed.map_action_apply,
    Session.transcript]
  cases (Observed.examine t table context).result <;> rfl

theorem Table.rewrite_eq (table : Table σ ε) (fresh : σ) (t : Tree) :
    table.rewrite fresh t = (Eager.eval t table fresh).1 := by
  rw [Table.rewrite, Table.rewriteWith_eq]
  cases (Eager.eval t table fresh).1 <;> rfl

end TreeRewrite
