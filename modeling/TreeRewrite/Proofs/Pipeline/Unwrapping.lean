import TreeRewrite.Proofs.Pipeline.Feeds
import TreeRewrite.Proofs.Traversal.Eager
import TreeRewrite.Proofs.Tree.Bundles

/-!
# Pipelines that go on with the first tree

Fed with the first tree of a bundle, a pipeline does what one does that is fed with whole bundles
and unwraps them itself, by a pass of its own between any two of its passes.  What the last pass
makes is not unwrapped.

## What is here

* `Pipeline.unwrapped` — the tree that a bundle node stands for, and `Pipeline.unwrapping`, the pass
  that puts it in the place of the node.
* `Pipeline.runPasses_primary` — a run with such passes in between.
* `Pass.noting`, `Pipeline.noting` — passes that keep a record of the trees they receive, in a
  context which they do not read.  `Pipeline.Fed` says what is on record in the end.
* `Pipeline.primary_unwraps` — **bundles are unwrapped between passes and nowhere else.**
-/

set_option autoImplicit false

namespace TreeRewrite

variable {m : Type → Type} {ε : Type}

/-- The calls of passes, with the trees that they received. -/
abbrev Calls (ε : Type) : Type := List (Pass (Except ε) × Tree)

/-- The pass, with every call of it on record. -/
def Pass.noting (pass : Pass (Except ε)) : Pass (Action (Calls ε) ε) :=
  ⟨pass.name, fun t calls => (pass.run t, calls ++ [(pass, t)])⟩

namespace Pipeline

/-! ## Unwrapping -/

/-- The first tree that a bundle node holds; a bundle node that holds none stands for itself, and so
does a node that is no bundle. -/
def unwrapped (p : Pipeline m) (t : Tree) : Tree :=
  if p.isBundle t then t.held.head?.getD t else t

/-- The pass that unwraps. -/
def unwrapping [Monad m] (p : Pipeline m) : Pass m := ⟨"unwrap", fun t => return p.unwrapped t⟩

/-- Only a bundle that holds no tree of another kind is still a bundle when it is unwrapped. -/
theorem every_of_isBundle_unwrapped {p : Pipeline m} {t : Tree}
    (h : p.isBundle (p.unwrapped t) = true) :
    (p.unwrapped t).Every fun s => s.kind = (p.unwrapped t).kind := by
  rw [unwrapped] at h ⊢
  split at h
  · next bundle =>
    rw [if_pos bundle]
    cases first : t.held.head? with
    | none =>
      have empty : t.outermost (fun s => !s.is t.kind) = [] := by
        rw [Tree.outermost_of_neg (by simp [Tree.is]), ← Bundle.held_eq]
        exact List.head?_eq_none_iff.mp first
      intro position s hs
      simpa [Tree.is] using Tree.every_of_outermost_eq_nil empty position s hs
    | some u =>
      -- the first tree is of another kind than the bundle
      have held : u ∈ t.held := List.mem_of_head? first
      rw [Bundle.held_eq] at held
      have other := Tree.of_mem_outermostBelow held
      rw [first, Option.getD_some, isBundle, eq_of_beq bundle] at h
      simp [Tree.is, (Option.some.inj (eq_of_beq h)).symm] at other
  · next bundle => exact absurd h bundle

section

variable [Monad m] {p : Pipeline m} {rest : List (Pass m)} {t : Tree}

theorem goOn_primary (primary : p.feed = .primary) (left : rest ≠ []) :
    p.goOn rest t = p.runPasses rest (p.unwrapped t) := by
  have first : (Bundle.ofTree t).primary? = t.held.head? := by
    rw [Bundle.primary?, Bundle.ofTree_eq, Bundle.trees_ofTrees]
  rw [goOn, primary, unwrapped, ← first]
  by_cases bundle : p.isBundle t = true
  · rw [if_pos ⟨left, bundle⟩, if_pos bundle]
  · rw [if_neg fun h => bundle h.2, if_neg bundle]

/-- **A run unwraps between its passes.** -/
theorem runPasses_primary [LawfulMonad m] (primary : p.feed = .primary) (passes : List (Pass m)) :
    p.runPasses passes t = p.classify <$> Pass.chain (passes.intersperse p.unwrapping) t := by
  induction passes generalizing t with
  | nil => exact (map_pure _ _).symm
  | cons pass rest ih =>
    rw [runPasses_cons]
    cases rest with
    | nil =>
      rw [List.intersperse_singleton, Pass.chain_cons, map_bind]
      exact bind_congr fun t' => (goOn_of_neg (.inl rfl)).trans (map_pure _ _).symm
    | cons next rest =>
      rw [List.intersperse_cons_cons, Pass.chain_cons, map_bind]
      refine bind_congr fun t' => (goOn_primary primary (List.cons_ne_nil _ _)).trans ?_
      rw [ih, Pass.chain_cons]
      exact congrArg _ (pure_bind _ _).symm

end

/-! ## What the passes receive -/

/-- The pipeline, with every call of a pass on record. -/
def noting (p : Pipeline (Except ε)) : Pipeline (Action (Calls ε) ε) where
  passes := p.passes.map Pass.noting
  bundleKind? := p.bundleKind?
  feed := p.feed

/-- A run of the passes on the tree that came to the result by these calls: the first pass received
the tree as it is, and no other received a bundle node, unless it held nothing but bundle nodes.
What the last pass made is the result as it is. -/
structure Fed (p : Pipeline (Except ε)) (passes : List (Pass (Except ε))) (t : Tree)
    (result : Except ε Output) (calls : Calls ε) : Prop where
  inOrder : calls.map Prod.fst <+: passes
  first : calls.head? = passes.head?.map (·, t)
  unwrapped : ∀ call ∈ calls.tail, p.isBundle call.2 = true →
    call.2.Every fun s => s.kind = call.2.kind
  last : ∀ output, result = .ok output → calls.map Prod.fst = passes ∧
    ∀ call ∈ calls.getLast?, ∃ made, call.1.run call.2 = .ok made ∧ output = p.classify made

section

variable {p : Pipeline (Except ε)} {pass next : Pass (Except ε)} {rest : List (Pass (Except ε))}
  {t made : Tree}

theorem fed_nil : p.Fed [] t (.ok (p.classify t)) [] :=
  ⟨List.prefix_rfl, rfl, nofun, fun _ _ => ⟨rfl, nofun⟩⟩

theorem fed_of_error {e : ε} : p.Fed (pass :: rest) t (.error e) [(pass, t)] :=
  ⟨List.prefix_append _ _, rfl, nofun, nofun⟩

theorem fed_singleton (run : pass.run t = .ok made) :
    p.Fed [pass] t (.ok (p.classify made)) [(pass, t)] := by
  refine ⟨List.prefix_rfl, rfl, nofun, fun output h => ⟨rfl, fun call hc => ?_⟩⟩
  obtain rfl : (pass, t) = call := Option.some.inj hc
  exact ⟨made, run, (Except.ok.inj h).symm⟩

/-- The second pass receives the unwrapped tree. -/
theorem Fed.cons {result : Except ε Output} {calls : Calls ε}
    (h : p.Fed (next :: rest) (p.unwrapped made) result calls) :
    p.Fed (pass :: next :: rest) t result ((pass, t) :: calls) := by
  obtain ⟨later, rfl⟩ : ∃ later, calls = (next, p.unwrapped made) :: later := by
    cases calls with
    | nil => exact absurd h.first nofun
    | cons call later => exact ⟨later, by rw [Option.some.inj h.first]⟩
  refine ⟨(List.prefix_cons_inj pass).mpr h.inOrder, rfl, ?_, fun output ok => ?_⟩
  · exact List.forall_mem_cons.mpr ⟨every_of_isBundle_unwrapped, h.unwrapped⟩
  · obtain ⟨inOrder, last⟩ := h.last output ok
    refine ⟨congrArg (pass :: ·) inOrder, ?_⟩
    rw [List.getLast?_cons_cons]
    exact last

/-- The calls go behind those on record, and the result is that of the run without a record. -/
theorem runPasses_noting (primary : p.feed = .primary) (passes : List (Pass (Except ε))) (t : Tree)
    (before : Calls ε) : ∃ calls,
      p.noting.runPasses (passes.map Pass.noting) t before
        = (p.runPasses passes t, before ++ calls) ∧
      p.Fed passes t (p.runPasses passes t) calls := by
  induction passes generalizing t before with
  | nil => exact ⟨[], by rw [List.append_nil]; rfl, fed_nil⟩
  | cons pass rest ih =>
    rw [List.map_cons, runPasses_cons, runPasses_cons]
    have noted : pass.noting.run t before = (pass.run t, before ++ [(pass, t)]) := rfl
    cases run : pass.run t with
    | error e =>
      rw [run] at noted
      exact ⟨[(pass, t)], Eager.bind_of_error noted _, fed_of_error⟩
    | ok made =>
      rw [run] at noted
      rw [Eager.bind_of_ok noted]
      show ∃ calls, _ = (p.goOn rest made, _) ∧ p.Fed _ t (p.goOn rest made) calls
      cases rest with
      | nil =>
        rw [List.map_nil, goOn_of_neg (.inl rfl), goOn_of_neg (.inl rfl)]
        exact ⟨[(pass, t)], rfl, fed_singleton run⟩
      | cons next rest =>
        rw [goOn_primary primary (List.cons_ne_nil _ _), goOn_primary (p := p.noting) primary
          (by simp)]
        obtain ⟨calls, eq, fed⟩ := ih (p.unwrapped made) (before ++ [(pass, t)])
        refine ⟨(pass, t) :: calls, eq.trans ?_, fed.cons⟩
        rw [List.append_assoc]
        rfl

end

/-- **Bundles are unwrapped between passes and nowhere else.**  Whatever the passes do, a pipeline
that goes on with the first tree of a bundle gives what one gives that is fed with whole bundles and
has an unwrapping pass between any two of its passes.  So every pass but the first receives a node
that is no bundle, or a bundle that holds nothing but bundles; and what the last one makes is not
unwrapped. -/
theorem primary_unwraps (p : Pipeline (Except ε)) (passes : List (Pass (Except ε))) (t : Tree) :
    (p.through .primary passes).run t
        = (p.through .whole (passes.intersperse p.unwrapping)).run t ∧
      ∃ calls,
        (p.through .primary passes).noting.run t [] = ((p.through .primary passes).run t, calls) ∧
        p.Fed passes t ((p.through .primary passes).run t) calls := by
  constructor
  · exact (runPasses_primary (p := p.through .primary passes) rfl passes).trans
      (runPasses_whole (p := p.through .whole _) rfl _).symm
  · obtain ⟨calls, eq, fed⟩ := runPasses_noting (p := p.through .primary passes) rfl passes t []
    exact ⟨calls, eq, fed.inOrder, fed.first, fed.unwrapped, fed.last⟩

end Pipeline

end TreeRewrite
