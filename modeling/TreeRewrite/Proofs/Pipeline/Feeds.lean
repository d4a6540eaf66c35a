import TreeRewrite.Pipeline
import TreeRewrite.Proofs.Results
import TreeRewrite.Proofs.Tree.Bundles

/-!
# Pipelines in parts

The feed of a pipeline has a say only where a pass that is not the last makes a bundle node.  So a
pipeline that is fed with whole bundles is one pass after the other, and may be run in parts; one
that halts runs no further than to the first bundle.

## What is here

* `Pass.chain` — passes one after the other, without a pipeline around them.
* `Pipeline.goOn` — what a pipeline does with a tree that a pass has made.  It is all that a run is
  made of (`Pipeline.runPasses_cons`).
* `Pipeline.every_of_runPasses` — what all passes keep is kept by a run.
* `Pipeline.Quiet` — no pass but the last makes a bundle node.  Then the feed does not matter
  (`Pipeline.Quiet.runPasses_eq`).
* `Pipeline.Cut` — the passes up to the first that makes a bundle node.  A pipeline that halts runs
  these (`Pipeline.runPasses_halt`).
* `Pipeline.runs_compose` — **what the feeds come to**, for pipelines whose passes may fail.
-/

set_option autoImplicit false

namespace TreeRewrite

variable {m : Type → Type} {ε : Type}

/-- Passes one after the other, each on the tree that the one before it made. -/
def Pass.chain [Monad m] (passes : List (Pass m)) (t : Tree) : m Tree :=
  passes.foldlM (fun t pass => pass.run t) t

theorem Pass.chain_cons [Monad m] (pass : Pass m) (rest : List (Pass m)) (t : Tree) :
    chain (pass :: rest) t = pass.run t >>= chain rest := rfl

theorem Pass.chain_singleton [Monad m] [LawfulMonad m] (pass : Pass m) : chain [pass] = pass.run :=
  funext fun _ => bind_pure _

theorem Pass.chain_append [Monad m] [LawfulMonad m] (front rest : List (Pass m)) (t : Tree) :
    chain (front ++ rest) t = chain front t >>= chain rest := List.foldlM_append

namespace Pipeline

/-- The pipeline with another feed and other passes. -/
def through (p : Pipeline m) (feed : Feed) (passes : List (Pass m)) : Pipeline m :=
  { p with feed, passes }

/-! ## One pass -/

/-- What is done with the tree that a pass has made, before the passes that are left. -/
def goOn [Monad m] (p : Pipeline m) (rest : List (Pass m)) (t : Tree) : m Output :=
  if rest ≠ [] ∧ p.isBundle t then
    match p.feed with
    | .whole => p.runPasses rest t
    | .primary => p.runPasses rest ((Bundle.ofTree t).primary?.getD t)
    | .halt => return .bundle (.ofTree t)
  else p.runPasses rest t

section

variable [Monad m] {p : Pipeline m} {pass : Pass m} {rest : List (Pass m)} {t : Tree}

/-- **A run is one pass, and what follows its result.** -/
theorem runPasses_cons [LawfulMonad m] (p : Pipeline m) (pass : Pass m) (rest : List (Pass m))
    (t : Tree) : p.runPasses (pass :: rest) t = pass.run t >>= p.goOn rest := by
  cases rest with
  | nil =>
    have last : p.goOn [] = fun t' => pure (p.classify t') := by
      funext t'
      rw [goOn, if_neg fun h => h.1 rfl, runPasses]
    rw [runPasses, last]
  | cons next rest =>
    rw [runPasses]
    congr 1
    funext t'
    cases feed : p.feed <;> simp [goOn, feed]

theorem goOn_whole (whole : p.feed = .whole) : p.goOn rest t = p.runPasses rest t := by
  rw [goOn, whole]
  exact ite_self _

theorem goOn_of_neg (h : rest = [] ∨ p.isBundle t = false) :
    p.goOn rest t = p.runPasses rest t := by
  rw [goOn, if_neg]
  rintro ⟨left, bundle⟩
  rcases h with h | h
  · exact left h
  · rw [h] at bundle
    cases bundle

/-- A pipeline that halts ends with the bundle, whether passes are left or not. -/
theorem goOn_halt (halt : p.feed = .halt) (bundle : p.isBundle t = true) :
    p.goOn rest t = pure (.bundle (.ofTree t)) := by
  rw [goOn, halt]
  split
  · rfl
  · next h =>
    have last : rest = [] := Classical.byContradiction fun left => h ⟨left, bundle⟩
    rw [last, runPasses, classify, if_pos bundle]

/-- Whatever the feed, a run ends with the bundle, or it goes on with the tree or with one that the
bundle holds. -/
theorem goOn_cases (p : Pipeline m) (rest : List (Pass m)) (t : Tree) :
    p.goOn rest t = pure (.bundle (.ofTree t)) ∨
      ∃ next, (next = t ∨ next ∈ (Bundle.ofTree t).trees) ∧
        p.goOn rest t = p.runPasses rest next := by
  rw [goOn]
  split
  · cases p.feed with
    | whole => exact .inr ⟨t, .inl rfl, rfl⟩
    | primary =>
      refine .inr ⟨_, ?_, rfl⟩
      cases first : (Bundle.ofTree t).primary? with
      | none => exact .inl rfl
      | some u => exact .inr (List.mem_of_head? first)
    | halt => exact .inl rfl
  · exact .inr ⟨t, .inl rfl, rfl⟩

/-- Passes that are fed with whole bundles run one after the other. -/
theorem runPasses_whole [LawfulMonad m] (whole : p.feed = .whole) (passes : List (Pass m)) :
    p.runPasses passes t = p.classify <$> Pass.chain passes t := by
  induction passes generalizing t with
  | nil => exact (map_pure _ _).symm
  | cons pass rest ih =>
    rw [runPasses_cons, Pass.chain_cons, map_bind]
    exact bind_congr fun t' => (goOn_whole whole).trans ih

end

/-! ## Passes that may fail -/

section

variable (p : Pipeline (Except ε))

/-- Do the passes come from the tree to a bundle node? -/
def EndsInBundle (passes : List (Pass (Except ε))) (t : Tree) : Prop :=
  ∃ made, Pass.chain passes t = .ok made ∧ p.isBundle made = true

/-- Does no pass but the last make a bundle node, on the way from the tree? -/
def Quiet (passes : List (Pass (Except ε))) (t : Tree) : Prop :=
  ∀ front, front <+: passes → front ≠ [] → front ≠ passes → ¬ p.EndsInBundle front t

/-- The first passes, up to one that makes a bundle node, and no more of them than necessary. -/
structure Cut (passes : List (Pass (Except ε))) (t : Tree) (front : List (Pass (Except ε))) :
    Prop where
  isFront : front <+: passes
  nonempty : front ≠ []
  ends : p.EndsInBundle front t
  shortest : ∀ other, other <+: passes → other ≠ [] → p.EndsInBundle other t →
    front.length ≤ other.length

variable {p} {pass : Pass (Except ε)} {passes front rest : List (Pass (Except ε))} {t made : Tree}

theorem endsInBundle_cons (run : pass.run t = .ok made) :
    p.EndsInBundle (pass :: rest) t ↔ p.EndsInBundle rest made := by
  rw [EndsInBundle, Pass.chain_cons, run]
  rfl

/-- What a quiet run is after its first pass. -/
theorem Quiet.step (h : p.Quiet (pass :: rest) t) (run : pass.run t = .ok made) :
    (rest = [] ∨ p.isBundle made = false) ∧ p.Quiet rest made := by
  constructor
  · refine Classical.or_iff_not_imp_left.mpr fun left => Bool.eq_false_iff.mpr fun bundle => ?_
    exact h [pass] (List.prefix_append _ _) (List.cons_ne_nil _ _) (by simpa using Ne.symm left)
      ((endsInBundle_cons run).mpr ⟨made, rfl, bundle⟩)
  · intro front isFront _ proper ends
    exact h (pass :: front) ((List.prefix_cons_inj pass).mpr isFront) (List.cons_ne_nil _ _)
      (by simpa using proper) ((endsInBundle_cons run).mpr ends)

/-- **In a quiet run the feed does not matter.** -/
theorem Quiet.runPasses_eq (h : p.Quiet passes t) :
    p.runPasses passes t = p.classify <$> Pass.chain passes t := by
  induction passes generalizing t with
  | nil => rfl
  | cons pass rest ih =>
    rw [runPasses_cons, Pass.chain_cons]
    cases run : pass.run t with
    | error e => rfl
    | ok made =>
      obtain ⟨calm, later⟩ := h.step run
      exact (goOn_of_neg calm).trans (ih later)

/-- **A pipeline that halts ends with the first bundle**, whatever passes are left. -/
theorem runPasses_halt (halt : p.feed = .halt) (nonempty : front ≠ []) (quiet : p.Quiet front t)
    (chain : Pass.chain front t = .ok made) (bundle : p.isBundle made = true) :
    p.runPasses (front ++ rest) t = .ok (.bundle (.ofTree made)) := by
  induction front generalizing t with
  | nil => exact absurd rfl nonempty
  | cons pass front ih =>
    rw [Pass.chain_cons] at chain
    rw [List.cons_append, runPasses_cons]
    cases run : pass.run t with
    | error e =>
      rw [run] at chain
      cases chain
    | ok first =>
      rw [run] at chain
      obtain ⟨calm, later⟩ := quiet.step run
      cases front with
      | nil =>
        obtain rfl : first = made := Except.ok.inj chain
        exact goOn_halt halt bundle
      | cons next front =>
        have plain := calm.resolve_left (List.cons_ne_nil _ _)
        exact (goOn_of_neg (.inr plain)).trans (ih (List.cons_ne_nil _ _) later chain)

/-! ## What passes keep -/

theorem every_of_mem_classify {q : Tree → Prop} (h : t.Every q) :
    ∀ u ∈ (p.classify t).toBundle.trees, u.Every q := by
  intro u hu
  rw [classify] at hu
  split at hu
  · exact Bundle.every_of_mem_ofTree h hu
  · rw [Output.toBundle, Bundle.single, Bundle.trees_ofTrees, List.mem_singleton] at hu
    exact hu ▸ h

/-- **What all passes keep is kept by a run**, in every tree of its result and whatever the feed. -/
theorem every_of_runPasses {q : Tree → Prop} {output : Output}
    (keep : ∀ pass ∈ passes, ∀ t made, t.Every q → pass.run t = .ok made → made.Every q)
    (h : t.Every q) (run : p.runPasses passes t = .ok output) :
    ∀ u ∈ output.toBundle.trees, u.Every q := by
  induction passes generalizing t with
  | nil =>
    cases run
    exact every_of_mem_classify h
  | cons pass rest ih =>
    rw [runPasses_cons] at run
    obtain ⟨made, first, run⟩ := bind_eq_ok.mp run
    obtain ⟨here, later⟩ := List.forall_mem_cons.mp keep
    have kept : made.Every q := here t made h first
    rcases p.goOn_cases rest made with halt | ⟨next, held, goOn⟩
    · rw [halt] at run
      cases run
      exact fun u hu => Bundle.every_of_mem_ofTree kept hu
    · rw [goOn] at run
      rcases held with rfl | held
      · exact ih later kept run
      · exact ih later (Bundle.every_of_mem_ofTree kept held) run

/-! ## The first bundle -/

theorem Cut.quiet (h : p.Cut passes t front) : p.Quiet front t := by
  intro other isFront nonempty proper ends
  have long := h.shortest other (isFront.trans h.isFront) nonempty ends
  exact proper (isFront.eq_of_length_le long)

/-- Where some passes at the front come to a bundle node, there are a least number of them. -/
theorem exists_cut (isFront : front <+: passes) (nonempty : front ≠ [])
    (ends : p.EndsInBundle front t) : ∃ least, p.Cut passes t least := by
  induction h : front.length using Nat.strongRecOn generalizing front with
  | ind n ih =>
    subst h
    by_cases shorter : ∃ other, other <+: passes ∧ other ≠ [] ∧ p.EndsInBundle other t ∧
        other.length < front.length
    · obtain ⟨other, isFront', nonempty', ends', lt⟩ := shorter
      exact ih _ lt isFront' nonempty' ends' rfl
    · refine ⟨front, isFront, nonempty, ends, fun other isFront' nonempty' ends' => ?_⟩
      exact Nat.le_of_not_lt fun lt => shorter ⟨other, isFront', nonempty', ends', lt⟩

theorem quiet_of_not_cut (h : ¬ ∃ front, p.Cut passes t front) : p.Quiet passes t :=
  fun _ isFront nonempty _ ends => h (exists_cut isFront nonempty ends)

end

/-- **Runs compose.**  Whatever the passes, and whether they fail or not:

* fed with whole bundles, passes behind others go on from the tree that these made, unless these
  fail, and then it is with their error;
* a pipeline that halts runs the passes up to the first that makes a bundle node, as if it were fed
  with whole bundles; this gives the bundle, so that it does not matter what passes come behind;
  without such a pass it runs all of them;
* the feed does not matter where no pass but the last makes a bundle node. -/
theorem runs_compose (p : Pipeline (Except ε)) (t : Tree) :
    (∀ front rest,
      (p.through .whole front).run t = p.classify <$> Pass.chain front t ∧
      (p.through .whole (front ++ rest)).run t
        = Pass.chain front t >>= (p.through .whole rest).run) ∧
    (∀ passes,
      (∀ front, p.Cut passes t front →
        ∃ b, (p.through .whole front).run t = .ok (.bundle b) ∧
          (p.through .halt passes).run t = .ok (.bundle b) ∧
          ∀ rest, (p.through .halt (front ++ rest)).run t = .ok (.bundle b)) ∧
      ((¬ ∃ front, p.Cut passes t front) →
        (p.through .halt passes).run t = (p.through .whole passes).run t)) ∧
    ∀ passes, p.Quiet passes t →
      ∀ feed feed', (p.through feed passes).run t = (p.through feed' passes).run t := by
  have whole (passes : List (Pass (Except ε))) (t : Tree) :
      (p.through .whole passes).run t = p.classify <$> Pass.chain passes t := runPasses_whole rfl _
  have quiet (feed : Feed) {passes : List (Pass (Except ε))} (h : p.Quiet passes t) :
      (p.through feed passes).run t = p.classify <$> Pass.chain passes t :=
    Quiet.runPasses_eq (p := p.through feed passes) h
  refine ⟨fun front rest => ⟨whole front t, ?_⟩,
    fun passes => ⟨fun front cut => ?_, fun none => ?_⟩,
    fun passes h feed feed' => (quiet feed h).trans (quiet feed' h).symm⟩
  · rw [whole, Pass.chain_append, map_bind]
    exact bind_congr fun made => (whole rest made).symm
  · obtain ⟨made, chain, bundle⟩ := cut.ends
    have halt (rest : List (Pass (Except ε))) :
        (p.through .halt (front ++ rest)).run t = .ok (.bundle (.ofTree made)) :=
      runPasses_halt (p := p.through .halt (front ++ rest)) rfl cut.nonempty cut.quiet chain bundle
    obtain ⟨rest, rfl⟩ := cut.isFront
    refine ⟨.ofTree made, ?_, halt rest, halt⟩
    rw [whole, chain]
    exact congrArg Except.ok (if_pos bundle)
  · rw [quiet .halt (quiet_of_not_cut none), whole]

/-- A pass that fails is reached unless the pipeline has halted before. -/
theorem runs_compose_halting :
    let p : Pipeline (Except String) := { bundleKind? := some ⟨266⟩ }
    let double : Pass (Except String) := ⟨"double", fun t => .ok ⟨⟨266⟩, [], [t, t]⟩⟩
    let stop : Pass (Except String) := ⟨"stop", fun _ => .error "stopped"⟩
    let t : Tree := .leaf ⟨71⟩
    (p.through .whole [double, stop]).run t = .error "stopped" ∧
      (∃ b, (p.through .whole [double]).run t = .ok (.bundle b) ∧
        (p.through .halt [double, stop]).run t = .ok (.bundle b)) ∧
      (p.through .halt [stop]).run t = (p.through .whole [stop]).run t ∧
      (p.through .primary [double]).run t = (p.through .halt [double]).run t := by
  intro p double stop t
  obtain ⟨compose, cut, quiet⟩ := runs_compose p t
  have first : p.Cut [double, stop] t [double] :=
    ⟨List.prefix_append _ _, List.cons_ne_nil _ _, ⟨_, rfl, rfl⟩,
      fun _ _ nonempty _ => List.length_pos_iff.mpr nonempty⟩
  have noCut : ¬ ∃ front, p.Cut [stop] t front := by
    rintro ⟨_ | ⟨pass, rest⟩, h⟩
    · exact h.nonempty rfl
    · obtain ⟨rfl, -⟩ := List.cons_prefix_cons.mp h.isFront
      obtain ⟨made, chain, -⟩ := h.ends
      cases chain
  have calm : p.Quiet [double] t := by
    rintro (_ | ⟨pass, rest⟩) isFront nonempty proper
    · exact absurd rfl nonempty
    · obtain ⟨rfl, none⟩ := List.cons_prefix_cons.mp isFront
      exact absurd (congrArg _ (List.prefix_nil.mp none)) proper
  obtain ⟨b, whole, halt, -⟩ := (cut _).1 _ first
  exact ⟨(compose [double] [stop]).2, ⟨b, whole, halt⟩, (cut _).2 noCut, quiet _ calm _ _⟩

end Pipeline

end TreeRewrite
