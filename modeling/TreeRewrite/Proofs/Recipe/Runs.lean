import TreeRewrite.Proofs.Recipe.Catalog
import TreeRewrite.Proofs.Recipe.KnownKinds
import TreeRewrite.Proofs.Traversal.Eager
import TreeRewrite.Run

/-!
# Whose fault an invalid tree is

A run of recipes reads a tree, rewrites it and writes the trees that come of it.  That a tree is
invalid can be said when it is read and when trees are written; but the trees that are written are
made of known kinds, so it is only ever said of what was read.

## What is here

* `Run.BlamesNoTree` — a part of a run that does not end by saying that a tree is invalid, with the
  rules for parts that run one after the other.
* `Run.blamesNoTree_deliver` — known trees are delivered without such a failure.  This is the last
  part of a run, `Run.finish`.
* `Run.of_rewriteText_eq_ok`, `Run.of_rewriteText_eq_error` — what happens between reading and
  writing.
* `Recipe.outputs_can_be_written` — **whatever recipes make can be written**, so if a run says that
  a tree is invalid, it is the one that it read.
-/

set_option autoImplicit false

namespace TreeRewrite

variable {σ α β : Type} {kinds : KindTable} {request : RunRequest} {message : String}

namespace Run

/-! ## Parts of a run -/

/-- Does a part of a run never say that a tree is invalid? -/
def BlamesNoTree (part : ExceptT Failure (StateM σ) α) : Prop :=
  ∀ s s' message, part s ≠ (.error (.invalidTree message), s')

theorem blamesNoTree_pure (a : α) : BlamesNoTree (pure a : ExceptT Failure (StateM σ) α) := nofun

theorem blamesNoTree_bind {part : ExceptT Failure (StateM σ) α}
    {next : α → ExceptT Failure (StateM σ) β} (first : BlamesNoTree part)
    (second : ∀ a, BlamesNoTree (next a)) : BlamesNoTree (part >>= next) := by
  intro s s' message h
  rcases Eager.of_bind_eq_error h with h | ⟨a, between, -, h⟩
  · exact first _ _ _ h
  · exact second _ _ _ _ h

theorem blamesNoTree_lift {x : Except Failure α}
    (h : ∀ message, x ≠ .error (.invalidTree message)) :
    BlamesNoTree (liftM x : ExceptT Failure (StateM σ) α) := by
  intro s s' message failed
  exact h message (congrArg Prod.fst failed)

/-- What an operation on files comes to in a run. -/
theorem orFail_apply (failure : FileError → Failure) (action : StateM σ (Except FileError α))
    (s : σ) : (orFail failure action : ExceptT Failure (StateM σ) α) s
      = ((action s).1.mapError failure, (action s).2) := by
  have done : (liftM action : ExceptT Failure (StateM σ) _) s
      = (.ok (action s).1, (action s).2) := rfl
  refine (Eager.bind_of_ok done _).trans ?_
  cases (action s).1 <;> rfl

theorem blamesNoTree_orFail {failure : FileError → Failure}
    (h : ∀ e message, failure e ≠ .invalidTree message) (action : StateM σ (Except FileError α)) :
    BlamesNoTree (orFail failure action) := by
  intro s s' message failed
  rw [orFail_apply] at failed
  obtain ⟨e, -, eq⟩ := mapError_eq_error.mp (congrArg Prod.fst failed)
  exact h e message eq

/-! ## Writing -/

section

variable (disk : Disk (StateM σ)) {t : Tree} (known : t.Known kinds) (name : String)

include known

theorem blamesNoTree_written (dir : String) : BlamesNoTree (written disk kinds dir name t) := by
  obtain ⟨text, text_eq⟩ := Tree.exists_write known
  have refused (path : String) (e : FileError) (message : String) :
      Failure.writeFailed path e.message ≠ .invalidTree message := nofun
  rw [written, text_eq]
  refine blamesNoTree_bind (blamesNoTree_lift nofun) fun _ => ?_
  refine blamesNoTree_bind (blamesNoTree_orFail (refused _) _) fun _ => ?_
  exact blamesNoTree_bind (blamesNoTree_orFail (refused _) _) fun _ => blamesNoTree_pure _

theorem exists_inlined : ∃ output, inlined kinds name t = .ok output := by
  obtain ⟨value, value_eq⟩ := Tree.exists_toJson known
  exact ⟨_, by rw [inlined, value_eq]; rfl⟩

end

/-- **Known trees are delivered**, unless a file cannot be written. -/
theorem blamesNoTree_deliver (disk : Disk (StateM σ)) (dir? : Option String)
    (entries : List (String × Tree)) (known : ∀ entry ∈ entries, entry.2.Known kinds) :
    BlamesNoTree (deliver disk kinds dir? entries) := by
  induction entries with
  | nil => exact blamesNoTree_pure _
  | cons entry rest ih =>
    obtain ⟨name, t⟩ := entry
    obtain ⟨here, later⟩ := List.forall_mem_cons.mp known
    have then_rest (output : OutputTree) : BlamesNoTree do
        return output :: (← deliver disk kinds dir? rest) :=
      blamesNoTree_bind (ih later) fun _ => blamesNoTree_pure _
    cases dir? with
    | some dir =>
      rw [deliver]
      exact blamesNoTree_bind (blamesNoTree_written disk here name dir) then_rest
    | none =>
      obtain ⟨output, output_eq⟩ := exists_inlined here name
      rw [deliver, output_eq]
      exact blamesNoTree_bind (blamesNoTree_lift nofun) then_rest

theorem checkNames_ne (dir : String) (seen names : List String) :
    checkNames dir seen names ≠ .error (.invalidTree message) := by
  induction names generalizing seen with
  | nil => nofun
  | cons name rest ih =>
    rw [checkNames]
    split
    · nofun
    · split
      · nofun
      · exact ih _

/-- All that a run does once the trees are made. -/
def finish {m : Type → Type} [Monad m] (disk : Disk m) (kinds : KindTable) (request : RunRequest)
    (made : List String × Bundle) : ExceptT Failure m RunResponse := do
  if let some dir := request.outputDir? then
    (checkNames dir [] made.2.names : Except Failure Unit)
  let outputs ← deliver disk kinds request.outputDir? made.2.entries
  return { stages := made.1, bundleFeed := request.settings.bundleFeed.value.name, outputs }

theorem blamesNoTree_finish (disk : Disk (StateM σ)) {made : List String × Bundle}
    (known : ∀ t ∈ made.2.trees, t.Known kinds) :
    BlamesNoTree (finish disk kinds request made) := by
  have deliveries := blamesNoTree_deliver disk request.outputDir? made.2.entries
    (List.forall_mem_map.mp known)
  rw [finish]
  split
  · refine blamesNoTree_bind (blamesNoTree_lift fun message => checkNames_ne _ _ _) fun _ => ?_
    exact blamesNoTree_bind deliveries fun _ => blamesNoTree_pure _
  · exact blamesNoTree_bind deliveries fun _ => blamesNoTree_pure _

/-! ## Rewriting -/

/-- What is rewritten was read as a tree, and this was fed to the pipeline of the recipes. -/
theorem of_rewriteText_eq_ok {text : String} {made : List String × Bundle}
    (h : rewriteText kinds request text = .ok made) : ∃ t p output,
      Tree.read kinds text = .ok t ∧
      Recipe.pipeline request.settings.recipeOptions kinds request.settings.bundleFeed.value
        request.recipes = .ok p ∧
      p.run t = .ok output ∧ made = (p.names, output.toBundle) := by
  obtain ⟨t, read, h⟩ := bind_eq_ok.mp h
  obtain ⟨p, built, h⟩ := bind_eq_ok.mp h
  obtain ⟨output, run, ⟨⟩⟩ := bind_eq_ok.mp h
  exact ⟨t, p, output, mapError_eq_ok.mp read, mapError_eq_ok.mp built, mapError_eq_ok.mp run, rfl⟩

/-- The trees that come of a text are known. -/
theorem known_of_rewriteText {text : String} {made : List String × Bundle}
    (h : rewriteText kinds request text = .ok made) : ∀ t ∈ made.2.trees, t.Known kinds := by
  obtain ⟨t, p, output, read, built, run, rfl⟩ := of_rewriteText_eq_ok h
  exact Recipe.known_of_run built (Tree.read_spec read).1 run

/-- Only a text that cannot be read is called an invalid tree. -/
theorem of_rewriteText_eq_error {text : String}
    (h : rewriteText kinds request text = .error (.invalidTree message)) :
    ∃ e, Tree.read kinds text = .error e ∧ message = e.message := by
  -- the text is read, the pipeline is built, and it runs; each has failures of its own
  rcases bind_eq_error.mp h with h | ⟨t, -, h⟩
  · obtain ⟨e, read, eq⟩ := mapError_eq_error.mp h
    cases eq
    exact ⟨e, read, rfl⟩
  · rcases bind_eq_error.mp h with h | ⟨p, -, h⟩
    · obtain ⟨_ | _, -, ⟨⟩⟩ := mapError_eq_error.mp h
    · rcases bind_eq_error.mp h with h | ⟨output, -, ⟨⟩⟩
      obtain ⟨_, -, ⟨⟩⟩ := mapError_eq_error.mp h

end Run

/-! ## Runs -/

/-- A run reads, rewrites and finishes. -/
theorem runRecipes_eq (disk : Disk (StateM σ)) :
    runRecipes disk kinds request = if request.recipes.isEmpty then
        throw (.invalidArguments "at least one --recipe is required")
      else (do
        let text ← Run.orFail (Run.readFailure request.input) (disk.read request.input)
        let made ← (Run.rewriteText kinds request text : Except Failure _)
        Run.finish disk kinds request made) := by
  rw [runRecipes]
  split <;> rfl

/-- A run that says that a tree is invalid has done nothing but read it. -/
theorem of_runRecipes_eq_error {disk : Disk (StateM σ)} {s s' : σ}
    (h : runRecipes disk kinds request s = (.error (.invalidTree message), s')) :
    ∃ text e, disk.read request.input s = (.ok text, s') ∧ Tree.read kinds text = .error e ∧
      message = e.message := by
  rw [runRecipes_eq] at h
  split at h
  · cases h
  · -- the file cannot be read, its text is no tree, or something is wrong with what came of it
    rcases Eager.of_bind_eq_error h with h | ⟨text, between, read, h⟩
    · exact absurd h (Run.blamesNoTree_orFail (fun e _ => by cases e <;> nofun) _ _ _ _)
    · rcases Eager.of_bind_eq_error h with h | ⟨made, later, rewritten, h⟩
      · obtain ⟨e, failed, eq⟩ := Run.of_rewriteText_eq_error (congrArg Prod.fst h)
        obtain rfl : between = s' := congrArg Prod.snd h
        rw [Run.orFail_apply] at read
        obtain ⟨ok, same⟩ := Prod.mk.inj read
        exact ⟨text, e, Prod.ext (mapError_eq_ok.mp ok) same, failed, eq⟩
      · have known := Run.known_of_rewriteText (congrArg Prod.fst rewritten)
        exact absurd h (Run.blamesNoTree_finish disk known _ _ _)

/-- **What recipes make can be written.**  Take any table of kinds, any options, feed and names of
recipes for which there is a pipeline, and a tree that was read by the same table.  If the pipeline
succeeds, the table has names for the kinds of all nodes of all trees in the result, and these can
be written, as text and as values.  So when a run says that a tree is invalid, it is because of the
text that it read, and it has done nothing but read it. -/
theorem Recipe.outputs_can_be_written (kinds : KindTable) :
    (∀ (options : RecipeOptions) (feed : Feed) (names : List String)
        (p : Pipeline (Except RuleError)) (t : Tree) (output : Output),
      pipeline options kinds feed names = .ok p →
      ((∃ text, Tree.read kinds text = .ok t) ∨ ∃ v, Tree.ofJson kinds v = .ok t) →
      p.run t = .ok output →
      ∀ u ∈ output.toBundle.trees, u.Known kinds ∧ (∃ text, u.write kinds = .ok text) ∧
        ∃ v, u.toJson kinds = .ok v) ∧
    ∀ (σ : Type) (disk : Disk (StateM σ)) (request : RunRequest) (s s' : σ) (message : String),
      runRecipes disk kinds request s = (.error (.invalidTree message), s') →
      ∃ text e, disk.read request.input s = (.ok text, s') ∧ Tree.read kinds text = .error e ∧
        message = e.message := by
  refine ⟨fun options feed names p t output built decoded run u hu => ?_,
    fun σ disk request s s' message => of_runRecipes_eq_error⟩
  have known : t.Known kinds := by
    rcases decoded with ⟨text, read⟩ | ⟨v, read⟩
    · exact (Tree.read_spec read).1
    · exact Tree.known_of_ofJson read
  have made := known_of_run built known run u hu
  exact ⟨made, Tree.exists_write made, Tree.exists_toJson made⟩

/-- A file with a service becomes a bundle of two, which can be written.  From an empty text no tree
is read. -/
theorem Recipe.outputs_can_be_written_service :
    let value : Json := .arr [.str "SourceFile", .obj [], .arr [
      .obj [("attrs", .obj [("name", .str "Clock")]), ("kind", .str "ClassDeclaration"),
        ("children", .arr [.arr [.str "Decorator", .obj [], .arr [
          .arr [.str "CallExpression", .obj [], .arr [
            .arr [.str "Identifier", .obj [("text", .str "Injectable")]]]]]]])]]]
    let service : Tree := ⟨⟨229⟩, [("name", .str "Clock")],
      [⟨⟨147⟩, [], [⟨⟨181⟩, [], [⟨⟨71⟩, [("text", .str "Injectable")], []⟩]⟩]⟩]⟩
    let file : Tree := ⟨⟨265⟩, [], [service]⟩
    let p : Pipeline (Except RuleError) := ⟨[scopeToThis {}, serviceMocks], some ⟨266⟩, .whole⟩
    let bundle : Bundle := .ofTree (ServiceMocks.bundled .builtin file)
    let disk : Disk (StateM Nat) :=
      ⟨fun _ reads => (.ok "", reads + 1), fun _ _ => return .ok (), fun _ => return .ok (),
        fun _ => return true⟩
    let request : RunRequest := ⟨"clock.json", [ServiceMocks.name], none, .defaults⟩
    (pipeline {} .builtin .whole [ScopeToThis.name, ServiceMocks.name] = .ok p ∧
      Tree.ofJson .builtin value = .ok file ∧ p.run file = .ok (.bundle bundle) ∧
      bundle.names = ["output-0", "clock.mock.ts"] ∧
      ∀ u ∈ bundle.trees, u.Known .builtin ∧ (∃ text, u.write .builtin = .ok text) ∧
        ∃ v, u.toJson .builtin = .ok v) ∧
    ∃ message, runRecipes disk .builtin request 0 = (.error (.invalidTree message), 1) ∧
      ∃ text e, disk.read request.input 0 = (.ok text, 1) ∧ Tree.read .builtin text = .error e ∧
        message = e.message := by
  intro value service file p bundle disk request
  obtain ⟨written, invalid⟩ := outputs_can_be_written .builtin
  have built : pipeline {} .builtin .whole [ScopeToThis.name, ServiceMocks.name] = .ok p := rfl
  have decoded : Tree.ofJson .builtin value = .ok file := rfl
  have run : p.run file = .ok (.bundle bundle) := rfl
  have failed : runRecipes disk .builtin request 0
      = (.error (.invalidTree (DocumentError.json .truncated).message), 1) := rfl
  exact ⟨⟨built, decoded, run, rfl, written _ _ _ _ _ _ built (.inr ⟨value, decoded⟩) run⟩,
    _, failed, invalid _ _ _ _ _ _ failed⟩

end TreeRewrite
