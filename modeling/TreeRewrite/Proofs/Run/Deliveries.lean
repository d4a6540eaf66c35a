import TreeRewrite.Proofs.Recipe.Attributes
import TreeRewrite.Proofs.Recipe.Runs
import TreeRewrite.Proofs.Run.OutputNames

/-!
# How trees are delivered

A run makes all its trees and checks all their names before it writes the first of them; what it
does until then is a function of the text that it reads.  Between two files nothing can go wrong,
since trees of known kinds are encoded without fail.  So a run that fails has either done nothing,
or has written the files before the one that could not be written.

## What is here

* `Run.prepared` — what a run does before it writes; `Run.prepared_eq_ok` takes it apart.
* `Run.runRecipes_of_error`, `Run.runRecipes_of_ok` — **a run prepares, and then it delivers**.
* `Run.encoded` — the files for trees, with their texts, and `Run.exists_encoded`: there are such if
  the trees are known.
* `Run.of_deliver_eq_ok`, `Run.of_deliver_eq_error` — which files have been written, if all are
  delivered and if not.
* `Run.runRecipes_of_agreeNear` — a run does nothing away from its directory.
* `Run.Stopped`, `Run.Failed` — how a run ends that fails, on any disk and on a file system in
  memory.
* `Run.failed_of_run` — **a run that fails has written nothing, unless a file could not be
  written**.
-/

set_option autoImplicit false

namespace TreeRewrite

variable {σ : Type} {disk : Disk (StateM σ)} {kinds : KindTable} {request : RunRequest} {s s' : σ}
  {dir name : String} {t : Tree} {failure : Failure}

namespace Run

/-! ## Before anything is written -/

/-- The check of the names of what is to be written. -/
def checked (request : RunRequest) (b : Bundle) : Except Failure Unit :=
  match request.outputDir? with
  | some dir => checkNames dir [] b.names
  | none => .ok ()

/-- All that a run does before it writes: what was read becomes trees, and their names are
checked. -/
def prepared (kinds : KindTable) (request : RunRequest) (input : Except FileError String) :
    Except Failure (List String × Bundle) := do
  if request.recipes.isEmpty then
    throw (.invalidArguments "at least one --recipe is required")
  let text ← input.mapError (readFailure request.input)
  let made ← rewriteText kinds request text
  checked request made.2
  return made

/-- **What is prepared** was read, rewritten and checked. -/
theorem prepared_eq_ok {input : Except FileError String} {made : List String × Bundle} :
    prepared kinds request input = .ok made ↔ ¬ request.recipes.isEmpty ∧ ∃ text,
      input = .ok text ∧ rewriteText kinds request text = .ok made ∧
        checked request made.2 = .ok () := by
  rw [prepared]
  split
  · next none => exact ⟨nofun, fun h => absurd none h.1⟩
  · next some =>
    refine ⟨fun h => ?_, ?_⟩
    · obtain ⟨text, input_eq, h⟩ := bind_eq_ok.mp h
      obtain ⟨made', rewritten, h⟩ := bind_eq_ok.mp h
      obtain ⟨_, accepted, ⟨⟩⟩ := bind_eq_ok.mp h
      exact ⟨some, text, mapError_eq_ok.mp input_eq, rewritten, accepted⟩
    · rintro ⟨-, text, rfl, rewritten, accepted⟩
      show rewriteText kinds request text >>= _ = _
      rw [rewritten]
      show checked request made.2 >>= _ = _
      rw [accepted]
      rfl

/-- The response of a run. -/
def respond (request : RunRequest) (stages : List String) (outputs : List OutputTree) :
    RunResponse where
  stages
  bundleFeed := request.settings.bundleFeed.value.name
  outputs

theorem finish_eq (disk : Disk (StateM σ)) (made : List String × Bundle) :
    finish disk kinds request made = (do
      (checked request made.2 : Except Failure Unit)
      return respond request made.1 (← deliver disk kinds request.outputDir? made.2.entries)) := by
  rw [finish, checked]
  cases request.outputDir? <;> rfl

section

variable {input : Except FileError String} {opened : σ}
  (reads : disk.read request.input s = (input, opened))
include reads

/-- **A run that is not prepared does nothing** but read; without recipes it does not even read. -/
theorem runRecipes_of_error (h : prepared kinds request input = .error failure) :
    runRecipes disk kinds request s
      = (.error failure, if request.recipes.isEmpty then s else opened) := by
  rw [runRecipes_eq]
  rw [prepared] at h
  split at h
  · next none =>
    cases h
    rw [if_pos none, if_pos none]
    rfl
  · next some =>
    rw [if_neg some, if_neg some]
    have read : (orFail (readFailure request.input) (disk.read request.input) :
        ExceptT Failure (StateM σ) String) s
          = (input.mapError (readFailure request.input), opened) := by
      rw [orFail_apply, reads]
    rcases bind_eq_error.mp h with h | ⟨text, text_eq, h⟩
    · rw [h] at read
      exact Eager.bind_of_error read _
    · rw [text_eq] at read
      refine (Eager.bind_of_ok read _).trans ?_
      rcases bind_eq_error.mp h with h | ⟨made, made_eq, h⟩
      · rw [h]
        rfl
      · rw [made_eq]
        show finish disk kinds request made opened = _
        rw [finish_eq]
        rcases bind_eq_error.mp h with h | ⟨_, -, ⟨⟩⟩
        rw [h]
        rfl

/-- A run that is prepared delivers. -/
theorem runRecipes_of_ok {made : List String × Bundle}
    (h : prepared kinds request input = .ok made) : runRecipes disk kinds request s
      = (respond request made.1 <$> deliver disk kinds request.outputDir? made.2.entries :
        ExceptT Failure (StateM σ) RunResponse) opened := by
  obtain ⟨some, text, rfl, made_eq, accepted⟩ := prepared_eq_ok.mp h
  rw [runRecipes_eq, if_neg some]
  have read : (orFail (readFailure request.input) (disk.read request.input) :
      ExceptT Failure (StateM σ) String) s = (.ok text, opened) := by
    rw [orFail_apply, reads]
    rfl
  refine (Eager.bind_of_ok read _).trans ?_
  rw [made_eq]
  show finish disk kinds request made opened = _
  rw [finish_eq, accepted]
  rfl

end

/-! ## Writing one tree after the other -/

/-- What the response says of a tree that was written. -/
def outputOf (dir : String) (entry : String × Tree) : OutputTree :=
  { name := entry.1, nodes := .ofNat entry.2.count, path? := some (outputPath dir entry.1) }

/-- The files for some trees, with their texts. -/
def encoded (kinds : KindTable) (dir : String) (entries : List (String × Tree)) :
    Except Failure (List (String × String)) :=
  entries.mapM fun entry => do
    return (outputPath dir entry.1, (← (entry.2.write kinds).mapError .ofDocument) ++ "\n")

theorem encoded_cons {rest : List (String × Tree)} {files : List (String × String)} :
    encoded kinds dir ((name, t) :: rest) = .ok files ↔ ∃ text more, t.write kinds = .ok text ∧
      encoded kinds dir rest = .ok more ∧ files = (outputPath dir name, text ++ "\n") :: more := by
  rw [encoded, List.mapM_cons]
  constructor
  · intro h
    obtain ⟨file, here, h⟩ := bind_eq_ok.mp h
    obtain ⟨text, written, ⟨⟩⟩ := bind_eq_ok.mp here
    obtain ⟨more, later, ⟨⟩⟩ := bind_eq_ok.mp h
    exact ⟨text, more, mapError_eq_ok.mp written, later, rfl⟩
  · rintro ⟨text, more, written, later, rfl⟩
    rw [encoded] at later
    rw [written, later]
    rfl

/-- **Known trees are encoded.** -/
theorem exists_encoded (dir : String) {entries : List (String × Tree)}
    (known : ∀ entry ∈ entries, entry.2.Known kinds) :
    ∃ files, encoded kinds dir entries = .ok files := by
  induction entries with
  | nil => exact ⟨[], rfl⟩
  | cons entry rest ih =>
    obtain ⟨here, later⟩ := List.forall_mem_cons.mp known
    obtain ⟨text, written⟩ := Tree.exists_write here
    obtain ⟨files, encoded⟩ := ih later
    exact ⟨_, encoded_cons.mpr ⟨text, files, written, encoded, rfl⟩⟩

section

variable {α : Type} {action : StateM σ (Except FileError α)} {wording : FileError → Failure}

theorem of_orFail_eq_ok {a : α}
    (h : (orFail wording action : ExceptT Failure (StateM σ) α) s = (.ok a, s')) :
    action s = (.ok a, s') := by
  rw [orFail_apply] at h
  obtain ⟨ok, state⟩ := Prod.mk.inj h
  exact Prod.ext (mapError_eq_ok.mp ok) state

theorem of_orFail_eq_error
    (h : (orFail wording action : ExceptT Failure (StateM σ) α) s = (.error failure, s')) :
    ∃ e, action s = (.error e, s') ∧ failure = wording e := by
  rw [orFail_apply] at h
  obtain ⟨error, state⟩ := Prod.mk.inj h
  obtain ⟨e, eq, rfl⟩ := mapError_eq_error.mp error
  exact ⟨e, Prod.ext eq state, rfl⟩

end

section

variable {text : String} (written_eq : t.write kinds = .ok text)
include written_eq

theorem of_written_eq_ok {output : OutputTree}
    (h : written disk kinds dir name t s = (.ok output, s')) :
    output = outputOf dir (name, t) ∧ ∃ between,
      disk.makeParents (outputPath dir name) s = (.ok (), between) ∧
        disk.write (outputPath dir name) (text ++ "\n") between = (.ok (), s') := by
  rw [written, written_eq] at h
  obtain ⟨_, _, ⟨⟩, h⟩ := Eager.of_bind_eq_ok h
  obtain ⟨_, between, parents, h⟩ := Eager.of_bind_eq_ok h
  obtain ⟨_, stored, file, ⟨⟩⟩ := Eager.of_bind_eq_ok h
  exact ⟨rfl, between, of_orFail_eq_ok parents, of_orFail_eq_ok file⟩

theorem of_written_eq_error (h : written disk kinds dir name t s = (.error failure, s')) :
    ∃ e, disk.Fails (outputPath dir name) (text ++ "\n") s e s' ∧
      failure = .writeFailed (outputPath dir name) e.message := by
  rw [written, written_eq] at h
  rcases Eager.of_bind_eq_error h with ⟨⟨⟩⟩ | ⟨_, _, ⟨⟩, h⟩
  rcases Eager.of_bind_eq_error h with h | ⟨_, between, parents, h⟩
  · obtain ⟨e, failed, eq⟩ := of_orFail_eq_error h
    exact ⟨e, .parents failed, eq⟩
  · rcases Eager.of_bind_eq_error h with h | ⟨_, _, -, ⟨⟩⟩
    obtain ⟨e, failed, eq⟩ := of_orFail_eq_error h
    exact ⟨e, .file (of_orFail_eq_ok parents) failed, eq⟩

end

/-- **What is delivered is stored**: every tree, in order, in its file. -/
theorem of_deliver_eq_ok {entries : List (String × Tree)} {files : List (String × String)}
    {outputs : List OutputTree} (texts : encoded kinds dir entries = .ok files)
    (h : deliver disk kinds (some dir) entries s = (.ok outputs, s')) :
    disk.Stores files s s' ∧ outputs = entries.map (outputOf dir) := by
  induction entries generalizing s files outputs with
  | nil =>
    cases texts
    cases h
    exact ⟨.nil _, rfl⟩
  | cons entry rest ih =>
    obtain ⟨text, more, written, later, rfl⟩ := encoded_cons.mp texts
    rw [deliver] at h
    obtain ⟨output, stored, here, h⟩ := Eager.of_bind_eq_ok h
    obtain ⟨others, end_, delivered, ⟨⟩⟩ := Eager.of_bind_eq_ok h
    obtain ⟨rfl, between, parents, file⟩ := of_written_eq_ok written here
    obtain ⟨stores, rfl⟩ := ih later delivered
    exact ⟨.cons parents file stores, rfl⟩

/-- **If a tree cannot be delivered, those before it are stored**, and nothing is done about those
behind it. -/
theorem of_deliver_eq_error {entries : List (String × Tree)} {files : List (String × String)}
    (texts : encoded kinds dir entries = .ok files)
    (h : deliver disk kinds (some dir) entries s = (.error failure, s')) :
    ∃ before path text after between e, files = before ++ (path, text) :: after ∧
      disk.Stores before s between ∧ disk.Fails path text between e s' ∧
        failure = .writeFailed path e.message := by
  induction entries generalizing s files with
  | nil => cases h
  | cons entry rest ih =>
    obtain ⟨text, more, written, later, rfl⟩ := encoded_cons.mp texts
    rw [deliver] at h
    rcases Eager.of_bind_eq_error h with h | ⟨output, stored, here, h⟩
    · obtain ⟨e, failed, eq⟩ := of_written_eq_error written h
      exact ⟨[], _, _, more, s, e, rfl, .nil s, failed, eq⟩
    · obtain ⟨-, between, parents, file⟩ := of_written_eq_ok written here
      rcases Eager.of_bind_eq_error h with h | ⟨_, _, -, ⟨⟩⟩
      obtain ⟨before, path, text', after, mid, e, rfl, stores, failed⟩ := ih later h
      exact ⟨_ :: before, path, text', after, mid, e, rfl, .cons parents file stores, failed⟩

/-! ## Away from the directory -/

section

variable {other : Disk (StateM σ)} (agree : Disk.AgreeNear dir disk other)
  (into : request.outputDir? = some dir)
include agree into

theorem finish_of_agreeNear (made : List String × Bundle) :
    finish other kinds request made = finish disk kinds request made := by
  rw [finish_eq, finish_eq, into]
  cases accepted : checked request made.2 with
  | error failure => rfl
  | ok _ =>
    rw [checked, into] at accepted
    rw [agree.deliver kinds (List.forall_mem_map.mp (plain_of_checkNames accepted))]

/-- **A run does nothing away from its directory**, apart from reading. -/
theorem runRecipes_of_agreeNear (read : other.read request.input = disk.read request.input) :
    runRecipes other kinds request = runRecipes disk kinds request := by
  have finish_eq : finish other kinds request = finish disk kinds request :=
    funext (finish_of_agreeNear agree into)
  rw [runRecipes_eq, runRecipes_eq, read, finish_eq]

end

/-! ## Runs that fail -/

theorem known_of_prepared {input : Except FileError String} {made : List String × Bundle}
    (h : prepared kinds request input = .ok made) : ∀ t ∈ made.2.trees, t.Known kinds := by
  obtain ⟨-, text, -, rewritten, -⟩ := prepared_eq_ok.mp h
  exact known_of_rewriteText rewritten

/-- How a run ends that fails to write trees into a directory, on a disk of any sort. -/
inductive Stopped (disk : Disk (StateM σ)) (kinds : KindTable) (request : RunRequest) (dir : String)
    (s : σ) (failure : Failure) (s' : σ) : Prop
  /-- Something was wrong before anything was written, and nothing is.  All that may have been done
  is to read the input. -/
  | unprepared {input : Except FileError String} {opened : σ}
      (reads : disk.read request.input s = (input, opened))
      (wrong : prepared kinds request input = .error failure)
      (same : s' = if request.recipes.isEmpty then s else opened)
  /-- All trees were made and encoded, and of their files those before one have been stored, in
  order.  With this one the disk failed, and nothing was done after that. -/
  | blocked {input : Except FileError String} {opened : σ} {made : List String × Bundle}
      {before after : List (String × String)} {path text : String} {between : σ} {e : FileError}
      (reads : disk.read request.input s = (input, opened))
      (right : prepared kinds request input = .ok made)
      (texts : encoded kinds dir made.2.entries = .ok (before ++ (path, text) :: after))
      (stored : disk.Stores before opened between) (fails : disk.Fails path text between e s')
      (failure_eq : failure = .writeFailed path e.message)

/-- **A run that fails has stored the files before the one that failed**, if it came to that. -/
theorem stopped_of_run (into : request.outputDir? = some dir)
    (h : runRecipes disk kinds request s = (.error failure, s')) :
    Stopped disk kinds request dir s failure s' := by
  rcases reads : disk.read request.input s with ⟨input, opened⟩
  cases right : prepared kinds request input with
  | error wrong =>
    rw [runRecipes_of_error reads right] at h
    cases h
    exact .unprepared reads right rfl
  | ok made =>
    rw [runRecipes_of_ok reads right, into, map_eq_pure_bind] at h
    rcases Eager.of_bind_eq_error h with h | ⟨_, _, -, ⟨⟩⟩
    obtain ⟨files, texts⟩ := exists_encoded dir (List.forall_mem_map.mp (known_of_prepared right))
    obtain ⟨before, path, text, after, between, e, rfl, stored, fails, wrong⟩ :=
      of_deliver_eq_error texts h
    exact .blocked reads right texts stored fails wrong

/-- How such a run ends on a file system in memory. -/
inductive Failed (kinds : KindTable) (request : RunRequest) (dir : String) (fs : FileSystem)
    (failure : Failure) (fs' : FileSystem) : Prop
  /-- Something was wrong before anything was written, and nothing is. -/
  | unprepared (wrong : prepared kinds request (fs.read request.input) = .error failure)
      (same : fs' = fs)
  /-- All trees were made and encoded, but one of the files could not be written.  The files before
  it are written, so each holds the last text that went into it.  Nothing but these has changed,
  and there may be directories on the way to them, and to the one that failed, where nothing was. -/
  | blocked {made : List String × Bundle} {before after : List (String × String)}
      {path text : String} {between : FileSystem} {e : FileError}
      (right : prepared kinds request (fs.read request.input) = .ok made)
      (texts : encoded kinds dir made.2.entries = .ok (before ++ (path, text) :: after))
      (stored : FileSystem.disk.Stores before fs between)
      (fails : FileSystem.disk.Fails path text between e fs')
      (failure_eq : failure = .writeFailed path e.message)
      (complete : ∀ first last rest, before = first ++ last :: rest →
        (∀ other ∈ rest, fs.target other.1 ≠ fs.target last.1) → fs'.read last.1 = .ok last.2)
      (elsewhere : FileSystem.Alters (fs.Files before) (fs.AboveFiles (before ++ [(path, text)]))
        fs fs')

/-- In memory, reading changes nothing and what has been stored can be read. -/
theorem Stopped.failed {fs fs' : FileSystem}
    (h : Stopped FileSystem.disk kinds request dir fs failure fs') :
    Failed kinds request dir fs failure fs' := by
  cases h with
  | unprepared reads wrong same =>
    cases reads
    exact .unprepared wrong (same.trans (ite_self fs))
  | @blocked _ _ made before after path text between e reads right texts stored fails failure_eq =>
    cases reads
    have first := FileSystem.alters_of_stores stored
    have last := FileSystem.gains_of_fails fails
    refine .blocked right texts stored fails failure_eq (fun front file rest split alone => ?_) ?_
    · subst split
      have text_eq := FileSystem.read_of_stores stored alone
        (List.mem_append_right _ List.mem_cons_self) rfl
      have quiet : FileSystem.Alters (fun _ => False) (between.Above path) between fs' :=
        last.alters
      exact quiet.read not_false text_eq
    · refine (first.mono (fun _ => id) fun loc ⟨file, mem, above⟩ =>
        ⟨file, List.mem_append_left _ mem, above⟩).trans ?_
      refine (last.mono fun loc above => ?_).alters
      exact ⟨_, List.mem_append_right _ List.mem_cons_self, first.keeps.above ▸ above⟩

/-- **A run that fails has written nothing, unless a file could not be written.**  Whatever is wrong
with the input, the recipes, a rewrite or the name of any of the trees is found before the first
file is written, and no tree fails to be encoded between two files.  This is so on any disk,
whatever its errors; on a file system in memory, the files before the one that failed can be read,
and nothing else has changed. -/
theorem failed_of_run (into : request.outputDir? = some dir) :
    (∀ {τ : Type} (disk : Disk (StateM τ)) (s s' : τ),
      runRecipes disk kinds request s = (.error failure, s') →
        Stopped disk kinds request dir s failure s') ∧
    ∀ fs fs' : FileSystem, runRecipes FileSystem.disk kinds request fs = (.error failure, fs') →
      Failed kinds request dir fs failure fs' :=
  ⟨fun _ _ _ => stopped_of_run into, fun _ _ h => (stopped_of_run into h).failed⟩

/-- A disk in memory that has no room for one of the files. -/
def fullAt (path : String) : Disk (StateM FileSystem) :=
  { FileSystem.disk with
    write := fun other text => if other = path then
      return .error (.other "No space left on device (os error 28)")
    else FileSystem.disk.write other text }

/-- The run ends with the failure, and what it leaves passes a check. -/
def endsWith (run : Except Failure RunResponse × FileSystem) (failure : Failure)
    (check : FileSystem → Bool) : Bool :=
  match run.1 with
  | .error e => decide (e = failure) && check run.2
  | .ok _ => false

theorem of_endsWith {run : Except Failure RunResponse × FileSystem} {check : FileSystem → Bool}
    (h : endsWith run failure check = true) :
    run = (.error failure, run.2) ∧ check run.2 = true := by
  obtain ⟨_ | _, fs⟩ := run
  · simpa [endsWith] using h
  · cases h

/-- The second of two trees cannot be written: because the file of the first is where a directory
would have to be, or because the disk is full.  The first stays. -/
theorem failed_of_run_second :
    let value (second : String) : Json := .arr [.str "Bundle", .obj [], .arr [
      .arr [.str "SourceFile", .obj [("fileName", .str "a")]],
      .arr [.str "SourceFile", .obj [("fileName", .str second)]]]]
    let start (second : String) : FileSystem :=
      ⟨[(["in.json"], .file (value second).compact.toUTF8)], []⟩
    let request : RunRequest := ⟨"in.json", ["scope-to-this"], some "out", .defaults⟩
    (∃ fs', runRecipes FileSystem.disk .builtin request (start "a.json/b")
        = (.error (.writeFailed "out/a.json/b.json" FileError.alreadyExists.message), fs') ∧
      fs'.isDirectory "out/a.json" = false ∧ (fs'.read "out/a.json").isOk = true ∧
      Failed .builtin request "out" (start "a.json/b")
        (.writeFailed "out/a.json/b.json" FileError.alreadyExists.message) fs') ∧
    ∃ fs', runRecipes (fullAt "out/b.json") .builtin request (start "b")
        = (.error (.writeFailed "out/b.json" "No space left on device (os error 28)"), fs') ∧
      (fs'.read "out/a.json").isOk = true ∧
      Stopped (fullAt "out/b.json") .builtin request "out" (start "b")
        (.writeFailed "out/b.json" "No space left on device (os error 28)") fs' := by
  intro value start request
  constructor
  · let run := runRecipes FileSystem.disk .builtin request (start "a.json/b")
    have ends : endsWith run (.writeFailed "out/a.json/b.json" FileError.alreadyExists.message)
        (fun fs' => !fs'.isDirectory "out/a.json" && (fs'.read "out/a.json").isOk) = true := by
      decide +kernel
    obtain ⟨failed, left⟩ := of_endsWith ends
    obtain ⟨notDirectory, file⟩ := Bool.and_eq_true_iff.mp left
    refine ⟨run.2, failed, by simpa using notDirectory, file, ?_⟩
    exact (failed_of_run rfl).2 _ _ failed
  · let run := runRecipes (fullAt "out/b.json") .builtin request (start "b")
    have ends : endsWith run (.writeFailed "out/b.json" "No space left on device (os error 28)")
        (fun fs' => (fs'.read "out/a.json").isOk) = true := by
      decide +kernel
    obtain ⟨failed, file⟩ := of_endsWith ends
    exact ⟨run.2, failed, file, (failed_of_run rfl).1 _ _ _ failed⟩

end Run

end TreeRewrite
