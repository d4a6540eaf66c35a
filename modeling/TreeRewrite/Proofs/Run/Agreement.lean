import TreeRewrite.Proofs.Run.Deliveries

/-!
# Written and inlined trees

A run with a directory writes texts into files, and one without puts values into its response.  Both
come from the same trees: the text in a file is read back as the tree, if it can be held and has no
floats, and this holds of what recipes make if it holds of what they are given.

## What is here

* `Run.runRecipes_without` — the same trees are delivered without a directory.
* `Run.Inlined`, `Run.Found` — a tree is in the response, and a tree is read back from its file.
* `Run.read_of_stores_encoded` — every tree is in its file, if no two share one.
* `Run.written_and_inlined_agree` — **the files of the one run hold the trees of the other**.
-/

set_option autoImplicit false

namespace TreeRewrite.Run

open TreeRewrite.Path (components)

variable {σ : Type} {disk : Disk (StateM σ)} {kinds : KindTable} {request : RunRequest} {s : σ}
  {dir : String} {entries : List (String × Tree)} {files : List (String × String)}

/-! ## What is prepared -/

/-- Without a directory the same is prepared, for no names are checked. -/
theorem prepared_without {input : Except FileError String} {made : List String × Bundle}
    (h : prepared kinds request input = .ok made) :
    prepared kinds { request with outputDir? := none } input = .ok made := by
  obtain ⟨some, text, input_eq, rewritten, -⟩ := prepared_eq_ok.mp h
  exact prepared_eq_ok.mpr ⟨some, text, input_eq, rewritten, rfl⟩

/-- The run without a directory delivers the same trees. -/
theorem runRecipes_without {input : Except FileError String} {made : List String × Bundle}
    (reads : disk.read request.input s = (input, s))
    (h : prepared kinds request input = .ok made) :
    runRecipes disk kinds { request with outputDir? := none } s
      = (respond request made.1 <$> deliver disk kinds none made.2.entries :
        ExceptT Failure (StateM σ) RunResponse) s := by
  have reads' : disk.read ({ request with outputDir? := none } : RunRequest).input s = (input, s) :=
    reads
  exact runRecipes_of_ok reads' (prepared_without h)

/-! ## Delivery without a directory -/

/-- What the response holds for a tree that is not written. -/
def Inlined (kinds : KindTable) (entry : String × Tree) (output : OutputTree) : Prop :=
  ∃ value, entry.2.toJson kinds = .ok value ∧
    output = { name := entry.1, nodes := .ofNat entry.2.count, tree? := some value }

theorem exists_deliver_none (disk : Disk (StateM σ)) (s : σ)
    (known : ∀ entry ∈ entries, entry.2.Known kinds) : ∃ outputs,
      deliver disk kinds none entries s = (.ok outputs, s) ∧
        List.Forall₂ (Inlined kinds) entries outputs := by
  induction entries with
  | nil => exact ⟨[], rfl, .nil⟩
  | cons entry rest ih =>
    obtain ⟨here, later⟩ := List.forall_mem_cons.mp known
    obtain ⟨value, value_eq⟩ := Tree.exists_toJson here
    obtain ⟨outputs, delivered, inlined_rest⟩ := ih later
    refine ⟨_ :: outputs, ?_, .cons ⟨value, value_eq, rfl⟩ inlined_rest⟩
    rw [deliver, inlined, value_eq]
    exact Eager.bind_of_ok delivered _

/-! ## Reading what was written -/

theorem encoded_append {more : List (String × Tree)}
    (h : encoded kinds dir (entries ++ more) = .ok files) : ∃ first rest,
      encoded kinds dir entries = .ok first ∧ encoded kinds dir more = .ok rest ∧
        files = first ++ rest := by
  rw [encoded, List.mapM_append] at h
  obtain ⟨first, front, h⟩ := bind_eq_ok.mp h
  obtain ⟨rest, later, ⟨⟩⟩ := bind_eq_ok.mp h
  exact ⟨first, rest, front, later, rfl⟩

theorem path_of_mem_encoded (h : encoded kinds dir entries = .ok files) :
    ∀ file ∈ files, ∃ entry ∈ entries, file.1 = outputPath dir entry.1 := by
  intro file mem
  obtain ⟨entry, entry_mem, eq⟩ := exists_of_mem_mapM h file mem
  obtain ⟨text, -, ⟨⟩⟩ := bind_eq_ok.mp eq
  exact ⟨entry, entry_mem, rfl⟩

/-- Every tree is in its file, if no two of them share one. -/
theorem read_of_stores_encoded {fs fs' : FileSystem}
    (plain : ∀ entry ∈ entries, Path.isPlain entry.1 = true)
    (texts : encoded kinds dir entries = .ok files)
    (apart : entries.Pairwise fun a b =>
      components (outputPath dir a.1) ≠ components (outputPath dir b.1))
    (stored : FileSystem.disk.Stores files fs fs') :
    ∀ entry ∈ entries, ∃ text, entry.2.write kinds = .ok text ∧
      fs'.read (outputPath dir entry.1) = .ok (text ++ "\n") := by
  intro entry mem
  obtain ⟨before, after, rfl⟩ := List.append_of_mem mem
  obtain ⟨first, more, -, behind, rfl⟩ := encoded_append texts
  obtain ⟨text, rest, written, later, rfl⟩ := encoded_cons.mp behind
  refine ⟨text, written, ?_⟩
  have away : ∀ file ∈ rest, fs.target file.1 ≠ fs.target (outputPath dir entry.1) := by
    intro file hf
    obtain ⟨other, ho, eq⟩ := path_of_mem_encoded later file hf
    have plain_other := plain other (List.mem_append_right _ (List.mem_cons_of_mem _ ho))
    rw [eq, ne_eq, target_outputPath_inj plain_other (plain entry mem)]
    exact (List.rel_of_pairwise_cons (List.pairwise_append.mp apart).2.1 ho).symm
  have read := FileSystem.read_of_stores stored away
    (List.mem_append_right _ List.mem_cons_self) rfl
  exact read

/-! ## Runs with and without a directory -/

/-- Does the response of a run into a directory say of a tree what the response of a run without one
does?  The file at the path holds a text that is read as a tree, and this tree is counted in the
one response and is in the other. -/
def SameTree (kinds : KindTable) (fs : FileSystem) (output inlined : OutputTree) : Prop :=
  inlined.name = output.name ∧ inlined.nodes = output.nodes ∧ ∃ path text t value,
    output.path? = some path ∧ fs.read path = .ok text ∧ Tree.read kinds text = .ok t ∧
      output.nodes = .ofNat t.count ∧ t.toJson kinds = .ok value ∧ inlined.tree? = some value

/-- Is a tree read back from its file? -/
def Found (kinds : KindTable) (dir : String) (fs : FileSystem) (entry : String × Tree) : Prop :=
  ∃ text, fs.read (outputPath dir entry.1) = .ok text ∧ Tree.read kinds text = .ok entry.2

theorem Found.sameTree {fs : FileSystem} {entry : String × Tree} {inlined : OutputTree}
    (found : Found kinds dir fs entry) (h : Inlined kinds entry inlined) :
    SameTree kinds fs (outputOf dir entry) inlined := by
  obtain ⟨text, file, tree⟩ := found
  obtain ⟨value, value_eq, rfl⟩ := h
  exact ⟨rfl, rfl, _, text, entry.2, value, rfl, file, tree, rfl, value_eq, rfl⟩

/-- **Written and inlined trees agree.**  If a run into a directory succeeds, the tree that it reads
has no floats, and the paths that it writes to are different paths, then the same run without a
directory succeeds and changes nothing.  The two responses list the same recipes, feed and outputs,
and every file holds the text of the tree that the other response holds. -/
theorem written_and_inlined_agree {fs fs' : FileSystem} {response : RunResponse}
    (into : request.outputDir? = some dir)
    (float_free : ∀ text t, fs.read request.input = .ok text → Tree.read kinds text = .ok t →
      t.FloatFree)
    (ran : runRecipes FileSystem.disk kinds request fs = (.ok response, fs'))
    (apart : response.outputs.Pairwise fun a b =>
      a.path?.map components ≠ b.path?.map components) :
    ∃ other, runRecipes FileSystem.disk kinds { request with outputDir? := none } fs
        = (.ok other, fs) ∧
      other.stages = response.stages ∧ other.bundleFeed = response.bundleFeed ∧
      List.Forall₂ (SameTree kinds fs') response.outputs other.outputs := by
  have reads : FileSystem.disk.read request.input fs = (fs.read request.input, fs) := rfl
  cases right : prepared kinds request (fs.read request.input) with
  | error wrong =>
    rw [runRecipes_of_error reads right] at ran
    cases ran
  | ok made =>
    obtain ⟨-, text, input_eq, rewritten, accepted⟩ := prepared_eq_ok.mp right
    obtain ⟨t, p, output, read, built, run, rfl⟩ := of_rewriteText_eq_ok rewritten
    have known := List.forall_mem_map.mp (known_of_prepared right)
    have held := List.forall_mem_map.mp (Recipe.canonical_floatFree_of_run built
      (Tree.read_spec read).2 (float_free text t input_eq read) run)
    -- the run into the directory has stored the texts of all trees
    rw [runRecipes_of_ok reads right, into, map_eq_pure_bind] at ran
    obtain ⟨outputs, _, delivered, ⟨⟩⟩ := Eager.of_bind_eq_ok ran
    obtain ⟨files, texts⟩ := exists_encoded dir known
    obtain ⟨stored, rfl⟩ := of_deliver_eq_ok texts delivered
    rw [checked, into] at accepted
    have plain := List.forall_mem_map.mp (plain_of_checkNames accepted)
    have there := read_of_stores_encoded plain texts
      ((List.pairwise_map.mp apart).imp fun h same => h (congrArg some same)) stored
    -- so each of these trees is read back from its file
    have found : ∀ entry ∈ output.toBundle.entries, Found kinds dir fs' entry := by
      intro entry mem
      obtain ⟨text, written, file⟩ := there entry mem
      exact ⟨text ++ "\n", file, Tree.read_line_of_write (known entry mem) (held entry mem).1
        (held entry mem).2 written⟩
    -- without a directory the same trees are put into the response
    obtain ⟨inlined, delivered', same⟩ := exists_deliver_none FileSystem.disk fs known
    refine ⟨respond request p.names inlined, ?_, rfl, rfl, ?_⟩
    · rw [runRecipes_without reads right, map_eq_pure_bind]
      exact Eager.bind_of_ok delivered' _
    · show List.Forall₂ _ (output.toBundle.entries.map (outputOf dir)) inlined
      rw [List.forall₂_map_left_iff]
      have both := (List.forall₂_and_left (p := Found kinds dir fs') _ _).mpr ⟨found, same⟩
      exact both.imp fun _ _ h => h.1.sameTree h.2

/-- Two files of a bundle, one of them in a directory of its own. -/
theorem written_and_inlined_agree_bundle :
    let value : Json := .arr [.str "Bundle", .obj [], .arr [
      .arr [.str "SourceFile", .obj [("fileName", .str "a")]],
      .arr [.str "SourceFile", .obj [("fileName", .str "src/b")]]]]
    let fs : FileSystem := ⟨[(["in.json"], .file value.compact.toUTF8)], []⟩
    let request : RunRequest := ⟨"in.json", ["scope-to-this"], some "out", .defaults⟩
    ∃ response fs' other,
      runRecipes FileSystem.disk .builtin request fs = (.ok response, fs') ∧
      response.outputs.map (·.path?) = [some "out/a.json", some "out/src/b.json"] ∧
      runRecipes FileSystem.disk .builtin { request with outputDir? := none } fs
        = (.ok other, fs) ∧
      List.Forall₂ (SameTree .builtin fs') response.outputs other.outputs := by
  intro value fs request
  have outcome : (runRecipes FileSystem.disk .builtin request fs).1.map
      (fun response => response.outputs.map (·.path?))
        = .ok [some "out/a.json", some "out/src/b.json"] := by
    decide +kernel
  obtain ⟨response, ran, paths⟩ : ∃ response,
      (runRecipes FileSystem.disk .builtin request fs).1 = .ok response ∧
        response.outputs.map (·.path?) = [some "out/a.json", some "out/src/b.json"] := by
    cases h : (runRecipes FileSystem.disk .builtin request fs).1 with
    | error e => simp [h, Except.map] at outcome
    | ok response => exact ⟨response, rfl, by simpa [h, Except.map] using outcome⟩
  have file : fs.read "in.json" = .ok value.compact :=
    FileSystem.read_eq_ok.mpr ⟨by decide +kernel, _, by decide +kernel,
      FileSystem.fromUTF8?_toUTF8 _⟩
  have attrs (name : String) : (Json.obj [("fileName", .str name)]).Canonical :=
    Json.canonical_insert Json.canonical_empty trivial
  have tree : Tree.read .builtin value.compact
      = .ok ⟨⟨266⟩, [], [⟨⟨265⟩, [("fileName", .str "a")], []⟩,
        ⟨⟨265⟩, [("fileName", .str "src/b")], []⟩]⟩ := by
    have record : NodeRecord.ofJson value = .ok ⟨"Bundle", [],
        [⟨"SourceFile", [("fileName", .str "a")], []⟩,
          ⟨"SourceFile", [("fileName", .str "src/b")], []⟩]⟩ := rfl
    have value_free : value.FloatFree := by
      simp only [value, Json.FloatFree, Json.Every, Json.EveryItem, Json.EveryMember,
        Json.NotFloat, and_self]
    have read : NodeRecord.read value.compact = .ok _ :=
      Json.Reader.runAll_takes .tight fun fuel =>
        NodeRecord.reader_takes Json.Spacing.tight_loose fuel value _ record value_free
          ⟨Json.canonical_empty, ⟨attrs "a", trivial⟩, ⟨attrs "src/b", trivial⟩, trivial⟩
    rw [Tree.read, read]
    rfl
  have float_free : ∀ text t, fs.read request.input = .ok text → Tree.read .builtin text = .ok t →
      t.FloatFree := by
    rintro text t text_eq read
    obtain rfl := Except.ok.inj (file.symm.trans text_eq)
    obtain rfl := Except.ok.inj (tree.symm.trans read)
    simp [Tree.FloatFree, Tree.every_mk, Json.FloatFree, Json.Every, Json.EveryMember,
      Json.NotFloat]
  have apart : response.outputs.Pairwise fun a b =>
      a.path?.map components ≠ b.path?.map components := by
    have two : (response.outputs.map (·.path?)).Pairwise fun p q =>
        p.map components ≠ q.map components := by
      rw [paths]
      decide
    rwa [List.pairwise_map] at two
  obtain ⟨other, alone, -, -, same⟩ := written_and_inlined_agree rfl float_free (Prod.ext ran rfl)
    apart
  exact ⟨response, _, other, Prod.ext ran rfl, paths, alone, same⟩

end TreeRewrite.Run
