import TreeRewrite.Proofs.Storage.Neighbours
import TreeRewrite.Run

/-!
# The names of outputs

The names of the trees decide which files they go into, and they come from the trees.  They are
checked before anything is written: each must be a plain path and none may occur twice.  What the
check is good for is that nothing is written outside of the directory.  What it does not do is to
keep the files apart, since it compares the names as texts, and different texts may say the same.

## What is here

* `Run.checkNames_eq_ok` — which names are accepted.
* `Run.components_outputPath`, `Run.place_fileName` — the file for a name: it is below the
  directory, and the suffix belongs to the last piece of the name.  `Run.eq_of_place_eq`: only names
  that are not tidy share a file.
* `Disk.AgreeNear` — disks that do the same near a directory; `Disk.AgreeNear.deliver` says that
  trees are written alike to both.
* `Run.outputs_stay_below` — **accepted names keep outputs below the directory**.
* `Run.accepted_outputs` — **what clashes among accepted names and what does not**, with
  `Run.accepted_names_clash` for two that do.
-/

set_option autoImplicit false

namespace TreeRewrite

namespace Run

open TreeRewrite.Path (Component segments components names isPlain)

variable {dir name a b : String} {outputs : List String}

/-! ## Names that are accepted -/

/-- **Names are accepted** if they are plain and no two of them are the same. -/
theorem checkNames_eq_ok {seen : List String} : checkNames dir seen outputs = .ok () ↔
    (∀ name ∈ outputs, isPlain name = true) ∧ outputs.Nodup ∧ ∀ name ∈ outputs, name ∉ seen := by
  induction outputs generalizing seen with
  | nil => simp [checkNames]
  | cons name rest ih =>
    rw [checkNames]
    split
    · next refused =>
      have notPlain : isPlain name = false := by simpa using refused
      simp [notPlain]
    · next plain =>
      split
      · next again =>
        have mem : name ∈ seen := by simpa using again
        simp [mem]
      · next new =>
        have away : name ∉ seen := by simpa using new
        have plain : isPlain name = true := by simpa using plain
        rw [ih, List.forall_mem_cons, List.forall_mem_cons, List.nodup_cons]
        simp only [List.mem_cons, not_or, plain, away, true_and, not_false_eq_true]
        grind

theorem plain_of_checkNames (accepted : checkNames dir [] outputs = .ok ()) :
    ∀ name ∈ outputs, isPlain name = true := (checkNames_eq_ok.mp accepted).1

/-! ## The files that names stand for -/

theorem exists_segments (name : String) : ∃ front last,
    segments name.toList = front ++ [last] ∧
      segments (name ++ ".json").toList = front ++ [last ++ ".json".toList] := by
  rw [String.toList_append]
  exact Path.segments_append name.toList (by decide)

theorem name?_fileName (last : List Char) :
    Path.name? (last ++ ".json".toList) = some (String.ofList last ++ ".json") := by
  rw [Path.name?_of_long (by rw [List.length_append]; exact Nat.lt_add_left _ (by decide)),
    String.ofList_append, String.ofList_toList]

/-- The file of a plain name is one below the directory. -/
theorem inner_fileName (plain : isPlain name = true) : Path.Inner (name ++ ".json") := by
  obtain ⟨front, last, -, eq⟩ := exists_segments name
  exact ⟨Path.isPlain_append (by decide) (by decide) plain, _, _, eq, by rw [name?_fileName]; rfl⟩

/-- The suffix belongs to the last piece of a name, whatever that is. -/
theorem place_fileName {front : List (List Char)} {last : List Char}
    (h : segments name.toList = front ++ [last]) :
    Path.place (name ++ ".json") = names front ++ [String.ofList last ++ ".json"] := by
  obtain ⟨front', last', eq, eq'⟩ := exists_segments name
  obtain ⟨rfl, same⟩ := List.append_inj' (h.symm.trans eq) rfl
  obtain rfl := List.singleton_inj.mp same
  rw [Path.place, eq', names, names, List.filterMap_append, List.filterMap_cons, name?_fileName]
  rfl

theorem place_fileName_ne_nil (name : String) : Path.place (name ++ ".json") ≠ [] := by
  obtain ⟨front, last, eq, -⟩ := exists_segments name
  rw [place_fileName eq]
  exact List.concat_ne_nil _ _

/-- **The file for a plain name** is below the directory. -/
theorem components_outputPath (dir : String) (plain : isPlain name = true) :
    components (outputPath dir name)
      = components dir ++ (Path.place (name ++ ".json")).map .name :=
  Path.components_join dir (inner_fileName plain).plain

theorem components_outputPath_below (plain_a : isPlain a = true) (plain_b : isPlain b = true) :
    components (outputPath dir a) <+: components (outputPath dir b) ↔
      Path.place (a ++ ".json") <+: Path.place (b ++ ".json") := by
  rw [components_outputPath dir plain_a, components_outputPath dir plain_b,
    List.prefix_append_right_inj]
  exact (List.prefix_map_iff_of_injective fun _ _ h => Component.name.inj h)

theorem components_outputPath_inj (plain_a : isPlain a = true) (plain_b : isPlain b = true) :
    components (outputPath dir a) = components (outputPath dir b) ↔
      Path.place (a ++ ".json") = Path.place (b ++ ".json") := by
  rw [components_outputPath dir plain_a, components_outputPath dir plain_b,
    List.append_cancel_left_eq]
  exact List.map_inj_right fun _ _ h => Component.name.inj h

/-- **Tidy names stand for files of their own.** -/
theorem eq_of_place_eq (tidy_a : Path.Tidy a) (tidy_b : Path.Tidy b)
    (h : Path.place (a ++ ".json") = Path.place (b ++ ".json")) : a = b := by
  obtain ⟨front_a, last_a, eq_a, -⟩ := exists_segments a
  obtain ⟨front_b, last_b, eq_b, -⟩ := exists_segments b
  rw [Path.Tidy, eq_a, List.forall_mem_append] at tidy_a
  rw [Path.Tidy, eq_b, List.forall_mem_append] at tidy_b
  rw [place_fileName eq_a, place_fileName eq_b] at h
  obtain ⟨front, last⟩ := List.append_inj' h rfl
  obtain rfl : last_a = last_b := by
    simpa using congrArg String.toList (List.singleton_inj.mp last)
  rw [Path.names_of_forall tidy_a.1, Path.names_of_forall tidy_b.1] at front
  have inj : Function.Injective String.ofList := fun s t h => String.ofList_injective h
  obtain rfl := inj.list_map front
  exact String.toList_inj.mp (Path.segments_injective (eq_a.trans eq_b.symm))

/-! ## What is touched -/

theorem below_outputPath (dir : String) (plain : isPlain name = true) :
    Path.Below dir (outputPath dir name) :=
  ⟨_, place_fileName_ne_nil name, components_outputPath dir plain⟩

end Run

variable {dir : String}

/-- Do two disks write the same files below a directory, and create the same directories below it
and above? -/
structure Disk.AgreeNear {m : Type → Type} (dir : String) (disk other : Disk m) : Prop where
  write (path text : String) (below : Path.Below dir path) :
    other.write path text = disk.write path text
  makeDirectory (path : String) (near : Path.Near dir path) :
    other.makeDirectory path = disk.makeDirectory path
  isDirectory (path : String) (near : Path.Near dir path) :
    other.isDirectory path = disk.isDirectory path

section

variable {m : Type → Type} [Monad m] {disk other : Disk m} (agree : Disk.AgreeNear dir disk other)
include agree

theorem Disk.AgreeNear.settle {path : String} (near : Path.Near dir path)
    (result : Except FileError Unit) : other.settle path result = disk.settle path result := by
  unfold Disk.settle
  rw [agree.isDirectory path near]

theorem Disk.AgreeNear.makeDirectories {paths : List String}
    (near : ∀ path ∈ paths, Path.Near dir path) :
    other.makeDirectories paths = disk.makeDirectories paths := by
  induction paths with
  | nil => rfl
  | cons path above ih =>
    obtain ⟨here, later⟩ := List.forall_mem_cons.mp near
    simp only [Disk.makeDirectories, agree.makeDirectory path here, agree.settle here, ih later]

/-- **Files below a directory are written alike.** -/
theorem Disk.AgreeNear.deliver {entries : List (String × Tree)} (kinds : KindTable)
    (plain : ∀ entry ∈ entries, Path.isPlain entry.1 = true) :
    Run.deliver other kinds (some dir) entries = Run.deliver disk kinds (some dir) entries := by
  induction entries with
  | nil => rfl
  | cons entry rest ih =>
    obtain ⟨here, later⟩ := List.forall_mem_cons.mp plain
    have parents : other.makeParents (Run.outputPath dir entry.1)
        = disk.makeParents (Run.outputPath dir entry.1) :=
      agree.makeDirectories fun _ mem => Path.near_of_mem_above (Run.inner_fileName here) mem
    simp only [Run.deliver, Run.written, parents, ih later,
      agree.write _ _ (Run.below_outputPath dir here)]

end

namespace Run

/-- **Outputs stay below their directory.**  Names are accepted only if all that they say is names,
which goes on to hold behind the suffix, so the files for them are below the directory, and the
directories on the way to these files are on the way to the directory or below it as well.  Nothing
else is written or created: on a disk that does the same near the directory, whatever it does
elsewhere, writing the trees with these names is the same. -/
theorem outputs_stay_below {outputs : List String}
    (accepted : checkNames dir [] outputs = .ok ()) :
    (∀ name ∈ outputs,
      (∃ ns, ns ≠ [] ∧ Path.components name = ns.map .name) ∧
      (∃ ns, ns ≠ [] ∧ Path.components (name ++ ".json") = ns.map .name) ∧
      Path.Below dir (outputPath dir name) ∧
      ∀ path ∈ Path.above (outputPath dir name), Path.Near dir path) ∧
    ∀ (m : Type → Type) [Monad m] (disk other : Disk m), Disk.AgreeNear dir disk other →
      ∀ (kinds : KindTable) (entries : List (String × Tree)), entries.map Prod.fst = outputs →
        deliver other kinds (some dir) entries = deliver disk kinds (some dir) entries := by
  have plain := plain_of_checkNames accepted
  refine ⟨fun name mem => ?_, ?_⟩
  · have inner := inner_fileName (plain name mem)
    exact ⟨Path.exists_names (plain name mem), Path.exists_names inner.plain,
      below_outputPath dir (plain name mem), fun _ => Path.near_of_mem_above inner⟩
  · rintro m _ disk other agree kinds entries rfl
    exact agree.deliver kinds (List.forall_mem_map.mp plain)

/-- Two trees, one of them in a directory of its own, are written as well to a disk that refuses
whatever is away from the directory. -/
theorem outputs_stay_below_fence :
    let disk : Disk (StateM FileSystem) := FileSystem.disk
    let inside (path : String) : Bool := (Path.components "out").isPrefixOf (Path.components path)
    let outside (path : String) : Bool := (Path.components path).isPrefixOf (Path.components "out")
    let other : Disk (StateM FileSystem) :=
      { disk with
        write := fun path text =>
          if inside path then disk.write path text else return .error .notFound
        makeDirectory := fun path =>
          if inside path || outside path then disk.makeDirectory path else return .error .notFound }
    let entries : List (String × Tree) :=
      [("src/./app.ts", ⟨⟨265⟩, [], []⟩), ("a", ⟨⟨265⟩, [], []⟩)]
    checkNames "out" [] ["src/./app.ts", "a"] = .ok () ∧
      Path.components (outputPath "out" "src/./app.ts")
        = [.name "out", .name "src", .name "app.ts.json"] ∧
      (∀ name ∈ ["src/./app.ts", "a"], Path.Below "out" (outputPath "out" name)) ∧
      deliver other .builtin (some "out") entries
        = deliver disk .builtin (some "out") entries := by
  intro disk inside outside other entries
  have accepted : checkNames "out" [] ["src/./app.ts", "a"] = .ok () := by decide
  obtain ⟨stay, same⟩ := outputs_stay_below accepted
  have below {path : String} (h : Path.Below "out" path) : inside path = true := by
    obtain ⟨ns, -, eq⟩ := h
    exact List.isPrefixOf_iff_prefix.mpr (eq ▸ List.prefix_append _ _)
  refine ⟨accepted, by decide, fun name mem => (stay name mem).2.2.1, ?_⟩
  refine same _ disk other ⟨fun path text h => if_pos (below h), fun path near => if_pos ?_,
    fun _ _ => rfl⟩ .builtin entries rfl
  rcases near with above | h
  · rw [show outside path = true from List.isPrefixOf_iff_prefix.mpr above, Bool.or_true]
  · rw [below h, Bool.true_or]

/-! ## Clashes -/

section

variable {outputs : List String} {fs fs' : FileSystem} {text : String → String}

/-- The files for outputs, with their texts. -/
def files (dir : String) (text : String → String) (outputs : List String) :
    List (String × String) :=
  outputs.map fun name => (outputPath dir name, text name)

theorem files_eq : files dir text outputs =
    (outputs.map fun name => (name ++ ".json", text name)).map
      fun file => (Path.join dir file.1, file.2) := by
  rw [files, List.map_map]
  rfl

theorem target_outputPath {name : String} (fs : FileSystem) (dir : String)
    (plain : Path.isPlain name = true) :
    fs.target (outputPath dir name) = fs.within dir ++ Path.place (name ++ ".json") :=
  FileSystem.target_join fs dir (inner_fileName plain).plain

theorem target_outputPath_inj {a b : String} (plain_a : Path.isPlain a = true)
    (plain_b : Path.isPlain b = true) :
    fs.target (outputPath dir a) = fs.target (outputPath dir b) ↔
      Path.components (outputPath dir a) = Path.components (outputPath dir b) := by
  rw [target_outputPath fs dir plain_a, target_outputPath fs dir plain_b,
    List.append_cancel_left_eq, components_outputPath_inj plain_a plain_b]

/-- Every file holds the text of the last of the outputs that it stands for. -/
theorem read_of_stores (plain : ∀ name ∈ outputs, Path.isPlain name = true)
    (h : FileSystem.disk.Stores (files dir text outputs) fs fs') {before later : List String}
    {last : String} (split : outputs = before ++ last :: later)
    (isLast : ∀ other ∈ later, Path.components (outputPath dir other)
      ≠ Path.components (outputPath dir last))
    {name : String} (mem : name ∈ outputs) (same : Path.components (outputPath dir name)
      = Path.components (outputPath dir last)) :
    fs'.read (outputPath dir name) = .ok (text last) := by
  have plain_last : Path.isPlain last = true := plain last (by rw [split]; simp)
  have mem_file : (outputPath dir name, text name) ∈ files dir text outputs :=
    List.mem_map_of_mem mem
  have target : fs.target (outputPath dir name) = fs.target (outputPath dir last) :=
    (target_outputPath_inj (plain name mem) plain_last).mpr same
  rw [files, split, List.map_append, List.map_cons] at h mem_file
  have away : ∀ file ∈ files dir text later,
      fs.target file.1 ≠ fs.target (outputPath dir last) := by
    refine List.forall_mem_map.mpr fun other ho => ?_
    have plain_other : Path.isPlain other = true :=
      plain other (by rw [split]; exact List.mem_append_right _ (List.mem_cons_of_mem _ ho))
    rw [ne_eq, target_outputPath_inj plain_other plain_last]
    exact isLast other ho
  have read := FileSystem.read_of_stores h away mem_file target
  exact read

/-- Outputs are all stored if each of them can be and none is on the way to another. -/
theorem exists_stores (here : fs.isDirectory dir = true)
    (plain : ∀ name ∈ outputs, Path.isPlain name = true)
    (apart : outputs.Pairwise fun a b => FileSystem.Apart (a ++ ".json") (b ++ ".json"))
    (alone : ∀ name ∈ outputs, ∃ fs', FileSystem.disk.Stores (files dir text [name]) fs fs') :
    ∃ fs', FileSystem.disk.Stores (files dir text outputs) fs fs' := by
  rw [files_eq]
  exact FileSystem.exists_stores_of_apart (FileSystem.paved_of_isDirectory here)
    (List.forall_mem_map.mpr fun name mem => inner_fileName (plain name mem))
    (List.pairwise_map.mpr apart)
    (List.forall_mem_map.mpr fun name mem =>
      FileSystem.accepts_of_stores (alone name mem).choose_spec)

end

/-- **When accepted names clash.**  The file for a name is below the directory by the names that its
pieces say, with the suffix behind the last piece, so only names that are not tidy can share a file.
If no file is the same as another or on the way to it, then all texts are stored in a directory in
which each of them can be, and each file holds its own.  If some are, then not all texts are
stored or a file holds no more than the last of those that went into it. -/
theorem accepted_outputs {outputs : List String}
    (accepted : checkNames dir [] outputs = .ok ()) :
    let onWay (a b : String) : Prop :=
      Path.components (outputPath dir a) <+: Path.components (outputPath dir b)
    let same (a b : String) : Prop :=
      Path.components (outputPath dir a) = Path.components (outputPath dir b)
    (∀ name ∈ outputs, ∀ front last, Path.segments name.toList = front ++ [last] →
      Path.components (outputPath dir name) = Path.components dir
        ++ (Path.names front ++ [String.ofList last ++ ".json"]).map .name) ∧
    (∀ a ∈ outputs, ∀ b ∈ outputs, Path.Tidy a → Path.Tidy b → same a b → a = b) ∧
    ∀ (fs : FileSystem) (text : String → String),
      (fs.isDirectory dir = true → (outputs.Pairwise fun a b => ¬ onWay a b ∧ ¬ onWay b a) →
        (∀ name ∈ outputs, ∃ fs', FileSystem.disk.Stores (files dir text [name]) fs fs') →
        ∃ fs', FileSystem.disk.Stores (files dir text outputs) fs fs' ∧
          ∀ name ∈ outputs, fs'.read (outputPath dir name) = .ok (text name)) ∧
      ∀ fs', FileSystem.disk.Stores (files dir text outputs) fs fs' →
        (∀ a ∈ outputs, ∀ b ∈ outputs, onWay a b → same a b) ∧
        ∀ before last later, outputs = before ++ last :: later →
          (∀ other ∈ later, ¬ same other last) → ∀ name ∈ outputs, same name last →
            fs'.read (outputPath dir name) = .ok (text last) := by
  intro onWay same
  have plain := plain_of_checkNames accepted
  refine ⟨fun name mem front last split => ?_, fun a mem_a b mem_b tidy_a tidy_b eq => ?_, ?_⟩
  · rw [components_outputPath dir (plain name mem), place_fileName split]
  · exact eq_of_place_eq tidy_a tidy_b
      ((components_outputPath_inj (plain a mem_a) (plain b mem_b)).mp eq)
  intro fs text
  refine ⟨fun here apart alone => ?_, fun fs' stored => ⟨fun a mem_a b mem_b onWay => ?_, ?_⟩⟩
  · have places : outputs.Pairwise fun a b => FileSystem.Apart (a ++ ".json") (b ++ ".json") := by
      refine apart.imp_of_mem fun mem_a mem_b h => ⟨fun before => h.1 ?_, fun before => h.2 ?_⟩
      · exact (components_outputPath_below (plain _ mem_a) (plain _ mem_b)).mpr before
      · exact (components_outputPath_below (plain _ mem_b) (plain _ mem_a)).mpr before
    obtain ⟨fs', stored⟩ := exists_stores here plain places alone
    refine ⟨fs', stored, fun name mem => ?_⟩
    obtain ⟨before, later, split⟩ := List.append_of_mem mem
    refine read_of_stores plain stored split (fun other ho eq => ?_) mem rfl
    rw [split] at apart
    have away := List.rel_of_pairwise_cons (List.pairwise_append.mp apart).2.1 ho
    exact away.2 ⟨[], (List.append_nil _).trans eq⟩
  · rw [files_eq] at stored
    refine (components_outputPath_inj (plain a mem_a) (plain b mem_b)).mpr ?_
    exact FileSystem.place_eq_of_stores stored (List.mem_map_of_mem mem_a)
      (List.mem_map_of_mem mem_b) (inner_fileName (plain a mem_a)).plain
      (inner_fileName (plain b mem_b)).plain
      ((components_outputPath_below (plain a mem_a) (plain b mem_b)).mp onWay)
  · exact fun before last later split isLast name mem =>
      read_of_stores plain stored split isLast mem

/-- Two names that are accepted, one of them with a dot between slashes, stand for files of their
own, which are stored in a directory that was empty. -/
theorem accepted_outputs_apart :
    let fs : FileSystem := ⟨[(["out"], .directory)], []⟩
    checkNames "out" [] ["a/b", "a/./c"] = .ok () ∧
      Path.components (outputPath "out" "a/./c")
        = [.name "out", .name "a", .name "c.json"] ∧
      ∃ fs', FileSystem.disk.Stores (files "out" id ["a/b", "a/./c"]) fs fs' ∧
        ∀ name ∈ ["a/b", "a/./c"], fs'.read (outputPath "out" name) = .ok name := by
  intro fs
  have accepted : checkNames "out" [] ["a/b", "a/./c"] = .ok () := by decide
  obtain ⟨-, -, clash⟩ := accepted_outputs accepted
  refine ⟨accepted, by decide, (clash fs id).1 (by decide +kernel) (by decide) fun name mem => ?_⟩
  have stores (parents : (FileSystem.disk.makeParents (outputPath "out" name) fs).1 = .ok ())
      (file : (FileSystem.disk.write (outputPath "out" name) name
        (FileSystem.disk.makeParents (outputPath "out" name) fs).2).1 = .ok ()) :
      ∃ fs', FileSystem.disk.Stores (files "out" id [name]) fs fs' :=
    ⟨_, .of_fst parents file (.nil _)⟩
  rcases List.mem_pair.mp mem with rfl | rfl
  · exact stores (by decide +kernel) (by decide +kernel)
  · exact stores (by decide +kernel) (by decide +kernel)

/-- **Accepted names may clash.**  Two names that differ in a second slash stand for one file, which
ends up with the text of the second, and after the file for `a` there is no directory for
`a.json/b`. -/
theorem accepted_names_clash :
    let fs : FileSystem := ⟨[(["out"], .directory)], []⟩
    (checkNames "out" [] ["a/b", "a//b"] = .ok () ∧
      Path.components (outputPath "out" "a/b") = Path.components (outputPath "out" "a//b") ∧
      ∃ fs', FileSystem.disk.Stores (files "out" id ["a/b", "a//b"]) fs fs' ∧
        fs'.read (outputPath "out" "a/b") = .ok "a//b") ∧
    checkNames "out" [] ["a", "a.json/b"] = .ok () ∧
      Path.components (outputPath "out" "a")
        <+: Path.components (outputPath "out" "a.json/b") ∧
      ∃ between fs', FileSystem.disk.Stores (files "out" id ["a"]) fs between ∧
        FileSystem.disk.Fails (outputPath "out" "a.json/b") "a.json/b" between .alreadyExists
          fs' := by
  intro fs
  refine ⟨⟨?_, ?_, _, .of_fst ?_ ?_ (.of_fst ?_ ?_ (.nil _)), ?_⟩, ?_, ?_, _, _,
    .of_fst ?_ ?_ (.nil _), .of_fst ?_⟩
  all_goals decide +kernel

end Run

end TreeRewrite
