import TreeRewrite.Proofs.Storage.Directories

/-!
# Putting texts into files

Before a text is put into a file, the directories on the way to it are created.  Texts are put into
files one after the other, so one of them may replace another, and a file may be where a later text
needs a directory; nothing else goes on between them.

## What is here

* `Disk.Stores` — texts are put into files one after the other, and `Disk.Fails`, one of them cannot
  be; on any disk.
* `FileSystem.write_eq_ok`, `FileSystem.read_eq_ok` — when files are written and read.
* `FileSystem.Alters` — the new file system differs in some files, and has new directories in some
  places.  `FileSystem.alters_of_stores`: **putting texts into files changes nothing but these
  files** and adds the directories on the way to them.
* `FileSystem.read_of_stores` — **a file holds the last text that was put into it**.
* `FileSystem.gains_of_fails` — a text that cannot be put into a file leaves no more than
  directories.
-/

set_option autoImplicit false

namespace TreeRewrite

/-! ## Any disk -/

namespace Disk

variable {σ : Type} (disk : Disk (StateM σ))

/-- Texts are put into files, each after the directories that it needs, one after the other.  Every
operation succeeds; together they lead from a state of the disk to another. -/
inductive Stores : List (String × String) → σ → σ → Prop
  | nil (s : σ) : Stores [] s s
  | cons {path text : String} {rest : List (String × String)} {s between stored s' : σ}
      (parents : disk.makeParents path s = (.ok (), between))
      (file : disk.write path text between = (.ok (), stored)) (later : Stores rest stored s') :
      Stores ((path, text) :: rest) s s'

/-- A text cannot be put into a file: a directory that it needs cannot be created, or the file
cannot be written. -/
inductive Fails (path text : String) (s : σ) (e : FileError) (s' : σ) : Prop
  | parents (h : disk.makeParents path s = (.error e, s'))
  | file {between : σ} (parents : disk.makeParents path s = (.ok (), between))
      (h : disk.write path text between = (.error e, s'))

variable {disk}

/-- Operations that succeed put a text into a file, wherever they lead to. -/
theorem Stores.of_fst {path text : String} {rest : List (String × String)} {s s' : σ}
    (parents : (disk.makeParents path s).1 = .ok ())
    (file : (disk.write path text (disk.makeParents path s).2).1 = .ok ())
    (later : disk.Stores rest (disk.write path text (disk.makeParents path s).2).2 s') :
    disk.Stores ((path, text) :: rest) s s' :=
  .cons (Prod.ext parents rfl) (Prod.ext file rfl) later

theorem Fails.of_fst {path text : String} {s : σ} {e : FileError}
    (h : (disk.makeParents path s).1 = .error e) :
    disk.Fails path text s e (disk.makeParents path s).2 := .parents (Prod.ext h rfl)

theorem stores_append {files more : List (String × String)} {s s' : σ} :
    disk.Stores (files ++ more) s s' ↔
      ∃ between, disk.Stores files s between ∧ disk.Stores more between s' := by
  constructor
  · intro h
    induction files generalizing s with
    | nil => exact ⟨s, .nil s, h⟩
    | cons file files ih =>
      cases h with
      | cons parents written later =>
        obtain ⟨between, first, rest⟩ := ih later
        exact ⟨between, .cons parents written first, rest⟩
  · rintro ⟨between, first, rest⟩
    induction first with
    | nil => exact rest
    | cons parents written _ ih => exact .cons parents written (ih rest)

end Disk

/-! ## The file system -/

namespace FileSystem

variable {fs fs' between : FileSystem} {path text : String} {loc : Location}

theorem write_of_ok (h : fs.locate path = .ok loc) (notDir : fs.entry? loc ≠ some .directory) :
    disk.write path text fs = (.ok (), fs.put loc (.file text.toUTF8)) := by
  simp [disk, commit, write, h, notDir, bind, Except.bind, pure, Except.pure]

theorem write_eq_error {e : FileError} (h : disk.write path text fs = (.error e, fs')) :
    fs' = fs := by
  simp only [disk, commit] at h
  split at h
  · cases congrArg Prod.fst h
  · exact (congrArg Prod.snd h).symm

theorem write_eq_ok (h : disk.write path text fs = (.ok (), fs')) :
    fs.locate path = .ok (fs.target path) ∧ fs.entry? (fs.target path) ≠ some .directory ∧
      fs' = fs.put (fs.target path) (.file text.toUTF8) := by
  cases located : fs.locate path with
  | error e =>
    simp only [disk, commit, write, located, bind, Except.bind] at h
    cases congrArg Prod.fst h
  | ok loc =>
    obtain ⟨-, -, rfl⟩ := locate_eq_ok.mp located
    by_cases notDir : fs.entry? (fs.target path) = some .directory
    · simp only [disk, commit, write, located, notDir, bind, Except.bind, throw, throwThe,
        MonadExceptOf.throw, if_true] at h
      cases congrArg Prod.fst h
    · rw [write_of_ok located notDir] at h
      exact ⟨rfl, notDir, (congrArg Prod.snd h).symm⟩

/-! ### Texts in files -/

theorem fromUTF8?_toUTF8 (text : String) : String.fromUTF8? text.toUTF8 = some text := by
  rw [String.fromUTF8?, dif_pos (by simpa using text.isValidUTF8)]
  rfl

theorem read_eq_ok : fs.read path = .ok text ↔ fs.locate path = .ok (fs.target path) ∧
    ∃ content, fs.entry? (fs.target path) = some (.file content) ∧
      String.fromUTF8? content = some text := by
  constructor
  · intro h
    obtain ⟨loc, located, h⟩ := bind_eq_ok.mp h
    obtain ⟨-, -, rfl⟩ := locate_eq_ok.mp located
    refine ⟨located, ?_⟩
    split at h
    · cases h
    · cases h
    · next content file =>
      refine ⟨content, file, ?_⟩
      split at h
      · next text' decoded => exact decoded.trans (congrArg some (Except.ok.inj h))
      · cases h
  · rintro ⟨located, content, file, decoded⟩
    refine bind_eq_ok.mpr ⟨_, located, ?_⟩
    simp only [file, decoded]
    rfl

/-- The locations of the directories on the way to a path. -/
def Above (fs : FileSystem) (path : String) (loc : Location) : Prop :=
  ∃ directory ∈ Path.above path, loc = fs.target directory

theorem makeParents_gains (path : String) (fs : FileSystem) :
    Gains (fs.Above path) fs (disk.makeParents path fs).2 :=
  makeDirectories_gains (Path.above path) fs

/-! ### What changes -/

/-- Does the second file system differ from the first at most in some files and by new directories
in places where nothing was? -/
structure Alters (files places : Location → Prop) (fs fs' : FileSystem) : Prop where
  keeps : Keeps fs fs'
  elsewhere (loc : Location) (h : ¬ files loc) : fs'.entry? loc = fs.entry? loc ∨
    places loc ∧ fs.entry? loc = none ∧ fs'.entry? loc = some .directory

variable {files others places more : Location → Prop}

theorem Alters.refl (files places : Location → Prop) (fs : FileSystem) :
    Alters files places fs fs :=
  ⟨.refl fs, fun _ _ => .inl rfl⟩

theorem Alters.trans (h : Alters files places fs between) (h' : Alters files places between fs') :
    Alters files places fs fs' := by
  refine ⟨h.keeps.trans h'.keeps, fun loc away => ?_⟩
  rcases h'.elsewhere loc away with same | ⟨place, empty, new⟩
  · rw [same]
    exact h.elsewhere loc away
  · rcases h.elsewhere loc away with same | ⟨_, _, new'⟩
    · exact .inr ⟨place, same ▸ empty, new⟩
    · cases empty.symm.trans new'

theorem Alters.mono (h : Alters files places fs fs') (inFiles : ∀ loc, files loc → others loc)
    (inPlaces : ∀ loc, places loc → more loc) : Alters others more fs fs' :=
  ⟨h.keeps, fun loc away => (h.elsewhere loc fun mem => away (inFiles loc mem)).imp_right
    fun ⟨place, new⟩ => ⟨inPlaces loc place, new⟩⟩

theorem Gains.alters (h : Gains places fs fs') : Alters files places fs fs' :=
  ⟨h.keeps, fun loc _ => h.entry loc⟩

/-- A file that is not among those that change stays as it is. -/
theorem Alters.file (h : Alters files places fs fs') (away : ¬ files loc) {content : ByteArray}
    (file : fs.entry? loc = some (.file content)) : fs'.entry? loc = some (.file content) := by
  rcases h.elsewhere loc away with same | ⟨-, empty, -⟩
  · rw [same, file]
  · cases empty.symm.trans file

/-- A text that is put into a file is there, and changes nothing else. -/
theorem of_write (parents : disk.makeParents path fs = (.ok (), between))
    (file : disk.write path text between = (.ok (), fs')) :
    Alters (· = fs.target path) (fs.Above path) fs fs' ∧
      fs'.locate path = .ok (fs.target path) ∧
      fs'.entry? (fs.target path) = some (.file text.toUTF8) := by
  have gains := makeParents_gains path fs
  rw [parents] at gains
  obtain ⟨located, notDir, eq⟩ := write_eq_ok file
  rw [gains.keeps.target path] at located notDir eq
  have notRoot : fs.target path ≠ [] := fun root => notDir (root ▸ entry?_root between)
  have entry (loc : Location) : fs'.entry? loc
      = if loc = fs.target path then some (.file text.toUTF8) else between.entry? loc := by
    rw [eq, entry?_put between notRoot]
  have keeps : Keeps between fs' := by
    refine ⟨by rw [eq]; rfl, fun loc directory => ?_⟩
    rw [entry, if_neg (fun here => notDir (by rw [← here]; exact directory))]
    exact directory
  refine ⟨gains.alters.trans ⟨keeps, fun loc away => .inl ?_⟩, keeps.locate located, ?_⟩
  · rw [entry, if_neg away]
  · rw [entry, if_pos rfl]

/-- What is read stays the same, unless it is in one of the files that change. -/
theorem Alters.read (h : Alters files places fs fs') (away : ¬ files (fs.target path))
    (text_eq : fs.read path = .ok text) : fs'.read path = .ok text := by
  obtain ⟨located, content, file, decoded⟩ := read_eq_ok.mp text_eq
  rw [read_eq_ok, h.keeps.target]
  exact ⟨h.keeps.locate located, content, h.file away file, decoded⟩

/-- Nothing comes of a text that cannot be put into a file but directories on the way. -/
theorem gains_of_fails {e : FileError} (h : disk.Fails path text fs e fs') :
    Gains (fs.Above path) fs fs' := by
  have gains := makeParents_gains path fs
  cases h with
  | parents h => rwa [h] at gains
  | file parents h =>
    rw [parents] at gains
    rwa [write_eq_error h]

/-! ### Texts in several files -/

/-- The locations of some files. -/
def Files (fs : FileSystem) (texts : List (String × String)) (loc : Location) : Prop :=
  ∃ file ∈ texts, loc = fs.target file.1

/-- The locations of the directories on the way to some files. -/
def AboveFiles (fs : FileSystem) (texts : List (String × String)) (loc : Location) : Prop :=
  ∃ file ∈ texts, fs.Above file.1 loc

theorem Keeps.above (h : Keeps fs fs') : fs'.Above path = fs.Above path := by
  funext loc
  simp only [Above, h.target]

/-- **Putting texts into files changes these files**, and adds directories above them. -/
theorem alters_of_stores {texts : List (String × String)} (h : disk.Stores texts fs fs') :
    Alters (fs.Files texts) (fs.AboveFiles texts) fs fs' := by
  induction h with
  | nil => exact .refl _ _ _
  | @cons path text rest fs between stored fs' parents file _ ih =>
    have first := (of_write parents file).1
    refine (first.mono (fun loc h => ⟨_, List.mem_cons_self, h⟩)
      fun loc h => ⟨_, List.mem_cons_self, h⟩).trans (ih.mono ?_ ?_)
    · rintro loc ⟨other, mem, eq⟩
      exact ⟨other, List.mem_cons_of_mem _ mem, eq.trans (first.keeps.target _)⟩
    · rintro loc ⟨other, mem, above⟩
      exact ⟨other, List.mem_cons_of_mem _ mem, first.keeps.above ▸ above⟩

/-- Every file holds one of the texts that were put into it. -/
theorem exists_of_stores {texts : List (String × String)} (h : disk.Stores texts fs fs')
    {file : String × String} (mem : file ∈ texts) :
    fs'.locate file.1 = .ok (fs.target file.1) ∧ ∃ last ∈ texts,
      fs.target last.1 = fs.target file.1 ∧
        fs'.entry? (fs.target file.1) = some (.file last.2.toUTF8) := by
  induction h generalizing file with
  | nil => cases mem
  | @cons path text rest fs between stored fs' parents written later ih =>
    obtain ⟨first, located, here⟩ := of_write parents written
    simp only [first.keeps.target] at ih
    -- what is put into the file later on counts, or else what is put into it now
    have found {other : String × String} (mem : other ∈ rest) : ∃ last ∈ (path, text) :: rest,
        fs.target last.1 = fs.target other.1 ∧
          fs'.entry? (fs.target other.1) = some (.file last.2.toUTF8) :=
      let ⟨last, mem, holds⟩ := (ih mem).2
      ⟨last, List.mem_cons_of_mem _ mem, holds⟩
    obtain rfl | mem := List.mem_cons.mp mem
    · have alters := alters_of_stores later
      refine ⟨alters.keeps.locate located, ?_⟩
      by_cases again : stored.Files rest (fs.target path)
      · obtain ⟨other, mem, same⟩ := again
        rw [first.keeps.target] at same
        rw [same]
        exact found mem
      · exact ⟨_, List.mem_cons_self, rfl, alters.file again here⟩
    · exact ⟨(ih mem).1, found mem⟩

/-- **A file holds the last text that was put into it**, whatever path leads to it. -/
theorem read_of_stores {before later : List (String × String)} {file : String × String}
    (h : disk.Stores (before ++ (path, text) :: later) fs fs')
    (last : ∀ other ∈ later, fs.target other.1 ≠ fs.target path)
    (mem : file ∈ before ++ (path, text) :: later) (here : fs.target file.1 = fs.target path) :
    fs'.read file.1 = .ok text := by
  obtain ⟨located, -⟩ := exists_of_stores h mem
  have keeps := (alters_of_stores h).keeps
  obtain ⟨mid, earlier, h⟩ := Disk.stores_append.mp h
  have same := (alters_of_stores earlier).keeps.target
  obtain ⟨-, other, mem, eq, holds⟩ := exists_of_stores h List.mem_cons_self
  rw [same] at holds
  obtain rfl | mem := List.mem_cons.mp mem
  · rw [read_eq_ok, keeps.target, here]
    exact ⟨here ▸ located, _, holds, fromUTF8?_toUTF8 _⟩
  · rw [same, same] at eq
    exact absurd eq (last other mem)

end FileSystem

end TreeRewrite
