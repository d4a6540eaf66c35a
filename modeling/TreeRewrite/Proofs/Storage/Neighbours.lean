import TreeRewrite.Proofs.Storage.Stores

/-!
# Files below one directory

The location of a plain path below a directory is that of the directory with the names of the path
behind it (`Path.place`).  So files for plain paths stand in each other's way only if the place of
one starts with the place of the other.

## What is here

* `FileSystem.target_join` — where a plain path below a directory leads, and
  `FileSystem.of_above_join`, where the directories on the way to it are.
* `FileSystem.Accepts` — nothing stands in the way of a file, and `FileSystem.exists_stores`: then
  it can be written.
* `FileSystem.Accepts.of_alters` — a file that is written does not stand in the way of another one
  that is apart from it.
* `FileSystem.exists_stores_of_apart` — **files that are apart can all be written** if each of them
  can.
* `FileSystem.place_eq_of_stores` — **if files have all been written**, none is on the way to
  another.
-/

set_option autoImplicit false

namespace TreeRewrite.FileSystem

open TreeRewrite.Path (segments base names isPlain)

variable {fs fs' : FileSystem} {dir name other text : String} {loc : Location}
  {pieces : List (List Char)} {last : List Char}

/-- The location of a directory, in front of those of what is in it. -/
def within (fs : FileSystem) (dir : String) : Location := follow (fs.origin (base dir)) (base dir)

theorem origin_join (fs : FileSystem) (dir : String) (plain : isPlain name = true)
    {front : List (List Char)} (isPrefix : front <+: segments name.toList) :
    fs.origin (base dir ++ front) = fs.origin (base dir) := by
  obtain h | h := eq_or_ne (base dir) []
  · cases front with
    | nil => rw [List.append_nil]
    | cons first rest =>
      have notBlank : first ≠ [] := by
        rintro rfl
        obtain ⟨more, eq⟩ := isPrefix
        cases ((Path.isPlain_iff eq.symm).mp plain).1
      simp [origin, h, notBlank]
  · exact origin_append fs h

theorem segments_join (dir : String) (plain : isPlain name = true) :
    segments (Path.join dir name).toList = base dir ++ segments name.toList :=
  Path.segments_join dir (Path.relative_of_isPlain plain)

/-- **A plain path leads to a location below that of the directory.** -/
theorem target_join (fs : FileSystem) (dir : String) (plain : isPlain name = true) :
    fs.target (Path.join dir name) = fs.within dir ++ Path.place name := by
  rw [target, segments_join dir plain, origin_join fs dir plain List.prefix_rfl, follow_append,
    follow_of_downward _ (Path.downward_of_isPlain plain)]
  rfl

/-- Along the way to a directory there are directories. -/
theorem paved_of_isDirectory (h : fs.isDirectory dir = true) :
    fs.Paved (fs.origin (base dir)) (base dir) := by
  rw [isDirectory] at h
  split at h
  · next loc located =>
    obtain ⟨admitted, way, rfl⟩ := locate_eq_ok.mp located
    obtain ⟨pieces, last, eq⟩ := (List.eq_nil_or_concat' (segments dir.toList)).resolve_left
      (Path.segments_ne_nil _)
    have there : fs.entry? (fs.target dir) = some .directory := eq_of_beq h
    rw [target, eq] at there
    rw [eq] at way
    have front := (open_concat.mp way).1
    rw [Path.base_of_segments eq]
    split
    · next blank =>
      have nonempty : pieces ≠ [] := by
        rintro rfl
        refine admitted.nonempty (Path.segments_injective (eq.trans ?_))
        rw [blank]
        rfl
      rwa [origin_append fs nonempty] at front
    · exact paved_concat.mpr ⟨front, there⟩
  · cases h

theorem start_of_paved {start : Location} (h : fs.Paved start pieces) :
    fs.entry? start = some .directory := h [] (List.nil_prefix)

/-- The locations above a plain path below a directory are on the way to the directory, or lead to
pieces of the path. -/
theorem of_above_join (inner : Path.Inner name) (h : fs.Above (Path.join dir name) loc) :
    (∃ front, front <+: base dir ∧ loc = follow (fs.origin (base dir)) front) ∨
      ∃ front, front <+: (segments name.toList).dropLast ∧ loc = fs.within dir ++ names front := by
  obtain ⟨plain, pieces, last, ends, named⟩ := inner
  obtain ⟨directory, mem, rfl⟩ := h
  have joined := segments_join dir plain
  rw [ends, ← List.append_assoc] at joined
  rw [Path.above_eq joined named] at mem
  obtain ⟨front, piece, isPrefix, rfl, -⟩ := Path.exists_of_mem_chain mem
  have inPath : front ++ [piece] <+: segments (Path.join dir name).toList :=
    joined ▸ isPrefix.trans (List.prefix_append _ _)
  have start : fs.origin (front ++ [piece]) = fs.origin (base dir) := by
    obtain ⟨more, eq⟩ := inPath
    rw [← origin_join fs dir plain List.prefix_rfl, ← segments_join dir plain, ← eq,
      origin_append fs (by simp : front ++ [piece] ≠ [])]
  rw [target_ofPieces fun other ho => Path.not_mem_of_mem_segments (inPath.subset ho), start]
  rcases Path.of_prefix_append isPrefix with inside | ⟨more, isPrefix, eq⟩
  · exact .inl ⟨_, inside, rfl⟩
  · have down : Path.Downward more := fun other ho => Path.downward_of_isPlain plain other <| by
      rw [ends]
      exact List.mem_append_left _ (isPrefix.subset ho)
    refine .inr ⟨more, by rwa [ends, List.dropLast_concat], ?_⟩
    rw [eq, follow_append, follow_of_downward _ down]
    rfl

/-! ## One file -/

/-- What it takes to put a text at a path: the system looks at it, no file is on the way and no
directory at its end. -/
structure Accepts (fs : FileSystem) (path : String) : Prop where
  admitted : Admitted path
  fits : ∀ piece ∈ segments path.toList, Fits piece
  passable : fs.Passable (fs.origin (segments path.toList)) (segments path.toList).dropLast
  free : fs.entry? (fs.target path) ≠ some .directory

theorem accepts_of_stores {path : String} (h : disk.Stores [(path, text)] fs fs') :
    fs.Accepts path := by
  cases h with
  | @cons _ _ _ _ between _ _ parents file _ =>
    obtain ⟨located, free, -⟩ := write_eq_ok file
    have gains := makeParents_gains path fs
    rw [parents] at gains
    obtain ⟨admitted, way, -⟩ := locate_eq_ok.mp located
    obtain ⟨pieces, last, eq⟩ := (List.eq_nil_or_concat' (segments path.toList)).resolve_left
      (Path.segments_ne_nil _)
    rw [gains.keeps.origin, eq, open_concat] at way
    refine ⟨admitted, eq ▸ way.2, ?_, fun directory => free ?_⟩
    · rw [eq, List.dropLast_concat]
      intro front content isPrefix file
      cases (way.1 front isPrefix).symm.trans (gains.file file)
    · rw [gains.keeps.target]
      exact gains.keeps.directory _ directory

section

variable (here : fs.Paved (fs.origin (base dir)) (base dir)) (inner : Path.Inner name)
include here inner

/-- No directory that is created on the way is at the end of it. -/
theorem free_of_gains {between : FileSystem}
    (gains : Gains (fs.Above (Path.join dir name)) fs between)
    (free : fs.entry? (fs.target (Path.join dir name)) ≠ some .directory) :
    between.entry? (fs.target (Path.join dir name)) ≠ some .directory := by
  intro directory
  rcases gains.entry (fs.target (Path.join dir name)) with same | ⟨above, empty, -⟩
  · exact free (same ▸ directory)
  · rcases of_above_join inner above with ⟨front, isPrefix, eq⟩ | ⟨front, isPrefix, eq⟩
    · rw [eq] at empty
      cases empty.symm.trans (here front isPrefix)
    · obtain ⟨plain, pieces, last, ends, named⟩ := inner
      rw [target_join fs dir plain, List.append_cancel_left_eq, Path.place, ends] at eq
      rw [ends, List.dropLast_concat] at isPrefix
      have short := (isPrefix.filterMap Path.name?).length_le
      obtain ⟨s, one⟩ := Option.isSome_iff_exists.mp named
      have long : (names (pieces ++ [last])).length = (names pieces).length + 1 := by
        rw [names, names, List.filterMap_append, List.length_append, List.filterMap_cons, one]
        rfl
      rw [eq] at long
      exact absurd short (by rw [names, names] at long; omega)

/-- A text can be put where nothing is in its way. -/
theorem exists_stores (h : fs.Accepts (Path.join dir name)) (text : String) :
    ∃ fs', disk.Stores [(Path.join dir name, text)] fs fs' := by
  have ⟨plain, pieces, last, ends, named⟩ := inner
  have joined := segments_join dir plain
  have start := origin_join fs dir plain List.prefix_rfl
  have start' : fs.origin (base dir ++ pieces) = fs.origin (base dir) :=
    origin_join fs dir plain (ends ▸ List.prefix_append _ _)
  obtain ⟨admitted, fits, passable, free⟩ := h
  rw [joined, start] at passable
  rw [ends, ← List.append_assoc] at joined passable
  rw [List.dropLast_concat, ← start'] at passable
  have apart : ∀ piece ∈ base dir ++ pieces, '/' ∉ piece := fun piece hp =>
    Path.not_mem_of_mem_segments (joined ▸ List.mem_append_left _ hp)
  rw [joined] at fits
  obtain ⟨between, parents, paved⟩ := makeDirectories_chain apart
    (fun _ => admitted.of_mem_chain joined) (start' ▸ start_of_paved here) passable
    (List.forall_mem_append.mp fits).1
  rw [← Path.above_eq joined named] at parents
  have gains := makeParents_gains (Path.join dir name) fs
  rw [Disk.makeParents, parents] at gains
  have located : between.locate (Path.join dir name) = .ok (fs.target (Path.join dir name)) := by
    refine locate_eq_ok.mpr ⟨admitted, ?_, (gains.keeps.target _).symm⟩
    rw [gains.keeps.origin, segments_join dir plain, start, ends, ← List.append_assoc, ← start']
    exact open_concat.mpr ⟨paved, fits⟩
  exact ⟨_, .cons parents (write_of_ok located (free_of_gains here inner gains free))
    (.nil _)⟩

end

/-! ## Several files -/

section

variable {a b : String} (here : fs.Paved (fs.origin (base dir)) (base dir))
include here

/-- **A file stays acceptable next to another one**, which neither is on the way to it nor has it on
its own way. -/
theorem Accepts.of_alters (inner : Path.Inner a) (plain : isPlain b = true)
    (before : ¬ Path.place a <+: Path.place b) (behind : ¬ Path.place b <+: Path.place a)
    (alters : Alters (· = fs.target (Path.join dir a)) (fs.Above (Path.join dir a)) fs fs')
    (h : fs.Accepts (Path.join dir b)) : fs'.Accepts (Path.join dir b) := by
  refine ⟨h.admitted, h.fits, ?_, fun directory => ?_⟩
  · rw [alters.keeps.origin]
    intro front content isPrefix file
    have joined := segments_join dir plain
    -- the file in the way would be the other one, since nothing else is new but directories
    have away : follow (fs.origin (segments (Path.join dir b).toList)) front
        ≠ fs.target (Path.join dir a) := by
      intro this
      rw [joined, origin_join fs dir plain List.prefix_rfl] at this file
      rw [target_join fs dir inner.plain] at this
      have inPath : front <+: base dir ++ segments b.toList :=
        joined ▸ isPrefix.trans (List.dropLast_prefix _)
      rcases Path.of_prefix_append inPath with inside | ⟨more, inName, rfl⟩
      · cases (alters.keeps.directory _ (here front inside)).symm.trans file
      · have down : Path.Downward more := fun other ho =>
          Path.downward_of_isPlain plain other (inName.subset ho)
        rw [follow_append, follow_of_downward _ down] at this
        exact before (List.append_cancel_left this ▸ inName.filterMap _)
    rcases alters.elsewhere _ away with same | ⟨-, -, new⟩
    · exact h.passable front content isPrefix (same ▸ file)
    · cases new.symm.trans file
  · rw [alters.keeps.target] at directory
    have other : fs.target (Path.join dir b) ≠ fs.target (Path.join dir a) := fun same => by
      rw [target_join fs dir plain, target_join fs dir inner.plain,
        List.append_cancel_left_eq] at same
      exact before (same ▸ List.prefix_rfl)
    rcases alters.elsewhere _ other with same | ⟨above, empty, -⟩
    · exact h.free (same ▸ directory)
    · rcases of_above_join inner above with ⟨front, isPrefix, eq⟩ | ⟨front, isPrefix, eq⟩
      · rw [eq] at empty
        cases empty.symm.trans (here front isPrefix)
      · rw [target_join fs dir plain, List.append_cancel_left_eq] at eq
        exact behind (eq ▸ (isPrefix.trans (List.dropLast_prefix _)).filterMap _)

end

/-- Does neither of two paths lead to the other or to something below it? -/
def Apart (a b : String) : Prop := ¬ Path.place a <+: Path.place b ∧ ¬ Path.place b <+: Path.place a

/-- **Files that are apart do not stand in each other's way**: if each of them can be put into a
directory, all of them can, one after the other. -/
theorem exists_stores_of_apart {files : List (String × String)}
    (here : fs.Paved (fs.origin (base dir)) (base dir)) (inner : ∀ file ∈ files, Path.Inner file.1)
    (apart : files.Pairwise fun a b => Apart a.1 b.1)
    (accepts : ∀ file ∈ files, fs.Accepts (Path.join dir file.1)) :
    ∃ fs', disk.Stores (files.map fun file => (Path.join dir file.1, file.2)) fs fs' := by
  induction files generalizing fs with
  | nil => exact ⟨fs, .nil fs⟩
  | cons file files ih =>
    obtain ⟨inner_here, inner_later⟩ := List.forall_mem_cons.mp inner
    obtain ⟨apart_here, apart_later⟩ := List.pairwise_cons.mp apart
    obtain ⟨accepts_here, accepts_later⟩ := List.forall_mem_cons.mp accepts
    obtain ⟨stored, first⟩ := exists_stores here inner_here accepts_here file.2
    cases first with
    | cons parents written none =>
      cases none
      have alters := (of_write parents written).1
      have still : stored.Paved (stored.origin (base dir)) (base dir) := by
        rw [alters.keeps.origin]
        exact fun front isPrefix => alters.keeps.directory _ (here front isPrefix)
      obtain ⟨fs', rest⟩ := ih still inner_later apart_later fun other mem =>
          Accepts.of_alters here inner_here (inner_later other mem).plain (apart_here other mem).1
            (apart_here other mem).2 alters (accepts_later other mem)
      exact ⟨fs', .cons parents written rest⟩

/-- **Of files in a directory, none is on the way to another one.** -/
theorem place_eq_of_stores {files : List (String × String)} {a b text_a text_b : String}
    (h : disk.Stores (files.map fun file => (Path.join dir file.1, file.2)) fs fs')
    (mem_a : (a, text_a) ∈ files) (mem_b : (b, text_b) ∈ files) (plain_a : isPlain a = true)
    (plain_b : isPlain b = true) (isPrefix : Path.place a <+: Path.place b) :
    Path.place a = Path.place b := by
  obtain ⟨-, file, -, -, holds⟩ := exists_of_stores h (List.mem_map_of_mem mem_a)
  obtain ⟨located, -⟩ := exists_of_stores h (List.mem_map_of_mem mem_b)
  have keeps := (alters_of_stores h).keeps
  obtain ⟨rest, eq⟩ := isPrefix
  obtain ⟨front, more, split, front_eq, rfl⟩ := List.filterMap_eq_append_iff.mp eq.symm
  obtain rfl | ⟨pieces, last, rfl⟩ := List.eq_nil_or_concat' more
  · exact (List.append_nil _).symm.trans eq
  · -- the way to the one file would lead over the other
    obtain ⟨-, way, -⟩ := locate_eq_ok.mp located
    have joined := segments_join dir plain_b
    rw [keeps.origin, joined, origin_join fs dir plain_b List.prefix_rfl, split,
      ← List.append_assoc, ← List.append_assoc] at way
    have directory := (open_concat.mp way).1 (base dir ++ front) (List.prefix_append _ _)
    have down : Path.Downward front := fun piece mem => Path.downward_of_isPlain plain_b piece <|
      split ▸ List.mem_append_left _ mem
    rw [follow_append, follow_of_downward _ down, Path.names, front_eq] at directory
    rw [target_join fs dir plain_a] at holds
    cases directory.symm.trans holds

end TreeRewrite.FileSystem
