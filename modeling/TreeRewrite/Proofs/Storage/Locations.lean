import TreeRewrite.Proofs.Results
import TreeRewrite.Proofs.Storage.Paths
import TreeRewrite.Storage.FileSystem

/-!
# Where paths lead

To locate a path is to follow its pieces, each from a directory.  Where they lead does not depend on
what is there; only whether they can be followed does.

## What is here

* `FileSystem.entry?_put` — what is at a location after an entry was put somewhere.
* `FileSystem.follow`, `FileSystem.target` — where pieces and paths lead, whatever is there.
* `FileSystem.Open` — can pieces be followed?  `FileSystem.locate_eq_ok` says that a path is located
  if its pieces can be followed, and `FileSystem.locate_ofPieces` that the same holds of paths that
  are made of pieces.
* `FileSystem.Keeps` — a file system in which no directory of another is missing: what can be
  located in the one is at the same place in the other.
-/

set_option autoImplicit false

namespace TreeRewrite.FileSystem

open TreeRewrite.Path (segments base)

variable {fs fs' : FileSystem} {loc loc' : Location} {piece last : List Char}
  {pieces more : List (List Char)} {path text : String}

/-! ## Entries -/

@[simp] theorem home_put (fs : FileSystem) (loc : Location) (entry : FileEntry) :
    (fs.put loc entry).home = fs.home := rfl

theorem entry?_root (fs : FileSystem) : fs.entry? [] = some .directory := if_pos rfl

theorem entry?_put (fs : FileSystem) (notRoot : loc ≠ []) (entry : FileEntry) (other : Location) :
    entry? (fs.put loc entry) other = if other = loc then some entry else fs.entry? other := by
  have filtered (entries : List (Location × FileEntry)) (h : other ≠ loc) :
      (entries.filter fun e => e.1 != loc).lookup other = entries.lookup other := by
    induction entries with
    | nil => rfl
    | cons e rest ih =>
      rw [List.filter_cons, List.lookup_cons]
      split
      · rw [List.lookup_cons, ih]
      · next same =>
        have here : e.1 = loc := by simpa using same
        rw [ih, here, beq_eq_false_iff_ne.mpr h]
  simp only [ entry?, put, List.lookup_cons]
  by_cases h : other = loc
  · rw [h, if_neg notRoot, if_pos rfl, beq_self_eq_true]
  · rw [if_neg h, beq_eq_false_iff_ne.mpr h, filtered _ h]

/-! ## Following pieces -/

/-- The location that a piece leads to from another, whatever is there. -/
def move (loc : Location) : List Char → Location
  | [] => loc
  | ['.'] => loc
  | ['.', '.'] => loc.dropLast
  | piece => loc ++ [String.ofList piece]

/-- The location that pieces lead to from another, whatever is there. -/
def follow (loc : Location) (pieces : List (List Char)) : Location := pieces.foldl move loc

theorem follow_append (loc : Location) (pieces more : List (List Char)) :
    follow loc (pieces ++ more) = follow (follow loc pieces) more := List.foldl_append ..

theorem move_of_ne (loc : Location) (h : piece ≠ ['.', '.']) :
    move loc piece = loc ++ (Path.name? piece).toList := by
  unfold move Path.name? Path.innerComponent?
  split <;> simp_all

theorem move_of_not_said (loc : Location) (h : Path.innerComponent? piece = none) :
    move loc piece = loc := by
  unfold Path.innerComponent? at h
  split at h <;> simp_all [move]

/-- **Pieces that do not lead upwards lead to a location below.** -/
theorem follow_of_downward (loc : Location) (down : Path.Downward pieces) :
    follow loc pieces = loc ++ Path.names pieces := by
  induction pieces generalizing loc with
  | nil => exact (List.append_nil loc).symm
  | cons piece pieces ih =>
    obtain ⟨here, later⟩ := List.forall_mem_cons.mp down
    show follow (move loc piece) pieces = _
    rw [ih _ later, move_of_ne loc here, List.append_assoc, Path.names, Path.names,
      List.filterMap_cons]
    cases Path.name? piece <;> rfl

/-- Has a piece no more bytes than a name may have? -/
def Fits (piece : List Char) : Prop := (String.ofList piece).utf8ByteSize ≤ maxNameBytes

theorem step_of_directory (h : fs.entry? loc = some .directory) (piece : List Char) :
    fs.step loc piece = if maxNameBytes < (String.ofList piece).utf8ByteSize then
      .error .nameTooLong else .ok (move loc piece) := by
  unfold step
  rw [h]
  dsimp only
  split
  · rfl
  · rfl
  · rfl
  · next blank dot up => rw [move.eq_4 _ _ blank dot up]

theorem step_of_none (h : fs.entry? loc = none) (piece : List Char) :
    fs.step loc piece = .error .notFound := by
  unfold step
  rw [h]

/-- A piece is followed from a directory, unless it is too long. -/
theorem step_eq_ok : fs.step loc piece = .ok loc' ↔
    fs.entry? loc = some .directory ∧ Fits piece ∧ loc' = move loc piece := by
  match h : fs.entry? loc with
  | none => simp [step_of_none h]
  | some (.file _) => simp [step, h]
  | some .directory =>
    rw [step_of_directory h, Fits, ← Nat.not_lt]
    split <;> simp [*, eq_comm]

/-- Can pieces be followed from a location? -/
def Open (fs : FileSystem) (loc : Location) : List (List Char) → Prop
  | [] => True
  | piece :: rest => fs.entry? loc = some .directory ∧ Fits piece ∧ fs.Open (move loc piece) rest

theorem open_append : fs.Open loc (pieces ++ more) ↔
    fs.Open loc pieces ∧ fs.Open (follow loc pieces) more := by
  induction pieces generalizing loc with
  | nil => exact (true_and _).symm ▸ Iff.rfl
  | cons piece pieces ih =>
    rw [List.cons_append, Open, Open, ih, and_assoc, and_assoc]
    rfl

theorem foldlM_step_eq_ok : pieces.foldlM fs.step loc = .ok loc' ↔
    fs.Open loc pieces ∧ loc' = follow loc pieces := by
  induction pieces generalizing loc with
  | nil => simp [Open, follow, pure, Except.pure, eq_comm]
  | cons piece pieces ih =>
    rw [List.foldlM_cons, bind_eq_ok]
    simp only [step_eq_ok, ih, Open]
    constructor
    · rintro ⟨_, ⟨directory, fits, rfl⟩, later, rfl⟩
      exact ⟨⟨directory, fits, later⟩, rfl⟩
    · rintro ⟨⟨directory, fits, later⟩, rfl⟩
      exact ⟨_, ⟨directory, fits, rfl⟩, later, rfl⟩

/-! ## Locating paths -/

/-- Where pieces start: at the root if they start with a blank one. -/
def origin (fs : FileSystem) (pieces : List (List Char)) : Location :=
  if pieces.head? = some [] then [] else fs.home

/-- Does the system look at a path at all? -/
structure Admitted (path : String) : Prop where
  text : '\x00' ∉ path.toList
  nonempty : path.toList ≠ []
  short : path.utf8ByteSize ≤ maxPathBytes

theorem origin_append (fs : FileSystem) (nonempty : pieces ≠ []) :
    fs.origin (pieces ++ more) = fs.origin pieces := by
  rw [origin, origin, List.head?_append_of_ne_nil _ nonempty]

/-- The location that a path leads to, whatever is there. -/
def target (fs : FileSystem) (path : String) : Location :=
  follow (fs.origin (segments path.toList)) (segments path.toList)

theorem head?_segments {s : List Char} (nonempty : s ≠ []) :
    (segments s).head? = some [] ↔ s.head? = some '/' := by
  obtain ⟨c, rest, rfl⟩ := List.exists_cons_of_ne_nil nonempty
  by_cases h : c = '/'
  · simp [h, Path.segments_slash]
  · obtain ⟨first, others, eq⟩ := List.exists_cons_of_ne_nil (Path.segments_ne_nil rest)
    simp [Path.segments_cons h eq, h]

theorem locate_of_admitted (h : Admitted path) (fs : FileSystem) : fs.locate path
    = (segments path.toList).foldlM fs.step (fs.origin (segments path.toList)) := by
  have notEmpty : path.isEmpty = false := by
    rw [← Bool.not_eq_true, String.isEmpty_iff]
    rintro rfl
    exact h.nonempty rfl
  rw [locate, if_neg (by simpa using h.text), notEmpty, if_neg Bool.false_ne_true,
    if_neg (Nat.not_lt.mpr h.short)]
  simp only [origin, head?_segments h.nonempty]

theorem admitted_of_locate (h : fs.locate path = .ok loc) : Admitted path := by
  rw [locate] at h
  split at h
  · cases h
  · next text =>
    split at h
    · cases h
    · next nonempty =>
      split at h
      · cases h
      · next short =>
        exact ⟨by simpa using text, by simpa using nonempty, Nat.not_lt.mp short⟩

/-- **A path is located by following its pieces.** -/
theorem locate_eq_ok : fs.locate path = .ok loc ↔ Admitted path ∧
    fs.Open (fs.origin (segments path.toList)) (segments path.toList) ∧ loc = fs.target path := by
  constructor
  · intro h
    have admitted := admitted_of_locate h
    rw [locate_of_admitted admitted] at h
    exact ⟨admitted, foldlM_step_eq_ok.mp h⟩
  · rintro ⟨admitted, way⟩
    rw [locate_of_admitted admitted]
    exact foldlM_step_eq_ok.mpr way

/-! ## Paths made of pieces -/

theorem Admitted.of_prefix {front : String} (h : Admitted path)
    (isPrefix : front.toList <+: path.toList) (nonempty : front.toList ≠ []) : Admitted front := by
  obtain ⟨rest, eq⟩ := isPrefix
  have whole : path = front ++ String.ofList rest := String.toList_inj.mp (by simp [eq])
  refine ⟨fun nul => h.text ?_, nonempty, ?_⟩
  · rw [← eq]
    exact List.mem_append_left _ nul
  · have short := h.short
    rw [whole, String.utf8ByteSize_append] at short
    omega

section

variable {front : List (List Char)} (apart : ∀ piece ∈ front ++ [last], '/' ∉ piece)
include apart

theorem toList_ofPieces_ne_nil : (Path.ofPieces (front ++ [last]).reverse).toList ≠ [] := by
  by_cases root : front ++ [last] = [[]]
  · rw [root]
    decide
  · intro none
    have eq := Path.segments_ofPieces (by simp) root apart
    rw [none] at eq
    exact root eq.symm

theorem target_ofPieces (fs : FileSystem) :
    fs.target (Path.ofPieces (front ++ [last]).reverse)
      = follow (fs.origin (front ++ [last])) (front ++ [last]) := by
  by_cases root : front ++ [last] = [[]]
  · rw [root, target, show segments (Path.ofPieces [[]].reverse).toList = [[], []] by decide]
    rfl
  · rw [target, Path.segments_ofPieces (by simp) root apart]

/-- **A path made of pieces is located by following them.** -/
theorem locate_ofPieces (fs : FileSystem)
    (admitted : Admitted (Path.ofPieces (front ++ [last]).reverse)) :
    fs.locate (Path.ofPieces (front ++ [last]).reverse)
      = (front ++ [last]).foldlM fs.step (fs.origin (front ++ [last])) := by
  rw [locate_of_admitted admitted]
  by_cases root : front ++ [last] = [[]]
  · -- the text of the root has a second blank piece behind its slash, which leads nowhere else
    have twice : segments (Path.ofPieces [[]].reverse).toList = [[], []] := by decide
    have still : fs.step [] [] = .ok [] := by
      rw [step_eq_ok]
      exact ⟨entry?_root fs, (by decide : (String.ofList []).utf8ByteSize ≤ maxNameBytes), rfl⟩
    rw [root, twice]
    show (fs.step [] [] >>= fun loc => fs.step loc [] >>= pure) = (fs.step [] [] >>= pure)
    rw [still]
    exact congrArg (· >>= pure) still
  · rw [Path.segments_ofPieces (by simp) root apart]

end

/-- The system looks at the directories on the way to a path if it looks at the path. -/
theorem Admitted.of_mem_chain (h : Admitted path) (eq : segments path.toList = pieces ++ [last])
    {directory : String} (mem : directory ∈ Path.chain pieces.reverse) : Admitted directory := by
  obtain ⟨front, piece, ⟨more, isPrefix⟩, rfl, -⟩ := Path.exists_of_mem_chain mem
  rw [← isPrefix, List.append_assoc] at eq
  refine h.of_prefix (Path.ofPieces_prefix (by simp) (by simp) eq) ?_
  refine toList_ofPieces_ne_nil fun other ho => Path.not_mem_of_mem_segments (s := path.toList) ?_
  rw [eq]
  exact List.mem_append_left _ ho

/-! ## Directories that stay -/

/-- Is every directory of a file system in another one, with the same working directory? -/
structure Keeps (fs fs' : FileSystem) : Prop where
  home : fs'.home = fs.home
  directory : ∀ loc, fs.entry? loc = some .directory → fs'.entry? loc = some .directory

theorem Keeps.refl (fs : FileSystem) : Keeps fs fs := ⟨rfl, fun _ h => h⟩

theorem Keeps.trans {fs'' : FileSystem} (h : Keeps fs fs') (h' : Keeps fs' fs'') : Keeps fs fs'' :=
  ⟨h'.home.trans h.home, fun loc here => h'.directory loc (h.directory loc here)⟩

theorem Keeps.origin (h : Keeps fs fs') (pieces : List (List Char)) :
    fs'.origin pieces = fs.origin pieces := by
  rw [FileSystem.origin, FileSystem.origin, h.home]

theorem Keeps.target (h : Keeps fs fs') (path : String) : fs'.target path = fs.target path := by
  rw [FileSystem.target, FileSystem.target, h.origin]

theorem Keeps.open (h : Keeps fs fs') (way : fs.Open loc pieces) : fs'.Open loc pieces := by
  induction pieces generalizing loc with
  | nil => trivial
  | cons piece pieces ih => exact ⟨h.directory _ way.1, way.2.1, ih way.2.2⟩

/-- **What is located stays where it is.** -/
theorem Keeps.locate (h : Keeps fs fs') (located : fs.locate path = .ok loc) :
    fs'.locate path = .ok loc := by
  obtain ⟨admitted, way, rfl⟩ := locate_eq_ok.mp located
  refine locate_eq_ok.mpr ⟨admitted, ?_, (h.target path).symm⟩
  rw [h.origin]
  exact h.open way

end TreeRewrite.FileSystem
