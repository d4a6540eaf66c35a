import TreeRewrite.Proofs.Storage.Locations

/-!
# Creating directories

A directory is created in one that is there; where there is none, the directories above are created
first.  Whatever comes of it, nothing changes but that there may be directories where nothing was.

## What is here

* `Disk.makeDirectories_of_ne`, `Disk.makeDirectories_of_notFound`,
  `Disk.makeDirectories_of_error` — what creating directories comes to, on any disk.
* `FileSystem.Gains` — the new file system has new directories and nothing else new;
  `FileSystem.makeDirectories_gains`: **creating directories changes nothing else**.
* `FileSystem.Paved`, `FileSystem.Passable` — ways of directories, and ways without files.
  `FileSystem.makeDirectories_chain`: **directories are created where no file is in the way**.
-/

set_option autoImplicit false

namespace TreeRewrite

/-! ## Any disk -/

namespace Disk

variable {σ : Type} {disk : Disk (StateM σ)}

section

variable {path : String} {above : List String} {s between created : σ} {e : FileError}
  {result : Except FileError Unit}

theorem makeDirectories_of_ne (made : disk.makeDirectory path s = (result, between))
    (h : result ≠ .error .notFound) :
    disk.makeDirectories (path :: above) s = disk.settle path result between := by
  rw [makeDirectories]
  show (disk.makeDirectory path >>= _) s = _
  simp only [bind, StateT.bind, made]

/-- The directories above are created if a directory cannot be created for want of them. -/
theorem makeDirectories_of_notFound
    (missing : disk.makeDirectory path s = (.error .notFound, between))
    (parents : disk.makeDirectories above between = (.ok (), created)) :
    disk.makeDirectories (path :: above) s = disk.settle path (disk.makeDirectory path created).1
      (disk.makeDirectory path created).2 := by
  rw [makeDirectories]
  show (disk.makeDirectory path >>= _) s = _
  simp only [bind, StateT.bind, missing, parents]
  rfl

theorem makeDirectories_of_error
    (missing : disk.makeDirectory path s = (.error .notFound, between))
    (parents : disk.makeDirectories above between = (.error e, created)) :
    disk.makeDirectories (path :: above) s = (.error e, created) := by
  rw [makeDirectories]
  show (disk.makeDirectory path >>= _) s = _
  simp only [bind, StateT.bind, missing, parents]
  rfl

end

end Disk

/-! ## The file system -/

namespace FileSystem

variable {fs fs' between : FileSystem} {path text : String} {loc : Location}

theorem makeDirectory_of_error {e : FileError} (h : fs.locate path = .error e) :
    disk.makeDirectory path fs = (.error e, fs) := by
  simp [disk, commit, makeDirectory, h, bind, Except.bind]

theorem makeDirectory_of_some (h : fs.locate path = .ok loc) (some : (fs.entry? loc).isSome) :
    disk.makeDirectory path fs = (.error .alreadyExists, fs) := by
  simp [disk, commit, makeDirectory, h, some, bind, Except.bind, throw, throwThe,
    MonadExceptOf.throw]

theorem makeDirectory_of_none (h : fs.locate path = .ok loc) (none : fs.entry? loc = none) :
    disk.makeDirectory path fs = (.ok (), fs.put loc .directory) := by
  simp [disk, commit, makeDirectory, h, none, bind, Except.bind, pure, Except.pure]

theorem settle_of_ne {result : Except FileError Unit} (h : result ≠ .error .alreadyExists) :
    disk.settle path result fs = (result, fs) := by
  unfold Disk.settle
  split
  · exact absurd rfl h
  · rfl

theorem settle_of_directory (h : fs.locate path = .ok loc)
    (isDir : fs.entry? loc = some .directory) :
    disk.settle path (.error .alreadyExists) fs = (.ok (), fs) := by
  have there : fs.isDirectory path = true := by
    rw [isDirectory, h]
    simp [isDir]
  show ((disk.isDirectory path >>= _) : StateM FileSystem _) fs = _
  simp only [bind, StateT.bind, disk, there]
  rfl

theorem settle_snd (result : Except FileError Unit) : (disk.settle path result fs).2 = fs := by
  unfold Disk.settle
  split
  · show (((disk.isDirectory path >>= _) : StateM FileSystem _) fs).2 = _
    simp only [bind, StateT.bind, disk]
    cases fs.isDirectory path <;> rfl
  · rfl

/-! ### Directories that are created -/

/-- Does the second file system differ from the first at most by new directories, in places where
nothing was? -/
structure Gains (places : Location → Prop) (fs fs' : FileSystem) : Prop where
  home : fs'.home = fs.home
  entry (loc : Location) : fs'.entry? loc = fs.entry? loc ∨
    places loc ∧ fs.entry? loc = none ∧ fs'.entry? loc = some .directory

variable {places others : Location → Prop}

theorem Gains.refl (places : Location → Prop) (fs : FileSystem) : Gains places fs fs :=
  ⟨rfl, fun _ => .inl rfl⟩

theorem Gains.trans (h : Gains places fs between) (h' : Gains places between fs') :
    Gains places fs fs' := by
  refine ⟨h'.home.trans h.home, fun loc => ?_⟩
  rcases h'.entry loc with same | ⟨place, empty, new⟩
  · rw [same]
    exact h.entry loc
  · rcases h.entry loc with same | ⟨_, _, new'⟩
    · exact .inr ⟨place, same ▸ empty, new⟩
    · cases empty.symm.trans new'

theorem Gains.mono (h : Gains places fs fs') (more : ∀ loc, places loc → others loc) :
    Gains others fs fs' :=
  ⟨h.home, fun loc => (h.entry loc).imp_right fun ⟨place, new⟩ => ⟨more loc place, new⟩⟩

theorem Gains.keeps (h : Gains places fs fs') : Keeps fs fs' := by
  refine ⟨h.home, fun loc directory => ?_⟩
  rcases h.entry loc with same | ⟨-, -, new⟩
  · rw [same, directory]
  · exact new

/-- Files stay as they are. -/
theorem Gains.file (h : Gains places fs fs') {content : ByteArray}
    (file : fs.entry? loc = some (.file content)) : fs'.entry? loc = some (.file content) := by
  rcases h.entry loc with same | ⟨-, empty, -⟩
  · rw [same, file]
  · cases empty.symm.trans file

theorem makeDirectory_gains (fs : FileSystem) (path : String) :
    Gains (· = fs.target path) fs (disk.makeDirectory path fs).2 := by
  cases located : fs.locate path with
  | error e =>
    rw [makeDirectory_of_error located]
    exact .refl _ _
  | ok loc =>
    obtain ⟨-, -, rfl⟩ := locate_eq_ok.mp located
    cases there : fs.entry? (fs.target path) with
    | some entry =>
      rw [makeDirectory_of_some located (by rw [there]; rfl)]
      exact .refl _ _
    | none =>
      rw [makeDirectory_of_none located there]
      have notRoot : fs.target path ≠ [] := fun root => by
        rw [root, entry?_root] at there
        cases there
      refine ⟨rfl, fun loc => ?_⟩
      rw [entry?_put fs notRoot]
      split
      · next here => exact .inr ⟨here, here ▸ there, rfl⟩
      · exact .inl rfl

/-- **Creating directories changes nothing else.** -/
theorem makeDirectories_gains (paths : List String) (fs : FileSystem) :
    Gains (fun loc => ∃ path ∈ paths, loc = fs.target path) fs
      (disk.makeDirectories paths fs).2 := by
  induction paths generalizing fs with
  | nil => exact .refl _ _
  | cons path above ih =>
    have here (fs' : FileSystem) (same : fs'.target path = fs.target path) :
        Gains (fun loc => ∃ p ∈ path :: above, loc = fs.target p) fs'
          (disk.makeDirectory path fs').2 :=
      (makeDirectory_gains fs' path).mono fun loc eq => ⟨path, List.mem_cons_self, eq.trans same⟩
    have first := here fs rfl
    rcases made : disk.makeDirectory path fs with ⟨result, between⟩
    rw [made] at first
    by_cases missing : result = .error .notFound
    · subst missing
      have upper := first.trans <| (ih between).mono fun loc ⟨p, hp, eq⟩ =>
        ⟨p, List.mem_cons_of_mem _ hp, eq.trans (first.keeps.target p)⟩
      rcases parents : disk.makeDirectories above between with ⟨e | ⟨⟩, created⟩
      · rw [Disk.makeDirectories_of_error made parents]
        rwa [parents] at upper
      · rw [Disk.makeDirectories_of_notFound made parents, settle_snd]
        rw [parents] at upper
        exact upper.trans (here created (upper.keeps.target path))
    · rw [Disk.makeDirectories_of_ne made missing, settle_snd]
      exact first

/-! ### Directories that can be created -/

/-- Are there directories all along the way? -/
def Paved (fs : FileSystem) (loc : Location) (pieces : List (List Char)) : Prop :=
  ∀ front, front <+: pieces → fs.entry? (follow loc front) = some .directory

/-- Is there no file on the way? -/
def Passable (fs : FileSystem) (loc : Location) (pieces : List (List Char)) : Prop :=
  ∀ front content, front <+: pieces → fs.entry? (follow loc front) ≠ some (.file content)

section

variable {pieces : List (List Char)} {last : List Char}

theorem paved_concat : fs.Paved loc (pieces ++ [last]) ↔ fs.Paved loc pieces ∧
    fs.entry? (follow loc (pieces ++ [last])) = some .directory := by
  simp only [Paved, List.prefix_concat_iff, forall_eq_or_imp, and_comm]

/-- Pieces can be followed from a directory to a directory, if they are not too long. -/
theorem open_concat : fs.Open loc (pieces ++ [last]) ↔
    fs.Paved loc pieces ∧ ∀ piece ∈ pieces ++ [last], Fits piece := by
  induction pieces using List.reverseRecOn generalizing last with
  | nil => simp [Open, Paved, follow]
  | append_singleton pieces before ih =>
    have fits : (∀ piece ∈ pieces ++ [before] ++ [last], Fits piece) ↔
        (∀ piece ∈ pieces ++ [before], Fits piece) ∧ Fits last := by
      rw [List.forall_mem_append, List.forall_mem_singleton]
    rw [open_append, ih, paved_concat, Open, Open, fits]
    tauto

/-- Where there is no file, nothing can go wrong but that something is missing. -/
theorem foldlM_step_of_passable (passable : fs.Passable loc pieces)
    (fits : ∀ piece ∈ pieces, Fits piece) :
    pieces.foldlM fs.step loc = .ok (follow loc pieces) ∨
      pieces.foldlM fs.step loc = .error .notFound := by
  induction pieces using List.reverseRecOn with
  | nil => exact .inl rfl
  | append_singleton pieces last ih =>
    obtain ⟨before, here⟩ := List.forall_mem_append.mp fits
    have short : ¬ maxNameBytes < (String.ofList last).utf8ByteSize :=
      Nat.not_lt.mpr (here last List.mem_cons_self)
    rw [List.foldlM_append, follow_append]
    rcases ih (fun front content h => passable front content (h.trans (List.prefix_append _ _)))
      before with ok | error
    · rw [ok]
      show [last].foldlM fs.step (follow loc pieces) = _ ∨
        [last].foldlM fs.step (follow loc pieces) = _
      rw [List.foldlM_cons]
      match h : fs.entry? (follow loc pieces) with
      | none =>
        right
        rw [step_of_none h]
        rfl
      | some (.file content) => exact absurd h (passable _ content (List.prefix_append _ _))
      | some .directory =>
        left
        rw [step_of_directory h, if_neg short]
        rfl
    · rw [error]
      exact .inr rfl

theorem Gains.passable (h : Gains places fs fs') (passable : fs.Passable loc pieces) :
    fs'.Passable loc pieces := by
  intro front content isPrefix file
  rcases h.entry (follow loc front) with same | ⟨-, -, new⟩
  · exact passable front content isPrefix (same ▸ file)
  · cases new.symm.trans file

/-- The last directory of a chain is created once the way to it is paved. -/
theorem settle_makeDirectory (apart : ∀ piece ∈ pieces ++ [last], '/' ∉ piece)
    (admitted : Admitted (Path.ofPieces (pieces ++ [last]).reverse))
    (way : fs.Open (fs.origin (pieces ++ [last])) (pieces ++ [last]))
    (passable : fs.Passable (fs.origin (pieces ++ [last])) (pieces ++ [last])) :
    ∃ result between fs', disk.makeDirectory (Path.ofPieces (pieces ++ [last]).reverse) fs
        = (result, between) ∧ result ≠ .error .notFound ∧
      disk.settle (Path.ofPieces (pieces ++ [last]).reverse) result between = (.ok (), fs') ∧
      fs'.Paved (fs.origin (pieces ++ [last])) (pieces ++ [last]) := by
  have located := (locate_ofPieces apart fs admitted).trans (foldlM_step_eq_ok.mpr ⟨way, rfl⟩)
  have paved := (open_concat.mp way).1
  match h : fs.entry? (follow (fs.origin (pieces ++ [last])) (pieces ++ [last])) with
  | none =>
    refine ⟨_, _, _, makeDirectory_of_none located h, nofun, settle_of_ne nofun, ?_⟩
    have notRoot : follow (fs.origin (pieces ++ [last])) (pieces ++ [last]) ≠ [] := fun root => by
      rw [root, entry?_root] at h
      cases h
    rw [paved_concat, entry?_put fs notRoot, if_pos rfl]
    refine ⟨fun front isPrefix => ?_, rfl⟩
    rw [entry?_put fs notRoot]
    split
    · rfl
    · exact paved front isPrefix
  | some (.file content) => exact absurd h (passable _ content List.prefix_rfl)
  | some .directory =>
    exact ⟨_, _, _, makeDirectory_of_some located (by rw [h]; rfl), nofun,
      settle_of_directory located h, paved_concat.mpr ⟨paved, h⟩⟩

/-- **Directories are created unless a file is in the way** or a piece is too long. -/
theorem makeDirectories_chain (apart : ∀ piece ∈ pieces, '/' ∉ piece)
    (admitted : ∀ path ∈ Path.chain pieces.reverse, Admitted path)
    (start : fs.entry? (fs.origin pieces) = some .directory)
    (passable : fs.Passable (fs.origin pieces) pieces) (fits : ∀ piece ∈ pieces, Fits piece) :
    ∃ fs', disk.makeDirectories (Path.chain pieces.reverse) fs = (.ok (), fs') ∧
      fs'.Paved (fs.origin pieces) pieces := by
  induction pieces using List.reverseRecOn with
  | nil => exact ⟨fs, rfl, fun front h => by rw [List.prefix_nil.mp h]; exact start⟩
  | append_singleton pieces last ih =>
    obtain ⟨fits_before, fits_last⟩ := List.forall_mem_append.mp fits
    -- what comes of the pieces in front of the last, where there are any
    have before (nonempty : pieces ≠ [])
        (admitted : ∀ path ∈ Path.chain pieces.reverse, Admitted path) : ∃ fs',
          disk.makeDirectories (Path.chain pieces.reverse) fs = (.ok (), fs') ∧
            fs'.Paved (fs.origin (pieces ++ [last])) pieces := by
      rw [origin_append fs nonempty] at start passable ⊢
      exact ih (fun piece hp => apart piece (List.mem_append_left _ hp)) admitted start
        (fun front content h => passable front content (h.trans (List.prefix_append _ _)))
        fits_before
    by_cases said : pieces = [] ∨ (Path.innerComponent? last).isSome
    · rw [Path.chain_concat_of_said said] at admitted ⊢
      obtain ⟨admitted_last, admitted_before⟩ := List.forall_mem_cons.mp admitted
      rcases foldlM_step_of_passable passable fits with ok | missing
      · obtain ⟨result, between, fs', made, found, settled, paved⟩ :=
          settle_makeDirectory apart admitted_last (foldlM_step_eq_ok.mp ok).1 passable
        exact ⟨fs', (Disk.makeDirectories_of_ne made found).trans settled, paved⟩
      · have nonempty : pieces ≠ [] := by
          rintro rfl
          have ok : fs.step (fs.origin [last]) last = .ok (move (fs.origin [last]) last) :=
            step_eq_ok.mpr ⟨start, fits_last last List.mem_cons_self, rfl⟩
          simp [ok] at missing
        obtain ⟨fs', made, paved⟩ := before nonempty admitted_before
        have gains := makeDirectories_gains (Path.chain pieces.reverse) fs
        rw [made] at gains
        have same := gains.keeps.origin (pieces ++ [last])
        obtain ⟨result, between, fs'', made', -, settled, paved'⟩ :=
          settle_makeDirectory apart admitted_last (same ▸ open_concat.mpr ⟨paved, fits⟩)
            (same ▸ gains.passable passable)
        have refused := makeDirectory_of_error
          ((locate_ofPieces apart fs admitted_last).trans missing)
        refine ⟨fs'', ?_, same ▸ paved'⟩
        rw [Disk.makeDirectories_of_notFound refused made, made', settled]
    · obtain ⟨nonempty, silent⟩ := not_or.mp said
      rw [Path.chain_concat nonempty, if_neg silent] at admitted ⊢
      obtain ⟨fs', made, paved⟩ := before nonempty admitted
      refine ⟨fs', made, paved_concat.mpr ⟨paved, ?_⟩⟩
      rw [follow_append]
      show fs'.entry? (move _ last) = _
      rw [move_of_not_said _ (by simpa using silent)]
      exact paved pieces List.prefix_rfl

end

end FileSystem

end TreeRewrite
