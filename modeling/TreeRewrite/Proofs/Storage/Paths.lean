import Mathlib.Data.List.Infix
import Mathlib.Data.List.Induction
import TreeRewrite.Storage.Path

/-!
# What paths mean

A path is a text, but what is said about it here is said piece by piece: the pieces of a directory
stand in front of the pieces of what is in it, and of all pieces only those count that say
something.

## What is here

* `Path.segments_append_slash`, `Path.segments_append` — the pieces of a text that is put together.
* `Path.base` — the pieces of a directory in front of what is in it (`Path.segments_join`), and
  `Path.meaning`, what such pieces say (`Path.components_eq`).
* `Path.names`, `Path.place` — the names among pieces, and `Path.isPlain_iff`: a plain path starts
  with one and never leads upwards.
* `Path.components_join` — **a plain path stays below the directory** that it is joined to.
* `Path.above_eq`, `Path.exists_of_mem_chain` — the directories on the way to a path, and
  `Path.near_of_mem_above`: **those on the way to a plain path below a directory** are on the way to
  that directory, or below it.
-/

set_option autoImplicit false

namespace TreeRewrite.Path

variable {s t piece last : List Char} {pieces more : List (List Char)} {dir name path : String}

/-! ## Pieces -/

theorem segments_eq_splitOn (s : List Char) : segments s = s.splitOn '/' := by
  induction s with
  | nil => rfl
  | cons c s ih =>
    rw [segments, List.splitOn_cons_eq_if_modifyHead, ← ih]
    by_cases h : c = '/'
    · simp [h]
    · rw [if_neg h, if_neg (by simpa using h)]
      cases hs : segments s with
      | nil => exact absurd (ih.symm.trans hs) (List.splitOn_ne_nil _ _)
      | cons piece pieces => rfl

theorem segments_ne_nil (s : List Char) : segments s ≠ [] :=
  segments_eq_splitOn s ▸ List.splitOn_ne_nil _ _

/-- A slash separates pieces. -/
theorem segments_append_slash (s t : List Char) :
    segments (s ++ '/' :: t) = segments s ++ segments t := by
  simp only [segments_eq_splitOn, List.splitOn_append_cons_self]

/-- Without a slash there is one piece. -/
theorem segments_of_not_mem (h : '/' ∉ s) : segments s = [s] :=
  (segments_eq_splitOn s).trans (List.splitOn_eq_singleton h)

theorem segments_slash (s : List Char) : segments ('/' :: s) = [] :: segments s :=
  segments_append_slash [] s

theorem segments_cons {c : Char} (h : c ≠ '/') (first : segments s = piece :: pieces) :
    segments (c :: s) = (c :: piece) :: pieces := by
  rw [segments, if_neg h, first]

/-- A text is its pieces with slashes between them. -/
theorem intercalate_segments (s : List Char) : ['/'].intercalate (segments s) = s :=
  segments_eq_splitOn s ▸ List.intercalate_splitOn _

theorem segments_injective : Function.Injective segments := fun s t h => by
  rw [← intercalate_segments s, h, intercalate_segments]

/-- What is put behind a text without a slash belongs to its last piece. -/
theorem segments_append (s : List Char) (h : '/' ∉ t) : ∃ front last,
    segments s = front ++ [last] ∧ segments (s ++ t) = front ++ [last ++ t] := by
  induction s with
  | nil => exact ⟨[], [], rfl, segments_of_not_mem h⟩
  | cons c s ih =>
    obtain ⟨front, last, eq, eq'⟩ := ih
    rw [List.cons_append]
    by_cases hc : c = '/'
    · refine ⟨[] :: front, last, ?_, ?_⟩ <;>
        simp only [hc, segments_slash, eq, eq', List.cons_append]
    · cases front with
      | nil => exact ⟨[], c :: last, segments_cons hc eq, segments_cons hc eq'⟩
      | cons piece front =>
        exact ⟨(c :: piece) :: front, last, segments_cons hc eq, segments_cons hc eq'⟩

theorem not_mem_of_mem_segments (h : piece ∈ segments s) : '/' ∉ piece := by
  induction s generalizing piece with
  | nil => simp_all [segments]
  | cons c s ih =>
    by_cases hc : c = '/'
    · rw [hc, segments_slash] at h
      obtain rfl | h := List.mem_cons.mp h
      · exact List.not_mem_nil
      · exact ih h
    · obtain ⟨first, pieces, eq⟩ := List.exists_cons_of_ne_nil (segments_ne_nil s)
      rw [segments_cons hc eq] at h
      rw [eq] at ih
      obtain rfl | h := List.mem_cons.mp h
      · rw [List.mem_cons, not_or]
        exact ⟨Ne.symm hc, ih List.mem_cons_self⟩
      · exact ih (List.mem_cons_of_mem _ h)

theorem toList_ofPieces (notRoot : pieces ≠ [[]]) :
    (ofPieces pieces.reverse).toList = ['/'].intercalate pieces := by
  have notRoot' : pieces.reverse ≠ [[]] := fun h => notRoot (List.reverse_eq_iff.mp h)
  have same : (pieces.map String.ofList).map String.toList = pieces := by simp
  rw [ofPieces.eq_2 _ notRoot', List.reverse_reverse, String.toList_intercalate, same]
  rfl

/-- The pieces of a text made of pieces. -/
theorem segments_ofPieces (nonempty : pieces ≠ []) (notRoot : pieces ≠ [[]])
    (apart : ∀ piece ∈ pieces, '/' ∉ piece) :
    segments (ofPieces pieces.reverse).toList = pieces := by
  rw [toList_ofPieces notRoot, segments_eq_splitOn]
  exact List.splitOn_intercalate _ apart nonempty

theorem intercalate_append (nonempty : pieces ≠ []) (some : more ≠ []) :
    ['/'].intercalate (pieces ++ more)
      = ['/'].intercalate pieces ++ '/' :: ['/'].intercalate more := by
  induction pieces with
  | nil => exact absurd rfl nonempty
  | cons piece pieces ih =>
    obtain rfl | h := eq_or_ne pieces []
    · rw [List.singleton_append, List.intercalate_cons_of_ne_nil some, List.intercalate_singleton,
        List.append_assoc, List.singleton_append]
    · rw [List.cons_append, List.intercalate_cons_of_ne_nil (by simp [h]),
        List.intercalate_cons_of_ne_nil h, ih h, List.append_assoc, List.append_assoc]
      simp only [List.append_assoc]

/-- The path of the first pieces of a text is the start of the text. -/
theorem ofPieces_prefix (nonempty : pieces ≠ []) (some : more ≠ [])
    (h : segments s = pieces ++ more) : (ofPieces pieces.reverse).toList <+: s := by
  rw [← intercalate_segments s, h, intercalate_append nonempty some]
  by_cases root : pieces = [[]]
  · rw [root]
    exact List.prefix_append ['/'] _
  · rw [toList_ofPieces root]
    exact List.prefix_append _ _

/-! ## What pieces say -/

/-- The pieces of a directory that stand in front of those of what is in it: all but a blank last
one. -/
def base (dir : String) : List (List Char) :=
  if (segments dir.toList).getLast? = some [] then (segments dir.toList).dropLast
  else segments dir.toList

theorem base_of_segments (h : segments dir.toList = pieces ++ [last]) :
    base dir = if last = [] then pieces else pieces ++ [last] := by
  simp [base, h]

/-- What a piece in front of a path says: nothing in front of a slash is the root, and a dot is the
working directory. -/
def frontComponent? : List Char → Option Component
  | [] => some .root
  | ['.'] => some .current
  | piece => innerComponent? piece

/-- What the pieces of a path say, if no blank one is the last. -/
def meaning : List (List Char) → List Component
  | [] => []
  | first :: rest => (frontComponent? first).toList ++ rest.filterMap innerComponent?

theorem meaning_append (h : pieces ≠ []) :
    meaning (pieces ++ more) = meaning pieces ++ more.filterMap innerComponent? := by
  obtain ⟨first, rest, rfl⟩ := List.exists_cons_of_ne_nil h
  simp only [List.cons_append, meaning, List.filterMap_append, List.append_assoc]

theorem frontComponent?_of_ne (blank : piece ≠ []) (dot : piece ≠ ['.']) :
    frontComponent? piece = innerComponent? piece := by
  unfold frontComponent?
  split <;> simp_all

theorem components_of_segments (h : segments path.toList = pieces) (notBlank : pieces ≠ [[]]) :
    components path = meaning pieces := by
  rw [components, h]
  split
  · rfl
  · exact absurd rfl notBlank
  · rfl
  · rfl
  · next blank dot =>
    cases pieces with
    | nil => rfl
    | cons first rest =>
      have same : frontComponent? first = innerComponent? first :=
        frontComponent?_of_ne (fun h => blank rest (by rw [h])) fun h => dot rest (by rw [h])
      rw [meaning, same, List.filterMap_cons]
      cases innerComponent? first <;> rfl

/-- **The components of a path are what its pieces say.** -/
theorem components_eq (path : String) : components path = meaning (base path) := by
  obtain ⟨pieces, last, h⟩ := (List.eq_nil_or_concat' (segments path.toList)).resolve_left
    (segments_ne_nil _)
  rw [base_of_segments h]
  split
  · next blank =>
    -- a blank piece that is the last says nothing, and in front of it there may be none
    rw [blank] at h
    cases pieces with
    | nil => rw [components, h]; rfl
    | cons first rest =>
      rw [components_of_segments h (by simp), meaning_append (List.cons_ne_nil _ _)]
      exact List.append_nil _
  · next said =>
    refine components_of_segments h fun eq => said ?_
    simpa using congrArg List.getLast? eq

/-- **What is in a directory has the pieces of the directory in front.** -/
theorem segments_join (dir : String) (relative : name.toList.head? ≠ some '/') :
    segments (join dir name).toList = base dir ++ segments name.toList := by
  rw [join, if_neg relative]
  split
  · next h =>
    have blank : segments dir.toList = [] ++ [[]] := by rw [List.getLast?_eq_none_iff.mp h]; rfl
    rw [base_of_segments blank, if_pos rfl, List.nil_append]
  · next h =>
    obtain ⟨front, eq⟩ := List.getLast?_eq_some_iff.mp h
    have blank : segments dir.toList = segments front ++ [[]] := by
      rw [eq, segments_append_slash]
      rfl
    rw [base_of_segments blank, if_pos rfl, String.toList_append, eq, List.append_assoc,
      List.singleton_append, segments_append_slash]
  · next c notSlash h =>
    obtain ⟨front, eq⟩ := List.getLast?_eq_some_iff.mp h
    obtain ⟨pieces, last, -, said⟩ := segments_append front (t := [c]) fun mem =>
      notSlash (List.mem_singleton.mp mem).symm
    rw [← eq] at said
    rw [base_of_segments said, if_neg (by simp), ← said, String.toList_append,
      String.toList_append, List.append_assoc]
    exact segments_append_slash _ _

/-! ## Names -/

/-- The name that a piece is. -/
def name? (piece : List Char) : Option String :=
  match innerComponent? piece with
  | some (.name s) => some s
  | _ => none

/-- The names among pieces. -/
def names (pieces : List (List Char)) : List String := pieces.filterMap name?

/-- The names that a path says, one below the other. -/
def place (path : String) : List String := names (segments path.toList)

/-- Does no piece lead upwards? -/
def Downward (pieces : List (List Char)) : Prop := ∀ piece ∈ pieces, piece ≠ ['.', '.']

theorem name?_of_ne (blank : piece ≠ []) (dot : piece ≠ ['.']) (up : piece ≠ ['.', '.']) :
    name? piece = some (String.ofList piece) := by
  unfold name? innerComponent?
  split <;> simp_all

theorem innerComponent?_of_ne (up : piece ≠ ['.', '.']) :
    innerComponent? piece = (name? piece).map .name := by
  unfold name? innerComponent?
  split <;> simp_all

theorem filterMap_innerComponent? (down : Downward pieces) :
    pieces.filterMap innerComponent? = (names pieces).map .name := by
  rw [names, List.map_filterMap]
  exact List.filterMap_congr fun piece h => innerComponent?_of_ne (down piece h)

theorem downward_iff : Downward pieces ↔
    ∀ c ∈ pieces.filterMap innerComponent?, ∃ s, c = .name s := by
  simp only [List.mem_filterMap, forall_exists_index, and_imp]
  refine ⟨fun down c piece mem eq => ?_, fun h piece mem up => ?_⟩
  · rw [innerComponent?_of_ne (down piece mem)] at eq
    obtain ⟨s, -, rfl⟩ := Option.map_eq_some_iff.mp eq
    exact ⟨s, rfl⟩
  · obtain ⟨s, eq⟩ := h .up piece mem (by rw [up]; rfl)
    cases eq

theorem exists_frontComponent? (piece : List Char) : ∃ c, frontComponent? piece = some c ∧
    ((∃ s, c = .name s) ↔ (name? piece).isSome) := by
  unfold frontComponent? name? innerComponent?
  split <;> [skip; skip; split] <;> simp_all

theorem isPlain_eq_true : isPlain path = true ↔ components path ≠ [] ∧
    ∀ c ∈ components path, ∃ s, c = .name s := by
  rw [isPlain]
  split
  · simp [*]
  · next nonempty =>
    rw [List.all_eq_true, and_iff_right nonempty]
    refine forall₂_congr fun c _ => ?_
    cases c <;> simp

/-- **A plain path** starts with a name and never leads upwards. -/
theorem isPlain_iff (h : segments path.toList = piece :: pieces) :
    isPlain path = true ↔ (name? piece).isSome ∧ Downward pieces := by
  rw [isPlain_eq_true]
  by_cases blank : piece :: pieces = [[]]
  · obtain ⟨rfl, rfl⟩ := List.cons_eq_cons.mp blank
    simp [components, h, name?, innerComponent?]
  · obtain ⟨c, front, isName⟩ := exists_frontComponent? piece
    rw [components_of_segments h blank, meaning, front, Option.toList_some, List.singleton_append,
      List.forall_mem_cons, isName, ← downward_iff]
    exact and_iff_right (List.cons_ne_nil _ _)

theorem name?_of_long (long : 2 < piece.length) : name? piece = some (String.ofList piece) := by
  apply name?_of_ne <;> rintro rfl <;> simp at long

/-- What a text of several characters makes of a plain path is plain. -/
theorem isPlain_append {suffix : String} (one : '/' ∉ suffix.toList)
    (long : 2 < suffix.toList.length) (h : isPlain name = true) :
    isPlain (name ++ suffix) = true := by
  obtain ⟨front, last, eq, eq'⟩ := segments_append name.toList one
  rw [← String.toList_append] at eq'
  have named : (name? (last ++ suffix.toList)).isSome := by
    rw [name?_of_long (by rw [List.length_append]; omega)]
    rfl
  cases front with
  | nil => exact (isPlain_iff eq').mpr ⟨named, fun _ h => nomatch h⟩
  | cons first front =>
    obtain ⟨here, down⟩ := (isPlain_iff eq).mp h
    refine (isPlain_iff eq').mpr ⟨here, List.forall_mem_append.mpr
      ⟨(List.forall_mem_append.mp down).1, List.forall_mem_singleton.mpr fun up => ?_⟩⟩
    rw [up] at named
    cases named

theorem relative_of_isPlain (h : isPlain name = true) : name.toList.head? ≠ some '/' := by
  intro root
  obtain ⟨s, eq⟩ := List.head?_eq_some_iff.mp root
  cases ((isPlain_iff (by rw [eq, segments_slash])).mp h).1

theorem downward_of_isPlain (h : isPlain name = true) : Downward (segments name.toList) := by
  obtain ⟨first, rest, eq⟩ := List.exists_cons_of_ne_nil (segments_ne_nil name.toList)
  obtain ⟨here, down⟩ := (isPlain_iff eq).mp h
  rw [eq]
  refine List.forall_mem_cons.mpr ⟨fun up => ?_, down⟩
  rw [up] at here
  cases here

/-- Is every piece of a path a name? -/
def Tidy (path : String) : Prop := ∀ piece ∈ segments path.toList, (name? piece).isSome

theorem name?_of_isSome (named : (name? piece).isSome) :
    name? piece = some (String.ofList piece) := by
  apply name?_of_ne <;> rintro rfl <;> cases named

theorem names_of_forall (named : ∀ piece ∈ pieces, (name? piece).isSome) :
    names pieces = pieces.map String.ofList := by
  rw [names, ← List.filterMap_eq_map]
  exact List.filterMap_congr fun piece mem => name?_of_isSome (named piece mem)

/-- A plain path with a name at its end, as files below a directory have. -/
structure Inner (path : String) : Prop where
  plain : isPlain path = true
  ends : ∃ pieces last, segments path.toList = pieces ++ [last] ∧ (name? last).isSome

/-- Pieces of a plain path say behind others that they are names. -/
theorem meaning_append_of_isPlain (h : isPlain name = true)
    (front : more <+: segments name.toList) :
    meaning (pieces ++ more) = meaning pieces ++ (names more).map .name := by
  have down : Downward more := fun piece hp => downward_of_isPlain h piece (front.subset hp)
  rw [← filterMap_innerComponent? down]
  obtain rfl | nonempty := eq_or_ne pieces []
  · cases more with
    | nil => rfl
    | cons first rest =>
      obtain ⟨after, eq⟩ := front
      have named := ((isPlain_iff eq.symm).mp h).1
      have same : frontComponent? first = innerComponent? first := by
        apply frontComponent?_of_ne <;> rintro rfl <;> cases named
      rw [List.nil_append, meaning, meaning, List.nil_append, same, List.filterMap_cons]
      cases innerComponent? first <;> rfl
  · exact meaning_append nonempty

/-- **A plain path stays below the directory** that it is joined to. -/
theorem components_join (dir : String) (h : isPlain name = true) :
    components (join dir name) = components dir ++ (place name).map .name := by
  have notBlank : base dir ++ segments name.toList ≠ [[]] := by
    rintro blank
    obtain ⟨-, eq⟩ | ⟨-, eq⟩ := List.append_eq_singleton_iff.mp blank
    · cases ((isPlain_iff eq).mp h).1
    · exact segments_ne_nil _ eq
  rw [components_of_segments (segments_join dir (relative_of_isPlain h)) notBlank,
    meaning_append_of_isPlain h List.prefix_rfl, components_eq, place]

theorem exists_names (plain : isPlain name = true) :
    ∃ ns, ns ≠ [] ∧ components name = ns.map .name := by
  have alone : join "" name = name := by
    rw [join]
    split <;> rfl
  have eq := components_join "" plain
  rw [alone] at eq
  exact ⟨place name, fun none => (isPlain_eq_true.mp plain).1 (by rw [eq, none]; rfl), eq⟩

/-! ## Directories on the way -/

theorem of_prefix_append {α : Type} {front first rest : List α} (h : front <+: first ++ rest) :
    front <+: first ∨ ∃ more, more <+: rest ∧ front = first ++ more := by
  rcases List.prefix_or_prefix_of_prefix h (List.prefix_append _ _) with inside | ⟨more, rfl⟩
  · exact .inl inside
  · exact .inr ⟨more, (List.prefix_append_right_inj first).mp h, rfl⟩

theorem chain_concat (h : pieces ≠ []) : chain (pieces ++ [last]).reverse =
    if (innerComponent? last).isSome then
      ofPieces (pieces ++ [last]).reverse :: chain pieces.reverse
    else chain pieces.reverse := by
  rw [List.reverse_concat, chain]
  exact fun eq => h (List.reverse_eq_nil_iff.mp eq)

/-- A piece that says something adds a directory to those on the way. -/
theorem chain_concat_of_said (h : pieces = [] ∨ (innerComponent? last).isSome) :
    chain (pieces ++ [last]).reverse
      = ofPieces (pieces ++ [last]).reverse :: chain pieces.reverse := by
  obtain rfl | nonempty := eq_or_ne pieces []
  · rfl
  · rw [chain_concat nonempty, if_pos (h.resolve_left nonempty)]

/-- The directories above a path that ends with a name are the paths of the pieces in front of
it. -/
theorem above_eq (h : segments path.toList = pieces ++ [last]) (named : (name? last).isSome) :
    above path = chain pieces.reverse := by
  have said : (innerComponent? last).isSome := by
    unfold name? at named
    split at named <;> simp_all
  rw [above, h]
  by_cases hp : pieces = []
  · rw [hp]
    rfl
  · rw [chain_concat hp, if_pos said, List.drop_one, List.tail_cons]

theorem base_ofPieces {front : List (List Char)} (apart : ∀ piece ∈ front ++ [last], '/' ∉ piece)
    (h : front = [] ∨ last ≠ []) : base (ofPieces (front ++ [last]).reverse) = front ++ [last] := by
  by_cases root : front ++ [last] = [[]]
  · rw [root]
    rfl
  · rw [base_of_segments (segments_ofPieces (by simp) root apart)]
    refine if_neg fun blank => root ?_
    rw [blank, h.resolve_right (absurd blank)]
    rfl

/-- What is on the way along some pieces is the path of the first of them. -/
theorem exists_of_mem_chain (h : path ∈ chain pieces.reverse) : ∃ front last,
    front ++ [last] <+: pieces ∧ path = ofPieces (front ++ [last]).reverse ∧
      (front = [] ∨ (innerComponent? last).isSome) := by
  induction pieces using List.reverseRecOn with
  | nil => cases h
  | append_singleton before end_ ih =>
    by_cases alone : before = []
    · rw [alone] at h ⊢
      exact ⟨[], end_, List.prefix_rfl, List.mem_singleton.mp h, .inl rfl⟩
    · have later (h : path ∈ chain before.reverse) : ∃ front last,
          front ++ [last] <+: before ++ [end_] ∧ path = ofPieces (front ++ [last]).reverse ∧
            (front = [] ∨ (innerComponent? last).isSome) := by
        obtain ⟨front, last, isPrefix, found⟩ := ih h
        exact ⟨front, last, isPrefix.trans (List.prefix_append _ _), found⟩
      rw [chain_concat alone] at h
      split at h
      · next said =>
        obtain rfl | h := List.mem_cons.mp h
        · exact ⟨before, end_, List.prefix_rfl, rfl, .inr said⟩
        · exact later h
      · exact later h

/-- Is a path one or more names below a directory? -/
def Below (dir path : String) : Prop :=
  ∃ ns, ns ≠ [] ∧ components path = components dir ++ ns.map .name

/-- Is a path on the way to a directory or below it? -/
def Near (dir path : String) : Prop := components path <+: components dir ∨ Below dir path

/-- **The directories on the way to a plain path below a directory** are near that directory. -/
theorem near_of_mem_above (inner : Inner name) (mem : path ∈ above (join dir name)) :
    Near dir path := by
  obtain ⟨plain, pieces, last, h, named⟩ := inner
  have joined := segments_join dir (relative_of_isPlain plain)
  rw [h, ← List.append_assoc] at joined
  rw [above_eq joined named] at mem
  obtain ⟨front, piece, isPrefix, rfl, said⟩ := exists_of_mem_chain mem
  have apart : ∀ other ∈ front ++ [piece], '/' ∉ other := fun other ho => by
    refine not_mem_of_mem_segments (s := (join dir name).toList) ?_
    rw [joined]
    exact List.mem_append_left _ (isPrefix.subset ho)
  have notBlank : front = [] ∨ piece ≠ [] := said.imp_right (by rintro some rfl; cases some)
  rw [Near, Below, components_eq, base_ofPieces apart notBlank, components_eq dir]
  rcases of_prefix_append isPrefix with ⟨more, eq⟩ | ⟨more, isPrefix, eq⟩
  · rw [← eq, meaning_append (by simp : front ++ [piece] ≠ [])]
    exact .inl (List.prefix_append _ _)
  · have inName : more <+: segments name.toList := h ▸ isPrefix.trans (List.prefix_append _ _)
    rw [eq, meaning_append_of_isPlain plain inName]
    refine (em (names more = [])).imp (fun none => ?_) fun some => ⟨names more, some, rfl⟩
    rw [none, List.map_nil, List.append_nil]

end TreeRewrite.Path
