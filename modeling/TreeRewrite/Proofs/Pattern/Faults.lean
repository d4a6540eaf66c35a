import TreeRewrite.Proofs.Pattern.Keys

/-!
# What is wrong with keys

Keys are looked at in the order in which they are written, each with the keys inside it before the
next one, and the first that is at fault is reported.  This is said twice here: as a function that
goes through the keys, which is what the resolution of keys is compared with, and by what stands in
front of the key at fault.

## What is here

* `Key.firstFault?` — the first fault of keys, if any.
* `Key.firstFault?_eq_none_iff` — there is none just if all lists in them are sound.
* `Key.IsFirstFault` — the error is that of the first key at fault, and everything in front of it is
  sound.  `Key.firstFault?_eq_some_iff` says that this is the same.
* `Key.buildsAll` — the lists that are built at once.  They stand inside the keys, so nothing is
  wrong with them if nothing is wrong with the keys (`Key.findSome?_buildsAll`).
-/

set_option autoImplicit false

namespace TreeRewrite

variable {σ ε : Type}

namespace Key

/-! ## What is wrong with keys -/

/-- The fault of a name that is reserved. -/
def reservedFault? (name : String) : Option TableError :=
  if isReserved name then some (.reservedName name) else none

/-- The fault of a name behind a key for the same kind, the first one if there are several. -/
def duplicateFault? (kinds : KindTable) (before : List (Key σ ε)) (name : String) :
    Option TableError := do
  let kind ← kinds.kindOf name
  let first ← before.find? fun key => kinds.kindOf key.name == some kind
  return .duplicateKind kind first.name name

mutual

/-- What is wrong with a key behind other keys: first its name may be reserved, then there are the
keys inside, and then its kind may be taken. -/
def fault? (kinds : KindTable) (before : List (Key σ ε)) : Key σ ε → Option TableError
  | ⟨name, _, inner⟩ =>
    (reservedFault? name).or ((firstFault? kinds [] inner).or (duplicateFault? kinds before name))

/-- What is wrong with the first of several keys with which something is wrong. -/
def firstFault? (kinds : KindTable) (before : List (Key σ ε)) : List (Key σ ε) → Option TableError
  | [] => none
  | key :: rest => (key.fault? kinds before).or (firstFault? kinds (before ++ [key]) rest)

end

section

variable {kinds : KindTable}

theorem reservedFault?_eq_none {name : String} :
    reservedFault? name = none ↔ isReserved name = false := by
  rw [reservedFault?]
  split <;> simp_all

theorem duplicateFault?_eq_none {before : List (Key σ ε)} {key : Key σ ε} :
    duplicateFault? kinds before key.name = none ↔ ∀ other ∈ before, Apart kinds other key := by
  rw [duplicateFault?]
  cases hk : kinds.kindOf key.name with
  | none => simp [Apart, hk]
  | some kind =>
    cases hf : before.find? fun key => kinds.kindOf key.name == some kind with
    | none =>
      simp only [Option.bind_eq_bind, Option.bind_some, hf, Option.bind_none, true_iff]
      intro other mem kind' h
      rw [hk]
      rintro ⟨⟩
      simpa [h] using List.find?_eq_none.1 hf other mem
    | some first =>
      have same : kinds.kindOf first.name = some kind := by simpa using List.find?_some hf
      simp only [Option.bind_eq_bind, Option.bind_some, hf]
      exact ⟨nofun, fun h => absurd hk (h first (List.mem_of_find?_eq_some hf) kind same)⟩

theorem reservedFault?_eq_some {name : String} {e : TableError} :
    reservedFault? name = some e ↔ isReserved name = true ∧ .reservedName name = e := by
  rw [reservedFault?]
  split <;> simp_all

theorem duplicateFault?_eq_some {before : List (Key σ ε)} {name : String} {e : TableError} :
    duplicateFault? kinds before name = some e ↔ ∃ kind, kinds.kindOf name = some kind ∧
      ∃ first, (before.find? fun key => kinds.kindOf key.name == some kind) = some first ∧
        .duplicateKind kind first.name name = e := by
  simp only [duplicateFault?, Option.bind_eq_bind, Option.bind_eq_some_iff, Option.pure_def,
    Option.some.injEq]

theorem fault?_eq (before : List (Key σ ε)) (key : Key σ ε) :
    key.fault? kinds before = (reservedFault? key.name).or
      ((firstFault? kinds [] key.inner).or (duplicateFault? kinds before key.name)) := by
  cases key
  rw [fault?]

theorem fault?_eq_none {before : List (Key σ ε)} {key : Key σ ε} :
    key.fault? kinds before = none ↔ isReserved key.name = false ∧
      firstFault? kinds [] key.inner = none ∧ ∀ other ∈ before, Apart kinds other key := by
  rw [fault?_eq, Option.or_eq_none_iff, Option.or_eq_none_iff, reservedFault?_eq_none,
    ← duplicateFault?_eq_none]

theorem firstFault?_eq_none {before keys : List (Key σ ε)} :
    firstFault? kinds before keys = none ↔ Sound kinds keys ∧
      (∀ key ∈ keys, firstFault? kinds [] key.inner = none) ∧
      ∀ key ∈ keys, ∀ other ∈ before, Apart kinds other key := by
  induction keys generalizing before with
  | nil => simp [firstFault?, sound_nil]
  | cons key rest ih =>
    rw [firstFault?, Option.or_eq_none_iff, fault?_eq_none, ih, sound_cons]
    simp only [List.forall_mem_cons, List.forall_mem_append, List.not_mem_nil, false_implies,
      implies_true, and_true]
    constructor
    · rintro ⟨⟨reserved, below, front⟩, sound, belows, apart⟩
      exact ⟨⟨reserved, fun other h => (apart other h).2, sound⟩, ⟨below, belows⟩, front,
        fun other h => (apart other h).1⟩
    · rintro ⟨⟨reserved, first, sound⟩, ⟨below, belows⟩, front, fronts⟩
      exact ⟨⟨reserved, below, front⟩, sound, belows,
        fun other h => ⟨fronts other h, first other h⟩⟩

/-- **Nothing is wrong with keys just if every list in them is sound.** -/
theorem firstFault?_eq_none_iff {keys : List (Key σ ε)} :
    firstFault? kinds [] keys = none ↔ SoundThroughout kinds keys := by
  induction keys using induction with
  | list keys ih =>
    rw [firstFault?_eq_none, SoundThroughout, forall_within_iff]
    refine and_congr_right fun _ => ?_
    rw [and_iff_left fun _ _ _ h => nomatch h]
    exact forall₂_congr ih

theorem firstFault?_append (before keys more : List (Key σ ε)) :
    firstFault? kinds before (keys ++ more)
      = (firstFault? kinds before keys).or (firstFault? kinds (before ++ keys) more) := by
  induction keys generalizing before with
  | nil => rw [List.append_nil]; rfl
  | cons key rest ih =>
    rw [List.cons_append, firstFault?, firstFault?, ih, Option.or_assoc, List.append_assoc,
      List.singleton_append]

end

/-- `IsFirstFault kinds keys e` says that `e` is the error of the first key at fault: everything in
front of the key is sound, in its list and around it, and of what can be wrong with it, `e` is what
comes first. -/
inductive IsFirstFault (kinds : KindTable) : List (Key σ ε) → TableError → Prop
  /-- Its name is reserved. -/
  | reserved {before after : List (Key σ ε)} {key : Key σ ε} (fine : SoundThroughout kinds before)
      (h : isReserved key.name = true) :
      IsFirstFault kinds (before ++ key :: after) (.reservedName key.name)
  /-- A key inside it is at fault. -/
  | inner {before after : List (Key σ ε)} {key : Key σ ε} {e : TableError}
      (fine : SoundThroughout kinds before) (h : isReserved key.name = false)
      (inside : IsFirstFault kinds key.inner e) : IsFirstFault kinds (before ++ key :: after) e
  /-- An earlier key of the list is for the same kind. -/
  | duplicate {before after : List (Key σ ε)} {first key : Key σ ε} {kind : Kind}
      (fine : SoundThroughout kinds before) (h : isReserved key.name = false)
      (inside : SoundThroughout kinds key.inner) (mem : first ∈ before)
      (hfirst : kinds.kindOf first.name = some kind) (hkey : kinds.kindOf key.name = some kind) :
      IsFirstFault kinds (before ++ key :: after) (.duplicateKind kind first.name key.name)

section

variable {kinds : KindTable}

theorem firstFault?_append_cons {before after : List (Key σ ε)} {key : Key σ ε}
    (fine : SoundThroughout kinds before) : firstFault? kinds [] (before ++ key :: after)
      = (key.fault? kinds before).or (firstFault? kinds (before ++ [key]) after) := by
  rw [firstFault?_append, firstFault?_eq_none_iff.2 fine, Option.none_or, List.nil_append,
    firstFault?]

/-- What is wrong with a key behind sound ones is the first fault. -/
theorem isFirstFault_of_fault? {before after : List (Key σ ε)} {key : Key σ ε} {e : TableError}
    (fine : SoundThroughout kinds before) (h : key.fault? kinds before = some e)
    (inside : firstFault? kinds [] key.inner = some e → IsFirstFault kinds key.inner e) :
    IsFirstFault kinds (before ++ key :: after) e := by
  rw [fault?_eq, Option.or_eq_some_iff, Option.or_eq_some_iff, reservedFault?_eq_none] at h
  obtain h | ⟨reserved, h | ⟨sound, h⟩⟩ := h
  · obtain ⟨reserved, rfl⟩ := reservedFault?_eq_some.1 h
    exact .reserved fine reserved
  · exact .inner fine reserved (inside h)
  · obtain ⟨kind, hk, first, hf, ⟨⟩⟩ := duplicateFault?_eq_some.1 h
    exact .duplicate fine reserved (firstFault?_eq_none_iff.1 sound)
      (List.mem_of_find?_eq_some hf) (by simpa using List.find?_some hf) hk

/-- **The first fault of keys** is that of the first key at fault. -/
theorem firstFault?_eq_some_iff {keys : List (Key σ ε)} {e : TableError} :
    firstFault? kinds [] keys = some e ↔ IsFirstFault kinds keys e := by
  constructor
  · induction keys using induction with
    | list keys ih =>
      intro h
      -- The keys are gone through, and those that are behind already have turned out sound.
      suffices ∀ rest before, before ++ rest = keys → SoundThroughout kinds before →
          firstFault? kinds before rest = some e → IsFirstFault kinds keys e from
        this keys [] rfl (firstFault?_eq_none_iff.1 rfl) h
      intro rest
      induction rest with
      | nil => exact fun _ _ _ h => nomatch h
      | cons key rest ihRest =>
        rintro before rfl fine h
        rw [firstFault?, Option.or_eq_some_iff] at h
        obtain here | ⟨none, later⟩ := h
        · exact isFirstFault_of_fault? fine here (ih key (by simp))
        · have sound : firstFault? kinds [] (before ++ [key]) = Option.none := by
            rw [firstFault?_append_cons fine, none]
            rfl
          exact ihRest (before ++ [key]) (by simp) (firstFault?_eq_none_iff.1 sound) later
  · intro h
    induction h with
    | reserved fine h =>
      rw [firstFault?_append_cons fine, fault?_eq, reservedFault?_eq_some.2 ⟨h, rfl⟩]
      rfl
    | inner fine h _ ih =>
      rw [firstFault?_append_cons fine, fault?_eq, reservedFault?_eq_none.2 h, ih]
      rfl
    | duplicate fine h inside mem hfirst hkey =>
      have found := (fine _ (.self _)).find? mem hfirst
      rw [firstFault?_append_cons fine, fault?_eq, reservedFault?_eq_none.2 h,
        firstFault?_eq_none_iff.2 inside, duplicateFault?_eq_some.2 ⟨_, hkey, _, found, rfl⟩]
      rfl

/-- Of several lists, the first one with a fault. -/
theorem findSome?_eq_some_iff {lists : List (List (Key σ ε))} {e : TableError} :
    lists.findSome? (firstFault? kinds []) = some e ↔ ∃ earlier level later,
      lists = earlier ++ level :: later ∧ (∀ list ∈ earlier, SoundThroughout kinds list) ∧
        IsFirstFault kinds level e := by
  simp only [List.findSome?_eq_some_iff, firstFault?_eq_none_iff, firstFault?_eq_some_iff,
    and_comm (a := IsFirstFault ..)]

end

/-! ## What is built at once -/

mutual

/-- The lists that are built into tables before the list around a key is resolved, in the order in
which they are built. -/
def builds : Key σ ε → List (List (Key σ ε))
  | ⟨_, .nested, inner⟩ => buildsAll inner ++ [inner]
  | ⟨_, .matched _, inner⟩ => buildsAll inner

/-- The lists that are built into tables before the list of the keys is resolved, in the order in
which they are built. -/
def buildsAll : List (Key σ ε) → List (List (Key σ ε))
  | [] => []
  | key :: rest => key.builds ++ buildsAll rest

end

mutual

theorem within_of_mem_builds : ∀ (key : Key σ ε), ∀ level ∈ key.builds, Within level key.inner
  | ⟨_, .nested, inner⟩ => by
    rw [builds]
    refine List.forall_mem_append.2 ⟨fun level mem => ?_, List.forall_mem_singleton.2 (.self inner)⟩
    obtain ⟨_, mem, within⟩ := within_of_mem_buildsAll inner level mem
    exact .inner mem within
  | ⟨_, .matched _, inner⟩ => by
    rw [builds]
    intro level mem
    obtain ⟨_, mem, within⟩ := within_of_mem_buildsAll inner level mem
    exact .inner mem within

theorem within_of_mem_buildsAll : ∀ (keys : List (Key σ ε)), ∀ level ∈ buildsAll keys,
    ∃ key ∈ keys, Within level key.inner
  | [] => nofun
  | key :: rest => by
    rw [buildsAll]
    refine List.forall_mem_append.2 ⟨fun level mem => ?_, fun level mem => ?_⟩
    · exact ⟨key, List.mem_cons_self, within_of_mem_builds key level mem⟩
    · obtain ⟨other, mem, within⟩ := within_of_mem_buildsAll rest level mem
      exact ⟨other, List.mem_cons_of_mem _ mem, within⟩

end

/-- If nothing is wrong with keys, then nothing is wrong with the lists that are built at once. -/
theorem findSome?_buildsAll {kinds : KindTable} {keys : List (Key σ ε)}
    (h : firstFault? kinds [] keys = none) :
    (buildsAll keys).findSome? (firstFault? kinds []) = none := by
  refine List.findSome?_eq_none_iff.2 fun level mem => ?_
  obtain ⟨key, mem, within⟩ := within_of_mem_buildsAll keys level mem
  exact firstFault?_eq_none_iff.2 ((firstFault?_eq_none_iff.1 h).within (.inner mem within))

end Key

end TreeRewrite
