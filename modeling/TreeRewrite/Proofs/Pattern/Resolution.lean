import TreeRewrite.Proofs.Pattern.Faults
import TreeRewrite.Proofs.Tree.Outermost

/-!
# Resolving keys

Clauses are added to a table one by one, and the clauses below a clause are resolved before it is
placed, also if its name stands for no kind and it is dropped in the end.  So a fault below a name
that is ignored is a fault all the same.  What is compared here is this loop, with its early ends,
and two plain readings of the keys: `Key.firstFault?` and `Key.described`.

## What is here

* `Key.place_described` — one rule is placed behind others.
* `Key.addClauses_eq` — **clauses that are resolved give the first fault of their keys, or the table
  that they describe**, behind whatever keys.
* `Key.clauses_eq_error_iff` — the tables that are built at once.
* `Table.ofKeys_eq_ok_iff`, `Table.ofKeys_eq_error_iff` — both together.
* `Table.Resolves` — what the table of a list of keys says at its top.
* `Table.ofKeys_resolves` — which lists of keys have a table, what stands in it at every level, and
  which fault is reported of those that have none.
-/

set_option autoImplicit false

namespace TreeRewrite

variable {σ ε : Type} {kinds : KindTable}

namespace Key

/-- A rule is placed unless a key in front is for the same kind. -/
theorem place_described (kinds : KindTable) (before : List (Key σ ε)) (key : Key σ ε) :
    Table.place kinds (described kinds before) key.name (key.form.rule (described kinds key.inner))
      = Tree.unlessFault (duplicateFault? kinds before key.name)
          (described kinds (before ++ [key])) := by
  rw [described_concat, Table.place, duplicateFault?, listed?_eq]
  cases hk : kinds.kindOf key.name with
  | none => simp [unknown, hk, Tree.unlessFault]
  | some kind =>
    simp only [find?_described, Option.bind_eq_bind, Option.bind_some]
    cases hf : before.find? fun key => kinds.kindOf key.name == some kind with
    | none => simp [unknown, hk, Tree.unlessFault]
    | some first =>
      have same : kinds.kindOf first.name = some kind := by simpa using List.find?_some hf
      rw [Option.bind_some, Option.bind_some, listed?_eq, same]
      rfl

mutual

theorem addClause_eq : ∀ (key : Key σ ε) (before : List (Key σ ε)) {clause : Clause σ ε},
    key.clause kinds = .ok clause →
    Table.addClause kinds (described kinds before) clause
      = Tree.unlessFault (key.fault? kinds before) (described kinds (before ++ [key]))
  | ⟨name, .nested, inner⟩, before, clause, h => by
    obtain ⟨clauses, hc, h⟩ := bind_eq_ok.1 h
    obtain ⟨table, built, ⟨⟩⟩ := bind_eq_ok.1 h
    -- The table was built before, so there is no fault below and it is the one that is described.
    have resolved : Table.ofClauses kinds clauses = _ := addClauses_eq inner [] hc
    rw [built] at resolved
    obtain ⟨sound, rfl⟩ := Tree.unlessFault_eq_ok.1 resolved.symm
    have placed := place_described kinds before ⟨name, .nested, inner⟩
    rw [fault?, sound, Table.addClause, reservedFault?]
    split
    · rfl
    · exact placed
  | ⟨name, .matched hooks, inner⟩, before, clause, h => by
    obtain ⟨clauses, hc, ⟨⟩⟩ := bind_eq_ok.1 h
    have resolved : Table.addClauses kinds .empty clauses = _ := addClauses_eq inner [] hc
    have placed := place_described kinds before ⟨name, .matched hooks, inner⟩
    rw [fault?, Table.addClause, reservedFault?, resolved]
    split
    · rfl
    · cases firstFault? kinds [] inner with
      | none => exact placed
      | some e => rfl

/-- **Resolving clauses behind others** gives the first fault of their keys, or the table that the
keys in front and their keys describe. -/
theorem addClauses_eq : ∀ (keys before : List (Key σ ε)) {clauses : List (Clause σ ε)},
    Key.clauses kinds keys = .ok clauses →
    Table.addClauses kinds (described kinds before) clauses
      = Tree.unlessFault (firstFault? kinds before keys) (described kinds (before ++ keys))
  | [], before, clauses, h => by
    cases h
    rw [List.append_nil]
    rfl
  | key :: rest, before, clauses, h => by
    obtain ⟨clause, here, h⟩ := bind_eq_ok.1 h
    obtain ⟨later, hl, ⟨⟩⟩ := bind_eq_ok.1 h
    have next := addClauses_eq rest (before ++ [key]) hl
    rw [List.append_assoc, List.singleton_append] at next
    rw [Table.addClauses, addClause_eq key before here, firstFault?]
    cases key.fault? kinds before with
    | none => exact next
    | some e => rfl

end

theorem ofClauses_eq {keys : List (Key σ ε)} {clauses : List (Clause σ ε)}
    (h : Key.clauses kinds keys = .ok clauses) : Table.ofClauses kinds clauses
      = Tree.unlessFault (firstFault? kinds [] keys) (described kinds keys) :=
  addClauses_eq keys [] h

mutual

theorem clause_eq_error_iff : ∀ (key : Key σ ε) (e : TableError),
    key.clause kinds = .error e ↔ key.builds.findSome? (firstFault? kinds []) = some e
  | ⟨name, .nested, inner⟩, e => by
    rw [builds, List.findSome?_append, clause]
    refine bind_eq_error_iff (clauses_eq_error_iff inner) (fun clauses h e => ?_) e
    rw [ofClauses_eq h, List.findSome?_singleton, ← Tree.unlessFault_eq_error, bind_eq_error]
    exact or_iff_left fun ⟨_, _, h⟩ => nomatch h
  | ⟨name, .matched hooks, inner⟩, e => by
    rw [builds, clause, ← clauses_eq_error_iff inner, bind_eq_error]
    exact or_iff_left fun ⟨_, _, h⟩ => nomatch h

/-- **The tables that are built at once** are built in order, up to the first one with a fault. -/
theorem clauses_eq_error_iff : ∀ (keys : List (Key σ ε)) (e : TableError),
    Key.clauses kinds keys = .error e
      ↔ (buildsAll keys).findSome? (firstFault? kinds []) = some e
  | [], e => ⟨nofun, nofun⟩
  | key :: rest, e => by
    rw [buildsAll, List.findSome?_append, clauses]
    refine bind_eq_error_iff (clause_eq_error_iff key) (fun clause _ e => ?_) e
    rw [← clauses_eq_error_iff rest, bind_eq_error]
    exact or_iff_left fun ⟨_, _, h⟩ => nomatch h

end

end Key

namespace Table

variable {keys : List (Key σ ε)}

theorem ofKeys_eq_ok_iff {table : Table σ ε} : ofKeys kinds keys = .ok table ↔
    Key.firstFault? kinds [] keys = none ∧ Key.described kinds keys = table := by
  rw [ofKeys, bind_eq_ok, ← Tree.unlessFault_eq_ok]
  constructor
  · rintro ⟨clauses, h, built⟩
    rw [← built, Key.ofClauses_eq h]
  · intro h
    -- What is built at once stands inside the keys, so there is no fault in it.
    have sound := Key.findSome?_buildsAll (Tree.unlessFault_eq_ok.1 h).1
    obtain ⟨clauses, hc⟩ := (exists_eq_ok_iff (Key.clauses_eq_error_iff keys)).2 sound
    exact ⟨clauses, hc, by rw [Key.ofClauses_eq hc, h]⟩

theorem exists_ofKeys_iff :
    (∃ table, ofKeys kinds keys = .ok table) ↔ Key.firstFault? kinds [] keys = none := by
  simp only [ofKeys_eq_ok_iff, exists_and_left, exists_eq', and_true]

theorem ofKeys_eq_error_iff {e : TableError} : ofKeys kinds keys = .error e ↔
    (Key.buildsAll keys ++ [keys]).findSome? (Key.firstFault? kinds []) = some e := by
  rw [List.findSome?_append, List.findSome?_singleton]
  refine bind_eq_error_iff (Key.clauses_eq_error_iff keys) (fun clauses h e => ?_) e
  rw [Key.ofClauses_eq h, Tree.unlessFault_eq_error]

/-- What the table of a list of keys says at its top. -/
structure Resolves (kinds : KindTable) (keys : List (Key σ ε)) (table : Table σ ε) : Prop where
  /-- A key for a kind gives the entry for the kind, labelled with its name, and the rule of the
  entry is its own, over the table of the keys inside. -/
  entry : ∀ key ∈ keys, ∀ kind, kinds.kindOf key.name = some kind →
    ∃ inner, ofKeys kinds key.inner = .ok inner ∧
      table.find? kind = some (.mk kind key.name (key.form.rule inner))
  /-- Every entry comes of a key. -/
  key : ∀ kind entry, table.find? kind = some entry →
    ∃ key ∈ keys, kinds.kindOf key.name = some kind
  /-- The names for no kind are kept, in order and as often as they stand there. -/
  ignored : table.ignored = Key.unknown kinds keys
  size : table.size + table.ignored.length = keys.length

theorem resolves_described (h : Key.firstFault? kinds [] keys = none) :
    Resolves kinds keys (Key.described kinds keys) := by
  obtain ⟨sound, below, -⟩ := Key.firstFault?_eq_none.1 h
  refine ⟨fun key mem kind hk => ?_, fun kind entry hf => ?_, rfl, Key.size_described keys⟩
  · refine ⟨_, ofKeys_eq_ok_iff.2 ⟨below key mem, rfl⟩, ?_⟩
    rw [Key.find?_described, sound.find? mem hk, Option.bind_some, Key.listed?_eq, hk,
      Option.map_some]
  · rw [Key.find?_described] at hf
    obtain ⟨key, found, -⟩ := Option.bind_eq_some_iff.1 hf
    exact ⟨key, List.mem_of_find?_eq_some found, by simpa using List.find?_some found⟩

/-- **A list of keys has a table if every list in it is sound**, at any depth, also below names for
no kind.  Then at every level the entries are those of the keys, and the names for no kind are
ignored.  Otherwise, once the tables that are built at once are there, the first fault of the list
is reported; and if one of these tables cannot be built, it is the first fault of the first such
list. -/
theorem ofKeys_resolves (kinds : KindTable) (keys : List (Key σ ε)) :
    ((∃ table, ofKeys kinds keys = .ok table) ↔ Key.SoundThroughout kinds keys) ∧
    (∀ table, ofKeys kinds keys = .ok table → Resolves kinds keys table ∧
      ∀ level, Key.Within level keys →
        ∃ table', ofKeys kinds level = .ok table' ∧ Resolves kinds level table') ∧
    (∀ clauses error, Key.clauses kinds keys = .ok clauses →
      (ofClauses kinds clauses = .error error ↔ Key.IsFirstFault kinds keys error)) ∧
    ∀ error, ofKeys kinds keys = .error error ↔ ∃ earlier level later,
      Key.buildsAll keys ++ [keys] = earlier ++ level :: later ∧
      (∀ list ∈ earlier, Key.SoundThroughout kinds list) ∧ Key.IsFirstFault kinds level error := by
  refine ⟨exists_ofKeys_iff.trans Key.firstFault?_eq_none_iff, fun table h => ?_,
    fun clauses error h => ?_, fun error => ?_⟩
  · obtain ⟨none, rfl⟩ := ofKeys_eq_ok_iff.1 h
    refine ⟨resolves_described none, fun level within => ?_⟩
    have sound := (Key.firstFault?_eq_none_iff.1 none).within within
    have none' := Key.firstFault?_eq_none_iff.2 sound
    exact ⟨_, ofKeys_eq_ok_iff.2 ⟨none', rfl⟩, resolves_described none'⟩
  · rw [Key.ofClauses_eq h, Tree.unlessFault_eq_error, Key.firstFault?_eq_some_iff]
  · rw [ofKeys_eq_error_iff, Key.findSome?_eq_some_iff]

/-- Two keys, and between them a key for no kind with a key inside. -/
def around (inside second : String) : List (Key Unit RuleError) :=
  [⟨"EqualsToken", .nested, []⟩, ⟨"Unheard", .matched {}, [⟨inside, .matched {}, []⟩]⟩,
    ⟨second, .nested, [⟨"Block", .matched {}, []⟩]⟩]

/-- The key inside is looked at, although nothing will come of it, and before the key behind. -/
theorem ofKeys_resolves_around :
    (∃ table, ofKeys .builtin (around "Unheard" "Block") = .ok table ∧
      (∃ inner, ofKeys .builtin [⟨"Block", .matched {}, []⟩] = .ok inner ∧
        table.find? ⟨207⟩ = some (.mk ⟨207⟩ "Block" (.nested inner))) ∧
      table.ignored = ["Unheard"]) ∧
    ofKeys .builtin (around "Unheard" "FirstAssignment")
      = .error (.duplicateKind ⟨58⟩ "EqualsToken" "FirstAssignment") ∧
    ofKeys .builtin (around "_x" "FirstAssignment") = .error (.reservedName "_x") := by
  refine ⟨?_, ?_, ?_⟩
  · obtain ⟨accepted, resolves, -, -⟩ := ofKeys_resolves .builtin (around "Unheard" "Block")
    have sound : Key.firstFault? .builtin [] (around "Unheard" "Block") = none := by decide +kernel
    obtain ⟨table, built⟩ := accepted.2 (Key.firstFault?_eq_none_iff.1 sound)
    obtain ⟨top, -⟩ := resolves table built
    have known : KindTable.builtin.kindOf "Block" = some ⟨207⟩ := by decide +kernel
    refine ⟨table, built, top.entry ⟨"Block", .nested, _⟩ (by simp [around]) ⟨207⟩ known, ?_⟩
    rw [top.ignored]
    decide +kernel
  · exact ((ofKeys_resolves _ _).2.2.2 _).2 (Key.findSome?_eq_some_iff.1 (by decide +kernel))
  · exact ((ofKeys_resolves _ _).2.2.2 _).2 (Key.findSome?_eq_some_iff.1 (by decide +kernel))

end Table

end TreeRewrite
