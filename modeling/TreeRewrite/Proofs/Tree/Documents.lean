import TreeRewrite.Proofs.Tree.Positions
import TreeRewrite.Proofs.Tree.RecordText

/-!
# Trees survive as documents

A tree is written as a document and read back from it, as text or as a value, if its kinds have
names and its attributes hold no floats.  A name may be an alias: a tree that is read from one is
written with the canonical name, which leads to the same kind.

## What is here

* `Tree.Known`, `Tree.Canonical`, `Tree.FloatFree` — what is asked of a tree.  The trees that are
  read are canonical.
* `Tree.exists_record`, `NodeRecord.resolve_spec` — from trees to records by the names of kinds, and
  back.
* `Tree.read_line_of_write` — a tree is read back from what is written for it in a file.
* `Tree.canonical_of_toJson`, `Tree.floatFree_of_toJson` — what the value of a tree takes from it.
* `Tree.RoundTrips`, `Tree.documents_keep_trees` — **documents keep trees**, and reading and writing
  once makes of a document one that reading and writing leaves as it is.
-/

set_option autoImplicit false

namespace TreeRewrite

namespace Tree

/-- Have all kinds of a tree a name? -/
def Known (kinds : KindTable) (t : Tree) : Prop :=
  t.Every fun node => kinds.contains node.kind = true

/-- Can the attributes of a tree be held? -/
def Canonical (t : Tree) : Prop := t.Every fun node => (Json.obj node.attrs).Canonical

/-- Is there no float in the attributes of a tree? -/
def FloatFree (t : Tree) : Prop := t.Every fun node => (Json.obj node.attrs).FloatFree

/-! ## Records of trees -/

section Records

variable {kinds : KindTable}

mutual

/-- A tree whose kinds have names has a record, which names the tree. -/
theorem exists_record : ∀ t : Tree, t.Known kinds →
    ∃ r, t.record kinds = .ok r ∧ r.resolve kinds = .ok t
  | ⟨kind, attrs, children⟩, known => by
    obtain ⟨here, below⟩ := every_iff.1 known
    obtain ⟨name, hn⟩ := KindTable.exists_nameOf here
    obtain ⟨rs, recorded, resolved⟩ := exists_recordAll children below
    refine ⟨⟨name, attrs, rs⟩, ?_, ?_⟩
    · simp only [record, show kinds.nameOf kind = some name from hn, recorded]
      rfl
    · simp only [NodeRecord.resolve, KindTable.kindOf_nameOf hn, resolved]
      rfl

theorem exists_recordAll : ∀ ts : List Tree, (∀ t ∈ ts, t.Known kinds) →
    ∃ rs, recordAll kinds ts = .ok rs ∧ NodeRecord.resolveAll kinds rs = .ok ts
  | [], _ => ⟨[], rfl, rfl⟩
  | t :: rest, known => by
    obtain ⟨here, later⟩ := List.forall_mem_cons.1 known
    obtain ⟨r, recorded, resolved⟩ := exists_record t here
    obtain ⟨rs, recorded', resolved'⟩ := exists_recordAll rest later
    refine ⟨r :: rs, ?_, ?_⟩
    · rw [recordAll, recorded, recorded']
      rfl
    · rw [NodeRecord.resolveAll, resolved, resolved']
      rfl

end

end Records

end Tree

namespace NodeRecord

variable {kinds : KindTable}

mutual

/-- The kinds of a tree that a record names are known, and its attributes are those of the
record. -/
theorem resolve_spec : ∀ (r : NodeRecord) {t : Tree}, r.resolve kinds = .ok t →
    t.Known kinds ∧ ∀ p : Fields → Prop, r.EveryAttrs p ↔ t.Every fun node => p node.attrs
  | ⟨name, attrs, children⟩, t, h => by
    rw [resolve] at h
    split at h
    · cases h
    · next kind hk =>
      obtain ⟨ts, below, ⟨⟩⟩ := bind_eq_ok.1 h
      obtain ⟨known, same⟩ := resolveAll_spec children below
      refine ⟨Tree.every_iff.2 ⟨KindTable.contains_of_kindOf hk, known⟩, fun p => ?_⟩
      rw [Tree.every_iff, EveryAttrs, same]

theorem resolveAll_spec : ∀ (rs : List NodeRecord) {ts : List Tree}, resolveAll kinds rs = .ok ts →
    (∀ t ∈ ts, t.Known kinds)
      ∧ ∀ p : Fields → Prop, EveryAttrsAll p rs ↔ ∀ t ∈ ts, t.Every fun node => p node.attrs
  | [], ts, h => by
    cases h
    simp [EveryAttrsAll]
  | r :: rest, ts, h => by
    rw [resolveAll] at h
    obtain ⟨t, here, h⟩ := bind_eq_ok.1 h
    obtain ⟨more, later, ⟨⟩⟩ := bind_eq_ok.1 h
    obtain ⟨known, same⟩ := resolve_spec r here
    obtain ⟨known', same'⟩ := resolveAll_spec rest later
    refine ⟨List.forall_mem_cons.2 ⟨known, known'⟩, fun p => ?_⟩
    rw [EveryAttrsAll, List.forall_mem_cons, same, same']

end

end NodeRecord

namespace Tree

/-! ## Documents -/

/-- The record of a tree whose kinds have names holds the attributes of the tree. -/
theorem exists_record_everyAttrs {kinds : KindTable} {t : Tree} (known : t.Known kinds) :
    ∃ r, t.record kinds = .ok r ∧ r.resolve kinds = .ok t ∧
      ∀ p : Fields → Prop, r.EveryAttrs p ↔ t.Every fun node => p node.attrs := by
  obtain ⟨r, recorded, resolved⟩ := exists_record t known
  exact ⟨r, recorded, resolved, (r.resolve_spec resolved).2⟩

/-- Is a tree written as text and as a value, and read back from both? -/
structure RoundTrips (kinds : KindTable) (t : Tree) : Prop where
  text : ∃ text, t.write kinds = .ok text ∧ read kinds text = .ok t
  value : ∃ value, t.toJson kinds = .ok value ∧ ofJson kinds value = .ok t

/-- A tree with known kinds is written and read back. -/
theorem roundTrips {kinds : KindTable} {t : Tree} (known : t.Known kinds) (canonical : t.Canonical)
    (float_free : t.FloatFree) : t.RoundTrips kinds := by
  obtain ⟨r, recorded, resolved, same⟩ := exists_record_everyAttrs known
  have r_free : r.FloatFree := (same _).2 float_free
  have r_canonical : r.Canonical := (same _).2 canonical
  refine ⟨⟨(r.toJson true).pretty, ?_, ?_⟩, ⟨r.toJson false, ?_, ?_⟩⟩
  · rw [write, recorded]
    rfl
  · rw [read, NodeRecord.read_pretty (r.ofJson_toJson true) (r.floatFree_toJson true r_free)
      r_canonical]
    exact resolved
  · rw [toJson, recorded]
    rfl
  · rw [ofJson, r.ofJson_toJson false]
    exact resolved

/-- A tree is read back from its text with the end of a line behind it. -/
theorem read_line_of_write {kinds : KindTable} {t : Tree} {text : String} (known : t.Known kinds)
    (canonical : t.Canonical) (float_free : t.FloatFree) (written : t.write kinds = .ok text) :
    read kinds (text ++ "\n") = .ok t := by
  obtain ⟨r, recorded, resolved, same⟩ := exists_record_everyAttrs known
  have r_free : r.FloatFree := (same _).2 float_free
  have r_canonical : r.Canonical := (same _).2 canonical
  rw [write, recorded] at written
  obtain rfl := Except.ok.inj written
  rw [read, NodeRecord.read_pretty_line (r.ofJson_toJson true) (r.floatFree_toJson true r_free)
    r_canonical]
  exact resolved

section Value

variable {kinds : KindTable} {t : Tree} {v : Json} (known : t.Known kinds)
  (h : t.toJson kinds = .ok v)
include known h

/-- The value of a tree is that of a record with the attributes of the tree. -/
theorem of_toJson_eq_ok : ∃ r : NodeRecord, v = r.toJson false ∧
    ∀ p : Fields → Prop, r.EveryAttrs p ↔ t.Every fun node => p node.attrs := by
  obtain ⟨r, recorded, -, same⟩ := exists_record_everyAttrs known
  rw [toJson, recorded] at h
  exact ⟨r, (Except.ok.inj h).symm, same⟩

theorem canonical_of_toJson (canonical : t.Canonical) : v.Canonical := by
  obtain ⟨r, rfl, same⟩ := of_toJson_eq_ok known h
  exact r.canonical_toJson ((same _).2 canonical)

theorem floatFree_of_toJson (float_free : t.FloatFree) : v.FloatFree := by
  obtain ⟨r, rfl, same⟩ := of_toJson_eq_ok known h
  exact r.floatFree_toJson false ((same _).2 float_free)

theorem toJson_ne_null : v ≠ .null := by
  obtain ⟨⟨_, _, _⟩, rfl, -⟩ := of_toJson_eq_ok known h
  nofun

end Value

/-- What reading a text and writing the tree makes of the text. -/
def normalText (kinds : KindTable) (text : String) : Except DocumentError String := do
  (← read kinds text).write kinds

/-- What reading a value and writing the tree makes of the value. -/
def normalValue (kinds : KindTable) (value : Json) : Except DocumentError Json := do
  (← ofJson kinds value).toJson kinds

section Read

variable {kinds : KindTable} {t : Tree}

theorem read_spec {text : String} (h : read kinds text = .ok t) :
    t.Known kinds ∧ t.Canonical := by
  rw [read] at h
  split at h
  · cases h
  · next r hr =>
    obtain ⟨known, same⟩ := r.resolve_spec h
    exact ⟨known, (same _).1 (NodeRecord.canonical_of_read hr)⟩

theorem known_of_ofJson {v : Json} (h : ofJson kinds v = .ok t) : t.Known kinds := by
  rw [ofJson] at h
  split at h
  · cases h
  · next r _ => exact (r.resolve_spec h).1

theorem ofJson_spec {v : Json} (canonical : v.Canonical) (h : ofJson kinds v = .ok t) :
    t.Known kinds ∧ t.Canonical := by
  rw [ofJson] at h
  split at h
  · cases h
  · next r hr =>
    obtain ⟨known, same⟩ := r.resolve_spec h
    exact ⟨known, (same _).1 ((NodeRecord.canonical_of_value canonical).1 r hr)⟩

theorem normalText_eq {text : String} (h : read kinds text = .ok t) :
    normalText kinds text = t.write kinds := by
  rw [normalText, h]
  rfl

theorem normalValue_eq {v : Json} (h : ofJson kinds v = .ok t) :
    normalValue kinds v = t.toJson kinds := by
  rw [normalValue, h]
  rfl

end Read

/-- **Documents keep trees.**  With any table of kinds, a tree that can be held, whose kinds have
names and whose attributes have no floats, is written as text and as a value and read back from
both.  Whatever text or value is read as a tree without floats, the tree is one of these, and what
is written for it is left as it is when it is read and written again. -/
theorem documents_keep_trees (kinds : KindTable) :
    (∀ t : Tree, t.Known kinds → t.Canonical → t.FloatFree → t.RoundTrips kinds)
      ∧ (∀ text t, read kinds text = .ok t → t.FloatFree → t.RoundTrips kinds
        ∧ ∃ normal, normalText kinds text = .ok normal ∧ normalText kinds normal = .ok normal)
      ∧ ∀ v t, v.Canonical → ofJson kinds v = .ok t → t.FloatFree → t.RoundTrips kinds
        ∧ ∃ normal, normalValue kinds v = .ok normal ∧ normalValue kinds normal = .ok normal := by
  refine ⟨fun t => roundTrips, fun text t h float_free => ?_, fun v t canonical h float_free => ?_⟩
  · obtain ⟨known, canonical⟩ := read_spec h
    have survives := roundTrips known canonical float_free
    obtain ⟨normal, written, read_back⟩ := survives.text
    exact ⟨survives, normal, (normalText_eq h).trans written,
      (normalText_eq read_back).trans written⟩
  · obtain ⟨known, canonical⟩ := ofJson_spec canonical h
    have survives := roundTrips known canonical float_free
    obtain ⟨normal, written, read_back⟩ := survives.value
    exact ⟨survives, normal, (normalValue_eq h).trans written,
      (normalValue_eq read_back).trans written⟩

/-- `FirstAssignment` is another name of the kind that is written as `EqualsToken`. -/
theorem documents_keep_trees_alias :
    let t : Tree := ⟨⟨58⟩, [("n", .int 7)], [leaf ⟨71⟩]⟩
    let v : Json := .obj [("attrs", .obj [("n", .int 7)]),
      ("children", .arr [.arr [.str "Identifier"]]), ("kind", .str "FirstAssignment")]
    t.RoundTrips .builtin
      ∧ (read .builtin v.pretty = .ok t ∧ ∃ normal, normalText .builtin v.pretty = .ok normal
        ∧ normalText .builtin normal = .ok normal)
      ∧ ofJson .builtin v = .ok t ∧ ∃ normal, normalValue .builtin v = .ok normal
        ∧ normalValue .builtin normal = .ok normal := by
  intro t v
  have every {p : Tree → Prop} (root : p t) (child : p (leaf ⟨71⟩)) : t.Every p :=
    every_iff.2 ⟨root, List.forall_mem_singleton.2 (every_iff.2 ⟨child, fun _ h => nomatch h⟩)⟩
  have attrs : (Json.obj [("n", .int 7)]).Canonical :=
    Json.canonical_insert Json.canonical_empty ⟨by decide, by decide⟩
  have known : t.Known .builtin := every rfl rfl
  have canonical : t.Canonical := every attrs Json.canonical_empty
  have float_free : t.FloatFree := every ⟨trivial, trivial, trivial⟩ ⟨trivial, trivial⟩
  have v_canonical : v.Canonical := by
    refine Json.canonical_obj.2 ⟨by simp only [Fields.Sorted]; decide, ?_⟩
    simpa [Json.canonical_arr] using ⟨attrs, ⟨trivial, trivial⟩⟩
  have from_value : ofJson .builtin v = .ok t := rfl
  have from_text : read .builtin v.pretty = .ok t := by
    have record : NodeRecord.ofJson v
        = .ok ⟨"FirstAssignment", [("n", .int 7)], [⟨"Identifier", [], []⟩]⟩ := rfl
    have v_free : v.FloatFree := by
      simp only [v, Json.FloatFree, Json.Every, Json.EveryItem, Json.EveryMember, Json.NotFloat,
        and_self]
    rw [read, NodeRecord.read_pretty record v_free
      ⟨attrs, ⟨Json.canonical_empty, trivial⟩, trivial⟩]
    rfl
  obtain ⟨of_tree, of_text, of_value⟩ := documents_keep_trees .builtin
  exact ⟨of_tree t known canonical float_free,
    ⟨from_text, (of_text v.pretty t from_text float_free).2⟩,
    from_value, (of_value v t v_canonical from_value float_free).2⟩

end Tree

end TreeRewrite
