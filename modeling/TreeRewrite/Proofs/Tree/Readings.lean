import TreeRewrite.Proofs.Tree.Positions
import TreeRewrite.Proofs.Tree.Refusals
import TreeRewrite.Proofs.Tree.Shapes

/-!
# What is read of a document, and what is reported

A record becomes a tree by the names of its kinds, and a tree a record by their codes.  Both ways go
through the nodes, every node before those below it, and stop at the first that the table does not
know.  The shape of the whole document has been checked before that, so what is reported of a record
does not depend on the order in which a text or a value was looked at.

## What is here

* `NodeRecord.preorder` — a record and all below it, in the order in which kinds are looked up.
* `NodeRecord.Names` — which tree a record stands for: node by node, with the same attributes.
* `NodeRecord.Resolves` — the tree that a record names, or the first name in it that is not known;
  `NodeRecord.resolve_resolves` is that this is what is made of a record.
* `Tree.documents_report_first_unknown` — **both ways report the first kind that is not known**.
* `Tree.ReadAlike`, `Tree.text_is_read_as_its_value` — **a printed value is read as the value is**.
-/

set_option autoImplicit false

namespace TreeRewrite

namespace NodeRecord

mutual

/-- A record and the records below it, every record before those below it. -/
def preorder : NodeRecord → List NodeRecord
  | ⟨kind, attrs, children⟩ => ⟨kind, attrs, children⟩ :: preorderAll children

/-- Several records and the records below them, one after the other. -/
def preorderAll : List NodeRecord → List NodeRecord
  | [] => []
  | node :: rest => node.preorder ++ preorderAll rest

end

/-- `Names kinds r t` says that the tree has a node for each record, with the kind that the record
names and with its attributes. -/
inductive Names (kinds : KindTable) : NodeRecord → Tree → Prop
  | node {name : String} {kind : Kind} (attrs : Fields) {records : List NodeRecord}
      {trees : List Tree} (known : kinds.kindOf name = some kind)
      (below : List.Forall₂ (Names kinds) records trees) :
      Names kinds ⟨name, attrs, records⟩ ⟨kind, attrs, trees⟩

/-- Does a result report the first of some records whose name is not known, if there is one? -/
def ReportsUnknown {α : Type} (kinds : KindTable) (records : List NodeRecord)
    (result : Except DocumentError α) : Prop :=
  ReportsFirst records (fun node => (kinds.kindOf node.kind).isSome)
    (fun node => .unknownKind node.kind) result

/-- Is a result the tree that a record names, or else a report of the first name that is not
known? -/
structure Resolves (kinds : KindTable) (r : NodeRecord) (result : Except DocumentError Tree) :
    Prop where
  first : ReportsUnknown kinds r.preorder result
  names (t : Tree) : result = .ok t ↔ Names kinds r t

section Resolved

variable {kinds : KindTable}

mutual

theorem resolve_eq_ok_iff : ∀ (r : NodeRecord) {t : Tree},
    r.resolve kinds = .ok t ↔ Names kinds r t
  | ⟨name, attrs, records⟩, t => by
    rw [resolve]
    constructor
    · intro h
      split at h
      · cases h
      · next kind known =>
        obtain ⟨trees, below, ⟨⟩⟩ := bind_eq_ok.1 h
        exact .node attrs known ((resolveAll_eq_ok_iff records).1 below)
    · rintro ⟨_, known, below⟩
      rw [known]
      exact bind_eq_ok.2 ⟨_, (resolveAll_eq_ok_iff records).2 below, rfl⟩

theorem resolveAll_eq_ok_iff : ∀ (rs : List NodeRecord) {ts : List Tree},
    resolveAll kinds rs = .ok ts ↔ List.Forall₂ (Names kinds) rs ts
  | [], ts => by rw [resolveAll, List.forall₂_nil_left_iff, Except.ok.injEq, eq_comm]
  | r :: rest, ts => by
    rw [resolveAll, List.forall₂_cons_left_iff, bind_eq_ok]
    refine exists_congr fun t => ?_
    rw [resolve_eq_ok_iff r, bind_eq_ok]
    simp only [resolveAll_eq_ok_iff rest]
    constructor
    · rintro ⟨here, more, later, ⟨⟩⟩
      exact ⟨more, here, later, rfl⟩
    · rintro ⟨more, here, later, rfl⟩
      exact ⟨here, more, later, rfl⟩

end

mutual

theorem resolve_reportsUnknown : ∀ r : NodeRecord,
    ReportsUnknown kinds r.preorder (r.resolve kinds)
  | ⟨name, attrs, records⟩ => by
    refine reportsFirst_iff.2 fun e => ?_
    rw [resolve, preorder, List.findSome?_cons]
    cases h : kinds.kindOf name with
    | none => simp [faultOf, h]
    | some kind =>
      simp only [faultOf, h, Option.isSome_some, if_true]
      exact reportsFirst_iff.1 ((resolveAll_reportsUnknown records).map _) e

theorem resolveAll_reportsUnknown : ∀ rs : List NodeRecord,
    ReportsUnknown kinds (preorderAll rs) (resolveAll kinds rs)
  | [] => reportsFirst_iff.2 (by simp [preorderAll, resolveAll])
  | r :: rest => by
    refine reportsFirst_iff.2 fun e => ?_
    rw [resolveAll, preorderAll, List.findSome?_append]
    exact bind_eq_error_iff (reportsFirst_iff.1 (resolve_reportsUnknown r))
      (fun t _ => reportsFirst_iff.1 ((resolveAll_reportsUnknown rest).map _)) e

end

/-- A record is resolved to the tree that it names, or the first name that is not known is
reported. -/
theorem resolve_resolves (r : NodeRecord) : Resolves kinds r (r.resolve kinds) :=
  ⟨resolve_reportsUnknown r, fun _ => resolve_eq_ok_iff r⟩

end Resolved

end NodeRecord

namespace Tree

open NodeRecord (Describes Resolves)

/-- Does a result report the first of some nodes whose code is not known, if there is one? -/
def ReportsUnknown {α : Type} (kinds : KindTable) (places : List (List Nat × Tree))
    (result : Except DocumentError α) : Prop :=
  ReportsFirst places (fun place => kinds.contains place.2.kind)
    (fun place => .unknownCode place.2.kind.code) result

section Recorded

variable {kinds : KindTable}

mutual

theorem record_reportsUnknown : ∀ t : Tree, ReportsUnknown kinds t.preorder (t.record kinds)
  | ⟨kind, attrs, children⟩ => by
    refine reportsFirst_iff.2 fun e => ?_
    rw [record, preorder, List.findSome?_cons]
    have named : kinds.contains kind = (kinds.nameOf kind).isSome := KindTable.contains_eq
    cases h : kinds.nameOf kind with
    | none => simp [faultOf, named, h]
    | some name =>
      simp only [faultOf, named, h, Option.isSome_some, if_true]
      exact reportsFirst_iff.1 ((recordAll_reportsUnknown children 0).map _) e

theorem recordAll_reportsUnknown : ∀ (ts : List Tree) (index : Nat),
    ReportsUnknown kinds (preorderAll ts index) (recordAll kinds ts)
  | [], _ => reportsFirst_iff.2 (by simp [preorderAll, recordAll])
  | t :: rest, index => by
    refine reportsFirst_iff.2 fun e => ?_
    rw [recordAll, preorderAll, List.findSome?_append, List.findSome?_map]
    exact bind_eq_error_iff (reportsFirst_iff.1 (record_reportsUnknown t))
      (fun r _ => reportsFirst_iff.1 ((recordAll_reportsUnknown rest (index + 1)).map _)) e

end

theorem read_eq {text : String} {r : NodeRecord} (h : NodeRecord.read text = .ok r) :
    read kinds text = r.resolve kinds := by rw [read, h]

theorem read_eq_error {text : String} {fault : Json.Fault}
    (h : NodeRecord.read text = .error fault) : read kinds text = .error (.json fault) := by
  rw [read, h]

theorem ofJson_eq {v : Json} {r : NodeRecord} (h : NodeRecord.ofJson v = .ok r) :
    ofJson kinds v = r.resolve kinds := by rw [ofJson, h]

theorem ofJson_eq_error {v : Json} {m : Json.Mismatch} (h : NodeRecord.ofJson v = .error m) :
    ofJson kinds v = .error (.json (.mismatch m)) := by rw [ofJson, h]

end Recorded

/-- **Both ways report the first kind that is not known.**  A document whose shape is wrong is
refused for that, whatever its names are.  In all others the first name that is not known is
reported, and if there is none, the tree is the one that the record names; this holds of texts, of
values and of the texts of values.  A tree is written unless there is a code in it that is not
known, and the first of these is reported. -/
theorem documents_report_first_unknown (kinds : KindTable) :
    (∀ text, (∀ fault, NodeRecord.read text = .error fault → read kinds text = .error (.json fault))
        ∧ ∀ r, NodeRecord.read text = .ok r → Resolves kinds r (read kinds text))
      ∧ (∀ v : Json, v.Canonical →
        ((¬∃ r, Describes v r) → ∃ m, ofJson kinds v = .error (.json (.mismatch m)))
          ∧ ∀ r, Describes v r → Resolves kinds r (ofJson kinds v))
      ∧ (∀ v : Json, v.Printable → ∀ r, Describes v r →
        Resolves kinds r (read kinds v.pretty) ∧ Resolves kinds r (read kinds v.compact))
      ∧ ∀ t : Tree, ReportsUnknown kinds t.preorder (t.write kinds)
        ∧ ReportsUnknown kinds t.preorder (t.toJson kinds) := by
  refine ⟨fun text => ⟨fun _ => read_eq_error, fun r h => ?_⟩,
    fun v canonical => ⟨fun shapeless => ?_, fun r described => ?_⟩,
    fun v printable r described => ?_,
    fun t => ⟨(record_reportsUnknown t).map _, (record_reportsUnknown t).map _⟩⟩
  · rw [read_eq h]
    exact r.resolve_resolves
  · have reads := (NodeRecord.ofJson_eq_ok_iff canonical).1
    cases h : NodeRecord.ofJson v with
    | ok r => exact absurd ⟨r, (reads r).1 h⟩ shapeless
    | error m => exact ⟨m, ofJson_eq_error h⟩
  · rw [ofJson_eq (((NodeRecord.ofJson_eq_ok_iff canonical).1 r).2 described)]
    exact r.resolve_resolves
  · have shape := ((NodeRecord.ofJson_eq_ok_iff printable.canonical).1 r).2 described
    have pretty := (NodeRecord.read_render Json.Spacing.wide_loose printable).1 r shape
    have compact := (NodeRecord.read_render Json.Spacing.tight_loose printable).1 r shape
    rw [Json.pretty, Json.compact, read_eq pretty, read_eq compact]
    exact ⟨r.resolve_resolves, r.resolve_resolves⟩

/-- The name of the root is reported, though the members of an object are in another order; of two
codes, the one that stands deeper but further to the left. -/
theorem documents_report_first_unknown_phantom :
    let v : Json := .obj [("children", .arr [.arr [.str "Ghost"]]), ("kind", .str "Phantom")]
    let t : Tree := ⟨⟨71⟩, [], [⟨⟨71⟩, [], [leaf ⟨9001⟩]⟩, leaf ⟨9000⟩]⟩
    read .builtin v.pretty = .error (.unknownKind "Phantom")
      ∧ ofJson .builtin v = .error (.unknownKind "Phantom")
      ∧ (∃ fault, read .builtin "[\"Phantom\"" = .error (.json fault))
      ∧ read .builtin "[\"Identifier\"]" = .ok (leaf ⟨71⟩)
      ∧ (∃ m, ofJson .builtin (.arr [.str "Phantom", .null]) = .error (.json (.mismatch m)))
      ∧ t.write .builtin = .error (.unknownCode 9001)
      ∧ t.toJson .builtin = .error (.unknownCode 9001) := by
  intro v t
  obtain ⟨texts, values, printed, trees⟩ := documents_report_first_unknown .builtin
  let r : NodeRecord := ⟨"Phantom", [], [⟨"Ghost", [], []⟩]⟩
  have described : Describes v r :=
    .object rfl rfl rfl (.cons (.kindOnly "Ghost") .nil)
  have canonical : v.Canonical := by
    refine Json.canonical_obj.2 ⟨by simp only [Fields.Sorted]; decide, ?_⟩
    simpa [Json.canonical_arr] using ⟨trivial, trivial⟩
  have float_free : v.FloatFree := by
    simp only [v, Json.FloatFree, Json.Every, Json.EveryItem, Json.EveryMember, Json.NotFloat,
      and_self]
  have phantom : ∃ before node after, r.preorder = before ++ node :: after
      ∧ (∀ earlier ∈ before, (KindTable.kindOf .builtin earlier.kind).isSome = true)
      ∧ (KindTable.kindOf .builtin node.kind).isSome = false
      ∧ DocumentError.unknownKind "Phantom" = .unknownKind node.kind :=
    ⟨[], r, [⟨"Ghost", [], []⟩], rfl, List.forall_mem_nil _, rfl, rfl⟩
  have code : ∃ before place after, t.preorder = before ++ place :: after
      ∧ (∀ earlier ∈ before, KindTable.contains .builtin earlier.2.kind = true)
      ∧ KindTable.contains .builtin place.2.kind = false
      ∧ DocumentError.unknownCode 9001 = .unknownCode place.2.kind.code :=
    ⟨[([], t), ([0], ⟨⟨71⟩, [], [leaf ⟨9001⟩]⟩)], ([0, 0], leaf ⟨9001⟩), [([1], leaf ⟨9000⟩)], rfl,
      by simp [show KindTable.contains .builtin ⟨71⟩ = true from rfl, t], rfl, rfl⟩
  have cut : NodeRecord.read "[\"Phantom\"" = .error .truncated := by
    with_unfolding_all rfl
  have short : NodeRecord.read "[\"Identifier\"]" = .ok ⟨"Identifier", [], []⟩ := by
    with_unfolding_all rfl
  have holding_null : (Json.arr [.str "Phantom", .null]).Canonical := by
    simpa [Json.canonical_arr] using ⟨trivial, trivial⟩
  have shapeless : ¬∃ r, Describes (.arr [.str "Phantom", .null]) r := by
    rintro ⟨_, ⟨⟩⟩
  refine ⟨((printed v ⟨canonical, float_free⟩ r described).1.first.error_iff _).2 phantom,
    (((values v canonical).2 r described).first.error_iff _).2 phantom,
    ⟨.truncated, (texts _).1 .truncated cut⟩, ?_, (values _ holding_null).1 shapeless,
    ((trees t).1.error_iff _).2 code, ((trees t).2.error_iff _).2 code⟩
  exact (((texts _).2 ⟨"Identifier", [], []⟩ short).names _).2 (.node [] rfl .nil)

/-! ## Texts and values -/

/-- Do two readings of a document end alike: with one tree, with one name that is not known, or both
with a fault of the document? -/
inductive ReadAlike : Except DocumentError Tree → Except DocumentError Tree → Prop
  | tree (t : Tree) : ReadAlike (.ok t) (.ok t)
  | unknownKind (name : String) :
    ReadAlike (.error (.unknownKind name)) (.error (.unknownKind name))
  | json (fault fault' : Json.Fault) : ReadAlike (.error (.json fault)) (.error (.json fault'))

theorem resolve_readAlike (kinds : KindTable) (r : NodeRecord) :
    ReadAlike (r.resolve kinds) (r.resolve kinds) := by
  cases h : r.resolve kinds with
  | ok t => exact .tree t
  | error e =>
    obtain ⟨-, node, -, -, -, -, rfl⟩ := (r.resolve_reportsUnknown.error_iff e).1 h
    exact .unknownKind node.kind

/-- The faults may differ, since a text is checked in the order of its characters. -/
theorem render_readAlike (kinds : KindTable) {spacing : Json.Spacing} (loose : spacing.Loose)
    {v : Json} (printable : v.Printable) :
    ReadAlike (read kinds (String.ofList (v.render spacing 0 []))) (ofJson kinds v) := by
  obtain ⟨reads, refuses⟩ := NodeRecord.read_render loose printable
  cases h : NodeRecord.ofJson v with
  | ok r =>
    rw [read_eq (reads r h), ofJson_eq h]
    exact resolve_readAlike kinds r
  | error m =>
    obtain ⟨fault, refused⟩ := refuses m h
    rw [read_eq_error refused, ofJson_eq_error h]
    exact .json fault (.mismatch m)

/-- **A printed value is read as the value is**, on many lines or on one: as the same tree, or with
the same name that is not known, or else it is refused as the value is. -/
theorem text_is_read_as_its_value (kinds : KindTable) {v : Json} (canonical : v.Canonical)
    (float_free : v.FloatFree) :
    ReadAlike (read kinds v.pretty) (ofJson kinds v)
      ∧ ReadAlike (read kinds v.compact) (ofJson kinds v) :=
  ⟨render_readAlike kinds Json.Spacing.wide_loose ⟨canonical, float_free⟩,
    render_readAlike kinds Json.Spacing.tight_loose ⟨canonical, float_free⟩⟩

/-- The child is refused for its length as a value, and for its last comma as a text. -/
theorem text_is_read_as_its_value_too_long :
    let child : Json := .arr [.str "Ghost", .obj [], .arr [], .null]
    let v : Json := .obj [("children", .arr [child]), ("kind", .null), ("title", .str "x")]
    ofJson .builtin v
        = .error (.json (.mismatch (.wrongLength 4 "fewer elements in array")))
      ∧ (∃ fault, read .builtin v.pretty = .error (.json fault))
      ∧ ∃ fault, read .builtin v.compact = .error (.json fault) := by
  intro child v
  have canonical : v.Canonical := by
    simp only [v, child, Json.Canonical, Json.Every, Json.EveryItem, Json.EveryMember, Json.Proper,
      Fields.Sorted]
    decide
  have float_free : v.FloatFree := by
    simp only [v, child, Json.FloatFree, Json.Every, Json.EveryItem, Json.EveryMember,
      Json.NotFloat, and_self]
  have value : ofJson .builtin v
      = .error (.json (.mismatch (.wrongLength 4 "fewer elements in array"))) := rfl
  have refused {result : Except DocumentError Tree} (h : ReadAlike result (ofJson .builtin v)) :
      ∃ fault, result = .error (.json fault) := by
    rw [value] at h
    cases h with
    | json fault => exact ⟨fault, rfl⟩
  obtain ⟨pretty, compact⟩ := text_is_read_as_its_value .builtin canonical float_free
  exact ⟨value, refused pretty, refused compact⟩

end Tree

end TreeRewrite
