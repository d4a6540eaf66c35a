import TreeRewrite.Proofs.Tree.Records

/-!
# The shape of a document

A record is found in a value by looking at one member after the other.  What is found does not
depend on the way: an object says a record by three of its members, two of which may be missing, and
an array by its first three places, of which only the first has to be there.

## What is here

* `NodeRecord.Describes` — what a value has to look like to be a record, without any reading.
* `NodeRecord.ofFields_eq_ok_iff` — members that are gone through one by one come to what is said of
  them by their keys.
* `NodeRecord.ofJson_eq_ok_iff` — **the record that a value is read as is the one it describes**.
-/

set_option autoImplicit false

namespace TreeRewrite.NodeRecord

open Json (Mismatch)

/-- `Describes v r` says that the value has the shape of a document, and that `r` is what it says.
Members of an object that have other keys do not count. -/
inductive Describes : Json → NodeRecord → Prop
  | object {fields : Fields} {kind : String} {attrs : Fields} {items : List Json}
      {children : List NodeRecord} (kind_is : fields.get? "kind" = some (.str kind))
      (attrs_are : (fields.get? "attrs").getD (.obj []) = .obj attrs)
      (children_are : (fields.get? "children").getD (.arr []) = .arr items)
      (below : List.Forall₂ Describes items children) :
      Describes (.obj fields) ⟨kind, attrs, children⟩
  | kindOnly (kind : String) : Describes (.arr [.str kind]) ⟨kind, [], []⟩
  | withoutChildren (kind : String) (attrs : Fields) :
      Describes (.arr [.str kind, .obj attrs]) ⟨kind, attrs, []⟩
  | array (kind : String) (attrs : Fields) {items : List Json} {children : List NodeRecord}
      (below : List.Forall₂ Describes items children) :
      Describes (.arr [.str kind, .obj attrs, .arr items]) ⟨kind, attrs, children⟩

/-! ## Members by their keys -/

/-- What becomes of a place in a draft if the members to come say `said` for it: nothing if they say
nothing, and what they say if it was free. -/
inductive Settles {α : Type} (decode : Json → Except Mismatch α) (had : Option α) :
    Option Json → Option α → Prop
  | unsaid : Settles decode had none had
  | said {v : Json} {x : α} (free : had = none) (h : decode v = .ok x) :
    Settles decode had (some v) (some x)

/-- The members to come fill the places of a draft. -/
structure Fills (fields : Fields) (draft final : Draft) : Prop where
  kind : Settles Json.decodeString draft.kind? (fields.get? "kind") final.kind?
  attrs : Settles Json.decodeFields draft.attrs? (fields.get? "attrs") final.attrs?
  children : Settles childrenOfJson draft.children? (fields.get? "children") final.children?

section Members

variable {key other : String} {value : Json} {rest fields : Fields} {draft next final : Draft}

theorem settles_none {α : Type} {decode : Json → Except Mismatch α} {had has : Option α} :
    Settles decode had none has ↔ has = had :=
  ⟨fun | .unsaid => rfl, fun h => h ▸ .unsaid⟩

theorem settles_some {α : Type} {decode : Json → Except Mismatch α} {had has : Option α} {v : Json}
    {x : α} (free : had = none) (h : decode v = .ok x) :
    Settles decode had (some v) has ↔ has = some x := by
  refine ⟨fun | .said _ h' => ?_, fun h' => h' ▸ .said free h⟩
  rw [Except.ok.inj (h'.symm.trans h)]

theorem settles_cons_self {α : Type} {decode : Json → Except Mismatch α} {had y : Option α} {x : α}
    (free : had = none) (decoded : decode value = .ok x) (once : Fields.get? rest key = none) :
    Settles decode had (Fields.get? ((key, value) :: rest) key) y
      ↔ Settles decode (some x) (Fields.get? rest key) y := by
  rw [Fields.get?_cons_self, settles_some free decoded, once, settles_none]

theorem settles_cons_ne {α : Type} {decode : Json → Except Mismatch α} {had has : Option α}
    (h : key ≠ other) : Settles decode had (Fields.get? ((key, value) :: rest) other) has
      ↔ Settles decode had (Fields.get? rest other) has := by
  rw [Fields.get?_cons_ne h.symm]

/-- What a member fills, and what those behind it fill then, is what they fill together. -/
theorem Filled.fills_iff (filled : Filled draft key value next)
    (sorted : Fields.Sorted ((key, value) :: rest)) :
    Fills ((key, value) :: rest) draft final ↔ Fills rest next final := by
  have once := Fields.get?_rest_of_sorted sorted
  cases filled with
  | kind name free =>
    have decoded : Json.decodeString (.str name) = .ok name := rfl
    have here := settles_cons_self (y := final.kind?) free decoded once
    exact ⟨fun h => ⟨here.1 h.kind, h.attrs, h.children⟩,
      fun h => ⟨here.2 h.kind, h.attrs, h.children⟩⟩
  | attrs fields free =>
    have decoded : Json.decodeFields (.obj fields) = .ok fields := rfl
    have here := settles_cons_self (y := final.attrs?) free decoded once
    exact ⟨fun h => ⟨h.kind, here.1 h.attrs, h.children⟩,
      fun h => ⟨h.kind, here.2 h.attrs, h.children⟩⟩
  | children items nodes free below =>
    have decoded : childrenOfJson (.arr items) = .ok nodes := by rw [childrenOfJson, below]
    have here := settles_cons_self (y := final.children?) free decoded once
    exact ⟨fun h => ⟨h.kind, h.attrs, here.1 h.children⟩,
      fun h => ⟨h.kind, h.attrs, here.2 h.children⟩⟩
  | unknown _ _ kind attrs children =>
    refine ⟨fun h => ⟨?_, ?_, ?_⟩, fun h => ⟨?_, ?_, ?_⟩⟩
    · exact (settles_cons_ne kind).1 h.kind
    · exact (settles_cons_ne attrs).1 h.attrs
    · exact (settles_cons_ne children).1 h.children
    · exact (settles_cons_ne kind).2 h.kind
    · exact (settles_cons_ne attrs).2 h.attrs
    · exact (settles_cons_ne children).2 h.children

theorem Filled.ofFields_eq (filled : Filled draft key value next) :
    ofFields ((key, value) :: rest) draft = ofFields rest next := by
  cases filled with
  | kind name free => simp [ofFields, Draft.claim, free, Json.decodeString]; rfl
  | attrs fields free => simp [ofFields, Draft.claim, free, Json.decodeFields]; rfl
  | children items nodes free below =>
    simp [ofFields, Draft.claim, free, childrenOfJson, below]; rfl
  | unknown _ _ kind attrs children => simp [ofFields, Draft.claim]; rfl

theorem of_settles_cons_self {α : Type} {decode : Json → Except Mismatch α} {had has : Option α}
    (h : Settles decode had (Fields.get? ((key, value) :: rest) key) has) :
    had = none ∧ ∃ x, decode value = .ok x := by
  rw [Fields.get?_cons_self] at h
  cases h with
  | said free decoded => exact ⟨free, _, decoded⟩

/-- The next member fills its place if the members to come fill theirs. -/
theorem exists_filled (h : Fills ((key, value) :: rest) draft final) :
    ∃ next, Filled draft key value next := by
  by_cases kind : key = "kind"
  · subst kind
    obtain ⟨free, name, decoded⟩ := of_settles_cons_self h.kind
    obtain rfl := decodeString_eq_ok decoded
    exact ⟨_, .kind name free⟩
  by_cases attrs : key = "attrs"
  · subst attrs
    obtain ⟨free, fields, decoded⟩ := of_settles_cons_self h.attrs
    obtain rfl := decodeFields_eq_ok decoded
    exact ⟨_, .attrs fields free⟩
  by_cases children : key = "children"
  · subst children
    obtain ⟨free, nodes, decoded⟩ := of_settles_cons_self h.children
    obtain ⟨items, rfl, below⟩ := childrenOfJson_eq_ok decoded
    exact ⟨_, .children items nodes free below⟩
  · exact ⟨_, .unknown key value kind attrs children⟩

/-- **Members that come in order fill a draft by their keys.** -/
theorem ofFields_eq_ok_iff (sorted : fields.Sorted) :
    ofFields fields draft = .ok final ↔ Fills fields draft final := by
  induction fields generalizing draft with
  | nil =>
    rw [ofFields]
    constructor
    · rintro ⟨⟩
      exact ⟨.unsaid, .unsaid, .unsaid⟩
    · rintro ⟨kind, attrs, children⟩
      obtain ⟨_, _, _⟩ := draft
      obtain ⟨_, _, _⟩ := final
      cases kind
      cases attrs
      cases children
      rfl
  | cons member rest ih =>
    have sorted_rest := (List.pairwise_cons.1 sorted).2
    constructor
    · intro h
      obtain ⟨-, next, filled, h⟩ := ofFields_cons h
      exact (filled.fills_iff sorted).2 ((ih sorted_rest).1 h)
    · intro h
      obtain ⟨next, filled⟩ := exists_filled h
      rw [filled.ofFields_eq]
      exact (ih sorted_rest).2 ((filled.fills_iff sorted).1 h)

end Members

/-! ## Values -/

/-- A place that is left free counts as one in which a default is said. -/
theorem exists_settles_iff {α : Type} {decode : Json → Except Mismatch α} {said : Option Json}
    {v : Json} {x y : α} (default : decode v = .ok x) :
    (∃ has, Settles decode none said has ∧ has.getD x = y) ↔ decode (said.getD v) = .ok y := by
  cases said with
  | none =>
    simp only [settles_none, exists_eq_left, Option.getD_none, default, Except.ok.injEq]
  | some w =>
    refine ⟨fun ⟨_, .said _ decoded, h⟩ => h ▸ decoded, fun decoded => ?_⟩
    exact ⟨some y, .said rfl decoded, rfl⟩

/-- An object is a record just if its members say one, each by its key. -/
theorem ofJson_obj_eq_ok_iff {fields : Fields} (sorted : fields.Sorted) {r : NodeRecord} :
    ofJson (.obj fields) = .ok r ↔ fields.get? "kind" = some (.str r.kind) ∧
      Json.decodeFields ((fields.get? "attrs").getD (.obj [])) = .ok r.attrs ∧
      childrenOfJson ((fields.get? "children").getD (.arr [])) = .ok r.children := by
  have no_children : childrenOfJson (.arr []) = .ok [] := by rw [childrenOfJson, ofItems]
  rw [ofJson, bind_eq_ok, ← exists_settles_iff (x := []) rfl, ← exists_settles_iff no_children]
  simp only [ofFields_eq_ok_iff sorted]
  constructor
  · rintro ⟨⟨kind?, attrs?, children?⟩, ⟨kind, attrs, children⟩, finished⟩
    cases kind? with
    | none => cases finished
    | some name =>
      obtain rfl := Except.ok.inj finished
      refine ⟨?_, ⟨attrs?, attrs, rfl⟩, ⟨children?, children, rfl⟩⟩
      cases h : fields.get? "kind" with
      | none => rw [h] at kind; exact nomatch kind
      | some v =>
        rw [h] at kind
        cases kind with
        | said _ decoded => rw [decodeString_eq_ok decoded]
  · rintro ⟨kind, ⟨attrs?, attrs, attrs_are⟩, ⟨children?, children, children_are⟩⟩
    refine ⟨⟨some r.kind, attrs?, children?⟩, ⟨kind ▸ .said rfl rfl, attrs, children⟩, ?_⟩
    obtain ⟨_, _, _⟩ := r
    rw [Draft.finish, attrs_are, children_are]

theorem forall₂_congr_mem {α β : Type} {R S : α → β → Prop} {xs : List α} {ys : List β}
    (h : ∀ x ∈ xs, ∀ y, R x y ↔ S x y) : List.Forall₂ R xs ys ↔ List.Forall₂ S xs ys := by
  induction xs generalizing ys with
  | nil => rw [List.forall₂_nil_left_iff, List.forall₂_nil_left_iff]
  | cons x rest ih =>
    obtain ⟨here, later⟩ := List.forall_mem_cons.1 h
    simp only [List.forall₂_cons_left_iff, here, ih later]

/-- **The record that a value is read as is the one it describes.** -/
theorem ofJson_eq_ok_iff {v : Json} (canonical : v.Canonical) :
    (∀ r, ofJson v = .ok r ↔ Describes v r) ∧ ∀ nodes, childrenOfJson v = .ok nodes ↔
      ∃ items, v = .arr items ∧ List.Forall₂ Describes items nodes := by
  induction v using Json.nested_induction with
  | arr items ih =>
    have each := Json.canonical_arr.1 canonical
    refine ⟨fun r => ⟨fun h => ?_, fun h => ?_⟩, fun nodes => ?_⟩
    · obtain ⟨more, rfl, rest⟩ := ofJson_arr_eq_ok h
      obtain ⟨kind, attrs, children⟩ := r
      obtain ⟨rfl, rfl, rfl⟩ | ⟨rfl, rfl⟩ | ⟨inner, rfl, below⟩ := rest
      · exact .kindOnly kind
      · exact .withoutChildren kind attrs
      · have last : Json.arr inner ∈ [.str kind, .obj attrs, .arr inner] := by simp
        obtain ⟨_, ⟨⟩, described⟩ :=
          ((ih _ last (each _ last)).2 children).1 (by rw [childrenOfJson, below])
        exact .array kind attrs described
    · cases h with
      | kindOnly kind => rw [ofJson]; rfl
      | withoutChildren kind attrs => rw [ofJson]; rfl
      | @array kind attrs inner children below =>
        have last : Json.arr inner ∈ [.str kind, .obj attrs, .arr inner] := by simp
        have decoded := ((ih _ last (each _ last)).2 children).2 ⟨inner, rfl, below⟩
        rw [ofJson, decoded]
        rfl
    · rw [childrenOfJson, ofItems_eq_ok,
        forall₂_congr_mem fun item hi r => (ih item hi (each item hi)).1 r]
      constructor
      · exact fun h => ⟨items, rfl, h⟩
      · rintro ⟨_, ⟨⟩, h⟩
        exact h
  | obj fields ih =>
    obtain ⟨sorted, each⟩ := Json.canonical_obj.1 canonical
    have below (nodes : List NodeRecord) :
        childrenOfJson ((Fields.get? fields "children").getD (.arr [])) = .ok nodes ↔
          ∃ items, (Fields.get? fields "children").getD (.arr []) = .arr items
            ∧ List.Forall₂ Describes items nodes := by
      cases h : Fields.get? fields "children" with
      | none => simp [childrenOfJson, ofItems, eq_comm]
      | some w =>
        have mem := Fields.mem_of_get?_eq_some h
        exact (ih _ mem (each _ mem)).2 nodes
    refine ⟨fun r => ?_, fun nodes => by simp [childrenOfJson]⟩
    obtain ⟨kind, attrs, children⟩ := r
    rw [ofJson_obj_eq_ok_iff sorted, below]
    constructor
    · rintro ⟨kind, attrs, items, children, described⟩
      exact .object kind (decodeFields_eq_ok attrs) children described
    · rintro ⟨kind, attrs, children, described⟩
      exact ⟨kind, congrArg Json.decodeFields attrs, _, children, described⟩
  | _ => exact ⟨fun r => ⟨by simp [ofJson], fun h => by cases h⟩, by simp [childrenOfJson]⟩

end TreeRewrite.NodeRecord
