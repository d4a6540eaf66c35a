import Mathlib.Data.List.Forall2
import TreeRewrite.Proofs.Json.Canonical
import TreeRewrite.Proofs.Json.Parsed
import TreeRewrite.Tree.Document

/-!
# Records and values

A record is written as an object and read back from it, whichever of the two orders its members are
put in.  Conversely, a value that is a record says all of the record: where its attributes and its
children come from.

## What is here

* `NodeRecord.EveryAttrs` — a property of the attributes of a record and of all records below it;
  `NodeRecord.Canonical` and `NodeRecord.FloatFree` are the two that matter.
* `NodeRecord.ofJson_toJson` — **a record is read back from its value**.
* `NodeRecord.every_toJson` — the value of a record has what its attributes have; so it has no
  floats but theirs, and it can be held if they can (`NodeRecord.canonical_toJson`).
* `NodeRecord.ofFields_cons`, `NodeRecord.ofItems_eq_ok`, `NodeRecord.ofJson_arr_eq_ok` — what it
  takes for an object or an array to be a record.
* `NodeRecord.everyAttrs_of_ofJson` — attributes have what every value inside the value of their
  record has.
-/

set_option autoImplicit false

namespace TreeRewrite.NodeRecord

open Json (Mismatch)

/-! ## Attributes -/

mutual

/-- Have the attributes of a record the property, and those of all records below it? -/
def EveryAttrs (p : Fields → Prop) : NodeRecord → Prop
  | ⟨_, attrs, children⟩ => p attrs ∧ EveryAttrsAll p children

/-- Have the attributes of all records the property, and those of all records below them? -/
def EveryAttrsAll (p : Fields → Prop) : List NodeRecord → Prop
  | [] => True
  | node :: rest => node.EveryAttrs p ∧ EveryAttrsAll p rest

end

theorem everyAttrsAll_iff {p : Fields → Prop} {nodes : List NodeRecord} :
    EveryAttrsAll p nodes ↔ ∀ node ∈ nodes, node.EveryAttrs p := by
  induction nodes with
  | nil => simp [EveryAttrsAll]
  | cons node rest ih => rw [EveryAttrsAll, ih, List.forall_mem_cons]

theorem everyAttrs_iff {p : Fields → Prop} {node : NodeRecord} :
    node.EveryAttrs p ↔ p node.attrs ∧ ∀ child ∈ node.children, child.EveryAttrs p := by
  cases node
  rw [EveryAttrs, everyAttrsAll_iff]

/-- Can the attributes of a record be held, and those of all records below it? -/
def Canonical (node : NodeRecord) : Prop := node.EveryAttrs fun attrs => (Json.obj attrs).Canonical

/-- Is there no float in the attributes of a record, and in those of the records below it? -/
def FloatFree (node : NodeRecord) : Prop := node.EveryAttrs fun attrs => (Json.obj attrs).FloatFree

/-! ## To values and back -/

mutual

/-- **A record is read back from its value.** -/
theorem ofJson_toJson (kindFirst : Bool) : ∀ node : NodeRecord,
    ofJson (node.toJson kindFirst) = .ok node
  | ⟨kind, attrs, children⟩ => by
    have below := ofItems_toJsonAll kindFirst children
    -- What is written depends on the order and on which members are empty.
    cases kindFirst <;> cases attrs <;> cases children <;>
      simp [toJson, ofJson, ofFields, Draft.claim, Draft.finish, childrenOfJson,
        Json.decodeString, Json.decodeFields, bind, Except.bind, pure, Except.pure, below]

theorem ofItems_toJsonAll (kindFirst : Bool) : ∀ nodes : List NodeRecord,
    ofItems (toJsonAll kindFirst nodes) = .ok nodes
  | [] => rfl
  | node :: rest => by
    rw [toJsonAll, ofItems, ofJson_toJson kindFirst node, ofItems_toJsonAll kindFirst rest]
    rfl

end

mutual

/-- The value of a record has what its attributes have, if the value of every record has it where it
stands. -/
theorem every_toJson {p : Json → Prop} {kindFirst : Bool} (str : ∀ text, p (.str text))
    (arr : ∀ items, p (.arr items)) (record : ∀ node : NodeRecord, p (node.toJson kindFirst)) :
    ∀ node : NodeRecord, node.EveryAttrs (fun attrs => (Json.obj attrs).Every p) →
      (node.toJson kindFirst).Every p
  | ⟨kind, attrs, children⟩ => by
    rintro ⟨attrs_every, children_every⟩
    have below := every_toJsonAll str arr record children children_every
    have here := record ⟨kind, attrs, children⟩
    rw [toJson] at here ⊢
    refine Json.every_obj.2 ⟨here, fun member hm => ?_⟩
    have written : member = ("kind", .str kind) ∨ member = ("attrs", .obj attrs)
        ∨ member = ("children", .arr (toJsonAll kindFirst children)) := by
      split at hm <;>
        simp only [List.mem_cons, List.mem_append, List.mem_ite_nil_left, List.not_mem_nil,
          or_false] at hm <;>
        tauto
    rcases written with rfl | rfl | rfl
    · exact str kind
    · exact attrs_every
    · exact Json.every_arr.2 ⟨arr _, below⟩

theorem every_toJsonAll {p : Json → Prop} {kindFirst : Bool} (str : ∀ text, p (.str text))
    (arr : ∀ items, p (.arr items)) (record : ∀ node : NodeRecord, p (node.toJson kindFirst)) :
    ∀ nodes : List NodeRecord, EveryAttrsAll (fun attrs => (Json.obj attrs).Every p) nodes →
      ∀ v ∈ toJsonAll kindFirst nodes, v.Every p
  | [], _ => fun _ h => nomatch h
  | node :: rest, ⟨first, others⟩ => by
    rw [toJsonAll]
    exact List.forall_mem_cons.2
      ⟨every_toJson str arr record node first, every_toJsonAll str arr record rest others⟩

end

/-- The value of a record has no floats but those of the attributes. -/
theorem floatFree_toJson (kindFirst : Bool) (node : NodeRecord) (h : node.FloatFree) :
    (node.toJson kindFirst).FloatFree :=
  every_toJson (fun _ => trivial) (fun _ => trivial) (fun ⟨_, _, _⟩ => trivial) node h

theorem sublist_ite {α : Type} {c : Prop} [Decidable c] (xs : List α) :
    (if c then [] else xs).Sublist xs := by
  split
  · exact List.nil_sublist xs
  · exact List.Sublist.refl xs

/-- Where its kind comes last, the members of a record are in order. -/
theorem canonical_toJson (node : NodeRecord) (h : node.Canonical) :
    (node.toJson false).Canonical := by
  refine every_toJson (fun _ => trivial) (fun _ => trivial) (fun ⟨kind, attrs, children⟩ => ?_) node
    h
  have keys : (["attrs", "children", "kind"] : List String).Pairwise (· < ·) := by decide
  have all : Fields.Sorted [("attrs", .obj attrs),
      ("children", .arr (toJsonAll false children)), ("kind", .str kind)] :=
    List.pairwise_map.1 keys
  rw [toJson]
  exact all.sublist (((sublist_ite _).append (sublist_ite _)).append (List.Sublist.refl _))

/-! ## What is a record -/

theorem decodeString_eq_ok {v : Json} {s : String} (h : v.decodeString = .ok s) : v = .str s := by
  cases v <;> cases h
  rfl

theorem decodeFields_eq_ok {v : Json} {fields : Fields} (h : v.decodeFields = .ok fields) :
    v = .obj fields := by
  cases v <;> cases h
  rfl

theorem childrenOfJson_eq_ok {v : Json} {nodes : List NodeRecord}
    (h : childrenOfJson v = .ok nodes) : ∃ items, v = .arr items ∧ ofItems items = .ok nodes := by
  cases v with
  | arr items => exact ⟨items, rfl, by rwa [childrenOfJson] at h⟩
  | _ => rw [childrenOfJson] at h <;> simp_all

theorem exists_of_mem_forall₂ {α β : Type} {R : α → β → Prop} {xs : List α} {ys : List β}
    (h : List.Forall₂ R xs ys) {x : α} (hx : x ∈ xs) : ∃ y ∈ ys, R x y := by
  induction h with
  | nil => cases hx
  | cons first _ ih =>
    rcases List.mem_cons.1 hx with rfl | hx
    · exact ⟨_, List.mem_cons_self, first⟩
    · exact (ih hx).imp fun _ h => ⟨List.mem_cons_of_mem _ h.1, h.2⟩

/-- An array is a list of records if each item is one. -/
theorem ofItems_eq_ok {items : List Json} {nodes : List NodeRecord} :
    ofItems items = .ok nodes
      ↔ List.Forall₂ (fun item node => ofJson item = .ok node) items nodes := by
  induction items generalizing nodes with
  | nil => rw [List.forall₂_nil_left_iff, ofItems, Except.ok.injEq, eq_comm]
  | cons item rest ih =>
    rw [ofItems, List.forall₂_cons_left_iff, bind_eq_ok]
    refine exists_congr fun node => ?_
    constructor
    · rintro ⟨first, h⟩
      obtain ⟨more, others, ⟨⟩⟩ := bind_eq_ok.1 h
      exact ⟨more, first, ih.1 others, rfl⟩
    · rintro ⟨more, first, others, rfl⟩
      exact ⟨first, bind_eq_ok.2 ⟨more, ih.2 others, rfl⟩⟩

/-- An array that is a record has its members in order; the later ones may be missing. -/
theorem ofJson_arr_eq_ok {items : List Json} {r : NodeRecord} (h : ofJson (.arr items) = .ok r) :
    ∃ more, items = .str r.kind :: more
      ∧ ((more = [] ∧ r.attrs = [] ∧ r.children = [])
        ∨ (more = [.obj r.attrs] ∧ r.children = [])
        ∨ ∃ children, more = [.obj r.attrs, .arr children]
          ∧ ofItems children = .ok r.children) := by
  match items with
  | [] =>
    rw [ofJson] at h
    cases h
  | [v] =>
    rw [ofJson] at h
    obtain ⟨kind, string, ⟨⟩⟩ := bind_eq_ok.1 h
    exact ⟨[], by rw [decodeString_eq_ok string], .inl ⟨rfl, rfl, rfl⟩⟩
  | [v, w] =>
    rw [ofJson] at h
    obtain ⟨kind, string, h⟩ := bind_eq_ok.1 h
    obtain ⟨attrs, object, ⟨⟩⟩ := bind_eq_ok.1 h
    exact ⟨[w], by rw [decodeString_eq_ok string],
      .inr (.inl ⟨by rw [decodeFields_eq_ok object], rfl⟩)⟩
  | v :: w :: u :: rest =>
    rw [ofJson] at h
    obtain ⟨kind, string, h⟩ := bind_eq_ok.1 h
    obtain ⟨attrs, object, h⟩ := bind_eq_ok.1 h
    obtain ⟨nodes, array, finished⟩ := bind_eq_ok.1 h
    obtain ⟨children, rfl, below⟩ := childrenOfJson_eq_ok array
    simp only at finished
    split at finished
    · next last =>
      cases finished
      rw [List.isEmpty_iff] at last
      exact ⟨[w, .arr children], by rw [decodeString_eq_ok string, last],
        .inr (.inr ⟨children, by rw [decodeFields_eq_ok object], below⟩)⟩
    · cases finished

/-- What a member of an object makes of a draft. -/
inductive Filled (draft : Draft) : String → Json → Draft → Prop
  | kind (name : String) (free : draft.kind? = none) :
    Filled draft "kind" (.str name) { draft with kind? := some name }
  | attrs (fields : Fields) (free : draft.attrs? = none) :
    Filled draft "attrs" (.obj fields) { draft with attrs? := some fields }
  | children (items : List Json) (nodes : List NodeRecord) (free : draft.children? = none)
    (below : ofItems items = .ok nodes) :
    Filled draft "children" (.arr items) { draft with children? := some nodes }
  | unknown (key : String) (value : Json) (kind : key ≠ "kind") (attrs : key ≠ "attrs")
    (children : key ≠ "children") : Filled draft key value draft

theorem eq_none_of_claim {α : Type} {member : Option α} {m : Mismatch}
    (h : (if member.isSome then .error m else .ok () : Except Mismatch Unit) = .ok ()) :
    member = none := by
  cases member with
  | none => rfl
  | some => cases h

/-- A member that is accepted fills the draft as its key says, and the others go on from there. -/
theorem ofFields_cons {key : String} {value : Json} {rest : List (String × Json)}
    {draft final : Draft} (h : ofFields ((key, value) :: rest) draft = .ok final) :
    draft.claim key = .ok () ∧ ∃ next, Filled draft key value next
      ∧ ofFields rest next = .ok final := by
  rw [ofFields] at h
  obtain ⟨⟨⟩, claim, h⟩ := bind_eq_ok.1 h
  refine ⟨claim, ?_⟩
  split at h
  · obtain ⟨name, string, filled⟩ := bind_eq_ok.1 h
    rw [decodeString_eq_ok string]
    exact ⟨_, .kind name (eq_none_of_claim claim), filled⟩
  · obtain ⟨fields, object, filled⟩ := bind_eq_ok.1 h
    rw [decodeFields_eq_ok object]
    exact ⟨_, .attrs fields (eq_none_of_claim claim), filled⟩
  · obtain ⟨nodes, array, filled⟩ := bind_eq_ok.1 h
    obtain ⟨items, rfl, below⟩ := childrenOfJson_eq_ok array
    exact ⟨_, .children items nodes (eq_none_of_claim claim) below, filled⟩
  · next kind attrs children => exact ⟨_, .unknown key value kind attrs children, h⟩

/-! ## Drafts -/

/-- Have the attributes that a draft has so far the property, and those of the records below? -/
structure Draft.EveryAttrs (p : Fields → Prop) (draft : Draft) : Prop where
  attrs : ∀ attrs, draft.attrs? = some attrs → p attrs
  children : ∀ nodes, draft.children? = some nodes → ∀ node ∈ nodes, node.EveryAttrs p

section Drafts

variable {p : Fields → Prop} {draft next final : Draft} {key : String} {value : Json}

theorem Draft.everyAttrs_empty : Draft.EveryAttrs p {} :=
  ⟨fun _ h => (nomatch h), fun _ h => (nomatch h)⟩

theorem Draft.everyAttrs_finish (empty : p []) {r : NodeRecord} (h : draft.finish = .ok r) :
    r.EveryAttrs p ↔ draft.EveryAttrs p := by
  obtain ⟨kind?, attrs?, children?⟩ := draft
  cases kind? with
  | none => cases h
  | some kind =>
    cases h
    rw [everyAttrs_iff]
    constructor
    · rintro ⟨attrs, children⟩
      refine ⟨fun x hx => ?_, fun x hx => ?_⟩
      · rw [show attrs? = some x from hx] at attrs
        exact attrs
      · rw [show children? = some x from hx] at children
        exact children
    · rintro ⟨attrs, children⟩
      refine ⟨?_, ?_⟩
      · cases attrs? with
        | none => exact empty
        | some x => exact attrs x rfl
      · cases children? with
        | none => exact fun _ h => nomatch h
        | some x => exact children x rfl

/-- Nothing that a member fills was there before. -/
theorem Filled.everyAttrs_of_next (filled : Filled draft key value next) (h : next.EveryAttrs p) :
    draft.EveryAttrs p := by
  cases filled with
  | kind name => exact ⟨h.attrs, h.children⟩
  | attrs fields free => exact ⟨fun attrs eq => by simp [free] at eq, h.children⟩
  | children items nodes free => exact ⟨h.attrs, fun nodes eq => by simp [free] at eq⟩
  | unknown => exact h

/-- What the members of an object fill of a draft stays. -/
theorem everyAttrs_of_final {fields : List (String × Json)} (h : ofFields fields draft = .ok final)
    (every : final.EveryAttrs p) : draft.EveryAttrs p := by
  induction fields generalizing draft with
  | nil =>
    cases h
    exact every
  | cons member rest ih =>
    obtain ⟨-, next, filled, h⟩ := ofFields_cons h
    exact filled.everyAttrs_of_next (ih h)

/-- A draft has what it had and what the member fills. -/
theorem Filled.everyAttrs_next (filled : Filled draft key value next) (h : draft.EveryAttrs p)
    (attrs : ∀ attrs, value = .obj attrs → p attrs)
    (children : ∀ nodes, childrenOfJson value = .ok nodes → ∀ node ∈ nodes, node.EveryAttrs p) :
    next.EveryAttrs p := by
  cases filled with
  | kind name => exact ⟨h.attrs, h.children⟩
  | attrs fields => exact ⟨fun x eq => Option.some.inj eq ▸ attrs fields rfl, h.children⟩
  | children items nodes _ below =>
    exact ⟨h.attrs, fun x eq => Option.some.inj eq ▸ children nodes (by rw [childrenOfJson, below])⟩
  | unknown => exact h

theorem everyAttrs_ofFields {fields : List (String × Json)}
    (h : ofFields fields draft = .ok final) (start : draft.EveryAttrs p)
    (each : ∀ member ∈ fields, (∀ attrs, member.2 = .obj attrs → p attrs)
      ∧ ∀ nodes, childrenOfJson member.2 = .ok nodes → ∀ node ∈ nodes, node.EveryAttrs p) :
    final.EveryAttrs p := by
  induction fields generalizing draft with
  | nil =>
    cases h
    exact start
  | cons member rest ih =>
    obtain ⟨-, next, filled, h⟩ := ofFields_cons h
    obtain ⟨here, later⟩ := List.forall_mem_cons.1 each
    exact ih h (filled.everyAttrs_next start here.1 here.2) later

end Drafts

/-- Attributes have what every value inside the value of their record has. -/
theorem everyAttrs_of_ofJson {p : Json → Prop} (empty : p (.obj [])) (v : Json)
    (every : v.Every p) :
    (∀ r, ofJson v = .ok r → r.EveryAttrs fun attrs => (Json.obj attrs).Every p)
      ∧ ∀ nodes, childrenOfJson v = .ok nodes →
        ∀ r ∈ nodes, r.EveryAttrs fun attrs => (Json.obj attrs).Every p := by
  have every_empty : (Json.obj []).Every p := Json.every_obj.2 ⟨empty, fun _ h => nomatch h⟩
  induction v using Json.nested_induction with
  | arr items ih =>
    have each := (Json.every_arr.1 every).2
    constructor
    · intro r h
      obtain ⟨more, rfl, rest⟩ := ofJson_arr_eq_ok h
      rw [everyAttrs_iff]
      obtain ⟨rfl, attrs, children⟩ | ⟨rfl, children⟩ | ⟨items, rfl, below⟩ := rest
      · exact ⟨attrs ▸ every_empty, by simp [children]⟩
      · exact ⟨each (.obj r.attrs) (by simp), by simp [children]⟩
      · exact ⟨each (.obj r.attrs) (by simp), (ih (.arr items) (by simp) (each _ (by simp))).2 _
          (by rw [childrenOfJson, below])⟩
    · intro nodes h r hr
      rw [childrenOfJson, ofItems_eq_ok] at h
      obtain ⟨item, hi, eq⟩ := exists_of_mem_forall₂ h.flip hr
      exact (ih item hi (each item hi)).1 r eq
  | obj fields ih =>
    have each := (Json.every_obj.1 every).2
    refine ⟨fun r h => ?_, by simp [childrenOfJson]⟩
    rw [ofJson] at h
    obtain ⟨final, filled, finished⟩ := bind_eq_ok.1 h
    refine (Draft.everyAttrs_finish every_empty finished).2 ?_
    exact everyAttrs_ofFields filled Draft.everyAttrs_empty fun member hm =>
      ⟨fun attrs eq => eq ▸ each member hm, (ih member hm (each member hm)).2⟩
  | _ => simp [ofJson, childrenOfJson]

/-- Records in a value that can be held can be held. -/
theorem canonical_of_value {v : Json} (canonical : v.Canonical) :
    (∀ r, ofJson v = .ok r → r.Canonical)
      ∧ ∀ nodes, childrenOfJson v = .ok nodes → ∀ r ∈ nodes, r.Canonical :=
  everyAttrs_of_ofJson (p := Json.Proper) List.Pairwise.nil v canonical

end TreeRewrite.NodeRecord
