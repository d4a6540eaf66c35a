import TreeRewrite.Json.Basic

/-!
# Canonical values

The type of JSON values admits more than the values a program can hold: a whole number may be of any
size, and the members of an object may stand in any order.  A value is *canonical* if each of its
numbers is one of 64 bits, signed or unsigned, and each of its objects is sorted by key, with every
key once.  `Fields.insert` keeps an object canonical, and nothing but canonical values is ever read.

## What is here

* `Json.Every` — a property of a value and of all values inside it; `Json.nested_induction`, the
  induction that goes with it.
* `Fields.Sorted` — the order of members; `Fields.sorted_insert` keeps it, and
  `Fields.insert_of_forall_lt` says that members which come in order are simply put behind one
  another.
* `Fields.get?_cons_self`, `Fields.get?_cons_ne`, `Fields.get?_rest_of_sorted` — what is found by a
  key among members that follow one another.
* `Json.Canonical`, `Json.FloatFree` — the values that are held, and those without floats;
  `Json.Printable`, the values that are both.
-/

set_option autoImplicit false

namespace TreeRewrite

/-! ## Members in order -/

namespace Fields

variable {fields : Fields} {key : String} {value : Json}

/-- Every key stands before all later ones, and so only once. -/
def Sorted (fields : Fields) : Prop := fields.Pairwise fun member later => member.1 < later.1

theorem mem_of_mem_insert {member : String × Json} (h : member ∈ insert key value fields) :
    member = (key, value) ∨ member ∈ fields := by
  induction fields with
  | nil => exact .inl (List.mem_singleton.1 h)
  | cons first rest ih =>
    rw [insert] at h
    split at h
    · exact List.mem_cons.1 h
    · split at h
      · exact (List.mem_cons.1 h).imp_right (List.mem_cons_of_mem _)
      · rcases List.mem_cons.1 h with rfl | h
        · exact .inr List.mem_cons_self
        · exact (ih h).imp_right (List.mem_cons_of_mem _)

/-- An insertion keeps the members in order. -/
theorem sorted_insert (h : fields.Sorted) : (insert key value fields).Sorted := by
  induction fields with
  | nil => exact List.pairwise_singleton ..
  | cons first rest ih =>
    obtain ⟨first_lt, rest_sorted⟩ := List.pairwise_cons.1 h
    rw [insert]
    split
    · next before =>
      refine List.pairwise_cons.2 ⟨fun member hm => ?_, h⟩
      rcases List.mem_cons.1 hm with rfl | hm
      · exact before
      · exact String.lt_trans before (first_lt member hm)
    · next not_before =>
      split
      · next same =>
        exact List.pairwise_cons.2 ⟨fun member hm => same ▸ first_lt member hm, rest_sorted⟩
      · next other =>
        refine List.pairwise_cons.2 ⟨fun member hm => ?_, ih rest_sorted⟩
        rcases mem_of_mem_insert hm with rfl | hm
        · exact String.not_le.1 fun le => other (String.le_antisymm le (String.not_lt.1 not_before))
        · exact first_lt member hm

/-- A member whose key comes behind all others is put behind them. -/
theorem insert_of_forall_lt (h : ∀ member ∈ fields, member.1 < key) :
    insert key value fields = fields ++ [(key, value)] := by
  induction fields with
  | nil => rfl
  | cons first rest ih =>
    have first_lt : first.1 < key := h first List.mem_cons_self
    have ne : key ≠ first.1 := fun eq => String.lt_irrefl key (eq ▸ first_lt)
    rw [insert, if_neg (String.lt_asymm first_lt), if_neg ne,
      ih fun member hm => h member (List.mem_cons_of_mem _ hm), List.cons_append]

/-! ## Keys among members in order -/

section Lookup

variable {other : String} {rest : Fields}

theorem get?_cons_self : get? ((key, value) :: rest) key = some value := by
  rw [get?, List.lookup_cons, beq_self_eq_true]

theorem get?_append (fields rest : Fields) (key : String) :
    get? (fields ++ rest) key = (get? fields key).or (get? rest key) := List.lookup_append

theorem get?_cons_ne (h : other ≠ key) : get? ((key, value) :: rest) other = get? rest other := by
  rw [get?, List.lookup_cons, beq_false_of_ne h, get?]

/-- A key stands only once among members in order. -/
theorem get?_rest_of_sorted (h : Sorted ((key, value) :: rest)) : get? rest key = none := by
  rw [get?, List.lookup_eq_none_iff]
  intro member mem
  have before := (List.pairwise_cons.1 h).1 member mem
  exact bne_iff_ne.2 fun same => String.lt_irrefl key (same ▸ before)

/-- What is said by a key is said by a member. -/
theorem mem_of_get?_eq_some (h : fields.get? key = some value) : (key, value) ∈ fields := by
  obtain ⟨before, after, rfl, -⟩ := List.lookup_eq_some_iff.1 h
  exact List.mem_append_right before List.mem_cons_self

end Lookup

end Fields

namespace Json

/-! ## Values inside values -/

mutual

/-- Has a value the property, and every value inside it? -/
def Every (p : Json → Prop) : Json → Prop
  | .arr items => p (.arr items) ∧ EveryItem p items
  | .obj fields => p (.obj fields) ∧ EveryMember p fields
  | v => p v

/-- Have the items of an array the property, and every value inside them? -/
def EveryItem (p : Json → Prop) : List Json → Prop
  | [] => True
  | item :: rest => item.Every p ∧ EveryItem p rest

/-- Have the members of an object the property, and every value inside them? -/
def EveryMember (p : Json → Prop) : List (String × Json) → Prop
  | [] => True
  | (_, value) :: rest => value.Every p ∧ EveryMember p rest

end

theorem everyItem_iff {p : Json → Prop} {items : List Json} :
    EveryItem p items ↔ ∀ item ∈ items, item.Every p := by
  induction items with
  | nil => simp [EveryItem]
  | cons item rest ih => rw [EveryItem, ih, List.forall_mem_cons]

theorem everyMember_iff {p : Json → Prop} {fields : Fields} :
    EveryMember p fields ↔ ∀ member ∈ fields, member.2.Every p := by
  induction fields with
  | nil => simp [EveryMember]
  | cons member rest ih => rw [EveryMember, ih, List.forall_mem_cons]

@[simp] theorem every_arr {p : Json → Prop} {items : List Json} :
    (arr items).Every p ↔ p (.arr items) ∧ ∀ item ∈ items, item.Every p := by
  rw [Every, everyItem_iff]

theorem Every.self {p : Json → Prop} {v : Json} (h : v.Every p) : p v := by
  cases v with
  | arr => exact h.1
  | obj => exact h.1
  | _ => exact h

@[simp] theorem every_obj {p : Json → Prop} {fields : Fields} :
    (obj fields).Every p ↔ p (.obj fields) ∧ ∀ member ∈ fields, member.2.Every p := by
  rw [Every, everyMember_iff]

/-- Induction over values, with a hypothesis for every item and every member. -/
@[elab_as_elim]
theorem nested_induction {motive : Json → Prop} (v : Json) (null : motive .null)
    (bool : ∀ b, motive (.bool b)) (int : ∀ n, motive (.int n)) (float : ∀ x, motive (.float x))
    (str : ∀ s, motive (.str s))
    (arr : ∀ items, (∀ item ∈ items, motive item) → motive (.arr items))
    (obj : ∀ fields, (∀ member ∈ fields, motive member.2) → motive (.obj fields)) : motive v :=
  @Json.rec motive (fun items => ∀ item ∈ items, motive item)
    (fun fields => ∀ member ∈ fields, motive member.2) (fun member => motive member.2)
    null bool int float str arr obj
    (fun _ h => nomatch h) (fun _ _ first rest => List.forall_mem_cons.2 ⟨first, rest⟩)
    (fun _ h => nomatch h) (fun _ _ first rest => List.forall_mem_cons.2 ⟨first, rest⟩)
    (fun _ _ value => value) v

theorem Every.imp {p q : Json → Prop} {v : Json} (h : v.Every p) (imp : ∀ v, p v → q v) :
    v.Every q := by
  induction v using nested_induction with
  | arr items ih =>
    obtain ⟨here, below⟩ := every_arr.1 h
    exact every_arr.2 ⟨imp _ here, fun item mem => ih item mem (below item mem)⟩
  | obj fields ih =>
    obtain ⟨here, below⟩ := every_obj.1 h
    exact every_obj.2 ⟨imp _ here, fun member mem => ih member mem (below member mem)⟩
  | _ => exact imp _ h

/-! ## Canonical values -/

/-- Is a whole number one of 64 bits, signed or unsigned? -/
def InRange (n : Int) : Prop := -(UInt64.size / 2 : Nat) ≤ n ∧ n < UInt64.size

/-- Is a value, whatever is inside it, one that can be held? -/
def Proper : Json → Prop
  | .int n => InRange n
  | .obj fields => Fields.Sorted fields
  | _ => True

/-- Is a value one that can be held, with all that is inside it? -/
def Canonical (v : Json) : Prop := v.Every Proper

/-- Is a value other than a float? -/
def NotFloat : Json → Prop
  | .float _ => False
  | _ => True

/-- Is there no float in a value? -/
def FloatFree (v : Json) : Prop := v.Every NotFloat

theorem canonical_arr {items : List Json} :
    (arr items).Canonical ↔ ∀ item ∈ items, item.Canonical := by
  simp [Canonical, Proper]

theorem canonical_obj {fields : Fields} :
    (obj fields).Canonical ↔ fields.Sorted ∧ ∀ member ∈ fields, member.2.Canonical :=
  every_obj

theorem canonical_empty : (obj []).Canonical :=
  canonical_obj.2 ⟨List.Pairwise.nil, fun _ h => nomatch h⟩

theorem canonical_insert {fields : Fields} {key : String} {value : Json}
    (h : (obj fields).Canonical) (hv : value.Canonical) :
    (obj (fields.insert key value)).Canonical := by
  rw [canonical_obj] at h ⊢
  refine ⟨Fields.sorted_insert h.1, fun member hm => ?_⟩
  rcases Fields.mem_of_mem_insert hm with rfl | hm
  · exact hv
  · exact h.2 member hm

/-! ## Values whose text says all of them -/

/-- A value that can be held and has no floats in it. -/
structure Printable (v : Json) : Prop where
  canonical : v.Canonical
  float_free : v.FloatFree

theorem Printable.item {items : List Json} (h : (arr items).Printable) :
    ∀ item ∈ items, item.Printable := fun item mem =>
  ⟨canonical_arr.1 h.canonical item mem, (every_arr.1 h.float_free).2 item mem⟩

theorem Printable.member {fields : Fields} (h : (obj fields).Printable) :
    ∀ member ∈ fields, member.2.Printable := fun member mem =>
  ⟨(canonical_obj.1 h.canonical).2 member mem, (every_obj.1 h.float_free).2 member mem⟩

theorem Printable.not_float {v : Json} (h : v.Printable) : v.NotFloat := h.float_free.self

theorem printable_str (text : String) : (str text).Printable := ⟨trivial, trivial⟩

theorem printable_arr {items : List Json} (h : ∀ item ∈ items, item.Printable) :
    (arr items).Printable where
  canonical := canonical_arr.2 fun item mem => (h item mem).canonical
  float_free := every_arr.2 ⟨trivial, fun item mem => (h item mem).float_free⟩

/-- An object with a single member. -/
theorem printable_member {v : Json} (h : v.Printable) (key : String) :
    (obj [(key, v)]).Printable where
  canonical := canonical_insert canonical_empty h.canonical
  float_free := every_obj.2 ⟨trivial, List.forall_mem_singleton.2 h.float_free⟩

end Json

end TreeRewrite
