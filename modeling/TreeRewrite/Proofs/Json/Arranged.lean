import TreeRewrite.Proofs.Json.Canonical

/-!
# Values whose members are put in order

The members of a value that is printed may stand in any order, but those of a value that is read are
sorted by key.  So what a text gives back is the value *arranged*: every object in it holds the same
members in the order of their keys.

## What is here

* `Fields.Distinct` — no key occurs twice; `Fields.get?_ofList` says what is then found by a key
  among members that were put in order.
* `Json.arranged`, `Fields.arranged` — the value and the members with all members in order;
  `Json.arranged_of_canonical` says that this changes nothing about a value that can be held.
* `Json.Legible` — the values whose text says all of them but the order of members, with a rule for
  each kind of value that has parts.
-/

set_option autoImplicit false

namespace TreeRewrite

/-! ## Putting members in order -/

namespace Fields

/-- Is there at most one member for every key? -/
def Distinct (members : Fields) : Prop := (members.map Prod.fst).Nodup

/-- Members that come in order are put behind one another. -/
theorem foldl_insert_of_sorted (fields rest : Fields) (h : (fields ++ rest).Sorted) :
    rest.foldl (fun fields member => insert member.1 member.2 fields) fields = fields ++ rest := by
  induction rest generalizing fields with
  | nil => exact (List.append_nil fields).symm
  | cons member rest ih =>
    have before : ∀ other ∈ fields, other.1 < member.1 := fun other mem =>
      (List.pairwise_append.mp h).2.2 other mem member List.mem_cons_self
    have behind : insert member.1 member.2 fields = fields ++ [member] :=
      insert_of_forall_lt before
    rw [List.append_cons] at h
    rw [List.foldl_cons, behind, ih _ h, ← List.append_cons]

/-- Members that are in order already stay as they are. -/
theorem ofList_of_sorted {members : Fields} (h : members.Sorted) : ofList members = members :=
  foldl_insert_of_sorted [] members h

/-- A key that stands in front of others is not among them. -/
theorem Distinct.get?_rest {key : String} {value : Json} {rest : Fields}
    (h : Distinct ((key, value) :: rest)) : get? rest key = none := by
  rw [get?, List.lookup_eq_none_iff]
  intro other mem
  have once : key ∉ rest.map Prod.fst := (List.nodup_cons.mp h).1
  exact bne_iff_ne.mpr fun same => once (List.mem_map.mpr ⟨other, mem, same.symm⟩)

theorem get?_foldl_insert (members fields : Fields) (distinct : members.Distinct) (key : String) :
    get? (members.foldl (fun fields member => insert member.1 member.2 fields) fields) key
      = (get? members key).or (get? fields key) := by
  induction members generalizing fields with
  | nil => rfl
  | cons member rest ih =>
    obtain ⟨k, v⟩ := member
    rw [List.foldl_cons, ih _ (List.nodup_cons.mp distinct).2, get?_insert]
    split
    · next same =>
      subst same
      rw [distinct.get?_rest, get?_cons_self]
      rfl
    · next other => rw [get?_cons_ne other]

/-- **A key leads to the same value once members are put in order**, if there is only one for it. -/
theorem get?_ofList {members : Fields} (distinct : members.Distinct) (key : String) :
    get? (ofList members) key = get? members key := by
  rw [ofList, get?_foldl_insert members [] distinct, get?_nil, Option.or_none]

theorem get?_map (f : Json → Json) (members : Fields) (key : String) :
    get? (members.map fun member => (member.1, f member.2)) key = (get? members key).map f := by
  induction members with
  | nil => rfl
  | cons member rest ih =>
    by_cases same : key = member.1
    · rw [same, List.map_cons, get?_cons_self, get?_cons_self, Option.map_some]
    · rw [List.map_cons, get?_cons_ne same, ih, get?_cons_ne same]

end Fields

namespace Json

/-! ## Values with all members in order -/

mutual

/-- The value with the members of all objects in it put in order. -/
def arranged : Json → Json
  | .arr items => .arr (arrangedItems items)
  | .obj members => .obj (Fields.ofList (arrangedMembers members))
  | v => v

/-- The items of an array, each arranged. -/
def arrangedItems : List Json → List Json
  | [] => []
  | item :: rest => item.arranged :: arrangedItems rest

/-- The members of an object with their values arranged, in the order in which they stand. -/
def arrangedMembers : List (String × Json) → List (String × Json)
  | [] => []
  | (key, value) :: rest => (key, value.arranged) :: arrangedMembers rest

end

theorem arrangedItems_eq (items : List Json) : arrangedItems items = items.map arranged := by
  induction items with
  | nil => rfl
  | cons item rest ih => rw [arrangedItems, ih, List.map_cons]

theorem arrangedMembers_eq (members : Fields) :
    arrangedMembers members = members.map fun member => (member.1, member.2.arranged) := by
  induction members with
  | nil => rfl
  | cons member rest ih => rw [arrangedMembers, ih, List.map_cons]

theorem arranged_arr (items : List Json) : (arr items).arranged = .arr (items.map arranged) := by
  rw [arranged, arrangedItems_eq]

end Json

namespace Fields

/-- The members in order, and their values with all members in order. -/
def arranged (members : Fields) : Fields :=
  ofList (members.map fun member => (member.1, member.2.arranged))

/-- **A key leads to the same value once all members are put in order**, but for the order of those
inside it. -/
theorem get?_arranged {members : Fields} (distinct : members.Distinct) (key : String) :
    get? members.arranged key = (get? members key).map Json.arranged := by
  have distinct' : Distinct (members.map fun member => (member.1, member.2.arranged)) := by
    rwa [Distinct, List.map_map]
  rw [arranged, get?_ofList distinct', get?_map]

end Fields

namespace Json

theorem arranged_obj (members : Fields) : (obj members).arranged = .obj members.arranged := by
  rw [arranged, arrangedMembers_eq, Fields.arranged]

/-- **A value that can be held is arranged already.** -/
theorem arranged_of_canonical {v : Json} (h : v.Canonical) : v.arranged = v := by
  induction v using nested_induction with
  | arr items ih =>
    have same : items.map arranged = items.map id := List.map_congr_left fun item mem =>
      ih item mem (canonical_arr.mp h item mem)
    rw [arranged_arr, same, List.map_id]
  | obj members ih =>
    obtain ⟨sorted, below⟩ := canonical_obj.mp h
    have same : members.map (fun member => (member.1, member.2.arranged)) = members.map id :=
      List.map_congr_left fun member mem => Prod.ext rfl (ih member mem (below member mem))
    rw [arranged_obj, Fields.arranged, same, List.map_id, Fields.ofList_of_sorted sorted]
  | _ => rfl

/-- Is a value, whatever is inside it, no whole number that is out of range? -/
def Sizable : Json → Prop
  | .int n => InRange n
  | _ => True

/-- A value whose text says all of it but the order of members: there are no floats in it, and all
numbers are in range. -/
structure Legible (v : Json) : Prop where
  float_free : v.FloatFree
  sized : v.Every Sizable

theorem legible_str (text : String) : (str text).Legible := ⟨trivial, trivial⟩

theorem legible_int {n : Int} (range : InRange n) : (int n).Legible := ⟨trivial, range⟩

theorem legible_arr {items : List Json} (h : ∀ item ∈ items, item.Legible) : (arr items).Legible :=
  ⟨every_arr.mpr ⟨trivial, fun item mem => (h item mem).float_free⟩,
    every_arr.mpr ⟨trivial, fun item mem => (h item mem).sized⟩⟩

theorem legible_obj {members : Fields} (h : ∀ member ∈ members, member.2.Legible) :
    (obj members).Legible :=
  ⟨every_obj.mpr ⟨trivial, fun member mem => (h member mem).float_free⟩,
    every_obj.mpr ⟨trivial, fun member mem => (h member mem).sized⟩⟩

theorem sized_of_canonical {v : Json} (h : v.Canonical) : v.Every Sizable :=
  h.imp fun v proper => by
    cases v with
    | int n => exact proper
    | _ => trivial

theorem Printable.legible {v : Json} (h : v.Printable) : v.Legible :=
  ⟨h.float_free, sized_of_canonical h.canonical⟩

end Json

end TreeRewrite
