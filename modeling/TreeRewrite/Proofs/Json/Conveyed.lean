import TreeRewrite.Json.Decode
import TreeRewrite.Proofs.Json.Printed
import TreeRewrite.Proofs.Results

/-!
# Data that a text conveys

Data is written as a value and the value printed; then the text is parsed and the data decoded from
the value that is found.  Between the two the members of all objects have been put in order, so it
is from the arranged value that the data must come back.

## What is here

* `Json.readAs` — the data that a decoder makes of a text.
* `Json.Conveys` — a value conveys data to a decoder, with a rule for each kind of decoder:
  strings, numbers, lists, values that may be null, values that are left as they are, and records.
* `Json.readAs_pretty_line` — **what a value conveys is read from its text**.
-/

set_option autoImplicit false

namespace TreeRewrite.Json

variable {α : Type} {decode : Json → Except Mismatch α} {v : Json} {x : α}

/-- The data that a decoder makes of a text. -/
def readAs (decode : Json → Except Mismatch α) (text : String) : Except Fault α := do
  let v ← parse text
  (decode v).mapError .mismatch

/-- Does a value convey data to a decoder, which gets to see it with its members in order? -/
structure Conveys (decode : Json → Except Mismatch α) (v : Json) (x : α) : Prop where
  legible : v.Legible
  decoded : decode v.arranged = .ok x

/-- **What a value conveys is read from its text**, with the end of a line behind it. -/
theorem readAs_pretty_line (h : v.Conveys decode x) : readAs decode (v.pretty ++ "\n") = .ok x := by
  have parsed : parse (v.pretty ++ "\n") = .ok v.arranged := by
    rw [pretty_line]
    exact parse_render_arranged Spacing.wide_loose h.legible (List.forall_mem_singleton.mpr rfl)
  rw [readAs, parsed]
  exact mapError_eq_ok.mpr h.decoded

/-! ## Strings, numbers and values -/

theorem conveys_str (text : String) : (str text).Conveys decodeString text :=
  ⟨legible_str text, rfl⟩

/-- A value that can be held and has no floats conveys itself. -/
theorem Printable.conveys (h : v.Printable) : v.Conveys .ok v :=
  ⟨h.legible, congrArg Except.ok (arranged_of_canonical h.canonical)⟩

/-- A number below a bound of at most 64 bits is conveyed. -/
theorem conveys_below {bound n : Nat} (name : String) (ofNat : Nat → α) (below : n < bound)
    (fits : bound ≤ UInt64.size) :
    (int n).Conveys (fun v => (decodeBelow bound name v).map ofNat) (ofNat n) where
  legible := legible_int ⟨Int.le_trans (by decide) (Int.natCast_nonneg n),
    Int.ofNat_lt.mpr (Nat.lt_of_lt_of_le below fits)⟩
  decoded := by
    show (decodeBelow bound name (int n)).map ofNat = _
    rw [decodeBelow, if_pos ⟨Int.natCast_nonneg n, Int.ofNat_lt.mpr below⟩]
    rfl

theorem conveys_uint8 (n : UInt8) : (int n.toNat).Conveys decodeUInt8 n := by
  have number := conveys_below "u8" UInt8.ofNat n.toNat_lt (by decide)
  rwa [UInt8.ofNat_toNat] at number

theorem conveys_uint16 (n : UInt16) : (int n.toNat).Conveys decodeUInt16 n := by
  have number := conveys_below "u16" UInt16.ofNat n.toNat_lt (by decide)
  rwa [UInt16.ofNat_toNat] at number

theorem conveys_count (n : UInt64) : (int n.toNat).Conveys decodeCount n := by
  have number := conveys_below "usize" UInt64.ofNat n.toNat_lt (Nat.le_refl _)
  rwa [UInt64.ofNat_toNat] at number

/-! ## Lists and values that may be null -/

/-- **A list is conveyed** if each member is. -/
theorem conveys_list {encode : α → Json} {xs : List α}
    (each : ∀ x ∈ xs, (encode x).Conveys decode x) :
    (arr (xs.map encode)).Conveys (decodeList decode) xs where
  legible := legible_arr (List.forall_mem_map.mpr fun x mem => (each x mem).legible)
  decoded := by
    rw [arranged_arr, decodeList, List.map_map]
    induction xs with
    | nil => rfl
    | cons x rest ih =>
      obtain ⟨here, later⟩ := List.forall_mem_cons.mp each
      rw [List.map_cons, List.mapM_cons, Function.comp_apply, here.decoded, ih later]
      rfl

theorem arranged_ne_null (h : v ≠ .null) : v.arranged ≠ .null := by
  cases v with
  | null => exact absurd rfl h
  | _ => nofun

/-- What is not null is conveyed as something that is there. -/
theorem Conveys.nullable (h : v.Conveys decode x) (present : v ≠ .null) :
    v.Conveys (decodeNullable decode) (some x) where
  legible := h.legible
  decoded := by
    rw [decodeNullable, h.decoded]
    · rfl
    · exact arranged_ne_null present

/-! ## Records -/

section Records

variable {members : Fields} {key : String}

/-- **A record is conveyed** if it is made of its members in order. -/
theorem conveys_record {shape : RecordShape} {ofFields : Fields → Except Mismatch α}
    {ofItems : List Json → Except Mismatch α} (legible : ∀ member ∈ members, member.2.Legible)
    (decoded : ofFields members.arranged = .ok x) :
    (obj members).Conveys (shape.decode ofFields ofItems) x where
  legible := legible_obj legible
  decoded := by
    rw [arranged_obj]
    exact decoded

variable (distinct : members.Distinct)
include distinct

/-- A member that is there is decoded. -/
theorem decodeMember_arranged (found : members.get? key = some v) (h : v.Conveys decode x) :
    decodeMember members.arranged key decode = .ok (some x) := by
  rw [decodeMember, Fields.get?_arranged distinct, found]
  show (decode v.arranged).map some = _
  rw [h.decoded]
  rfl

/-- A member that may be left out is decoded if it is there, and is missed by nothing if it is
not. -/
theorem decodeMember_arranged_nullable {encode : α → Json} {x? : Option α}
    (found : members.get? key = x?.map encode)
    (each : ∀ x ∈ x?, (encode x).Conveys decode x ∧ encode x ≠ .null) :
    ∃ member?, decodeMember members.arranged key (decodeNullable decode) = .ok member?
      ∧ member?.join = x? := by
  cases x? with
  | none =>
    refine ⟨none, ?_, rfl⟩
    rw [decodeMember, Fields.get?_arranged distinct, found]
    rfl
  | some x =>
    obtain ⟨conveyed, present⟩ := each x rfl
    exact ⟨_, decodeMember_arranged distinct found (conveyed.nullable present), rfl⟩

end Records

end TreeRewrite.Json
