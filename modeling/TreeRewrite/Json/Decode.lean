import TreeRewrite.Json.Fault

/-!
# Reading values as data

A decoder turns a value into data or says how the value misses the expected shape.

A record is an object, whose members are checked in the order of their keys before missing ones are
looked for, or else an array of all its members in the order in which the record declares them.
Members that a record does not have are passed over; items that it has no place for are not.
-/

set_option autoImplicit false

namespace TreeRewrite.Json

/-- What messages call a string. -/
def stringShape : String := "a string"

/-- What messages call an object. -/
def mapShape : String := "a map"

/-- What messages call an array. -/
def sequenceShape : String := "a sequence"

/-- A string. -/
def decodeString : Json → Except Mismatch String
  | .str s => .ok s
  | v => .error (.wrongType v.found stringShape)

/-- The members of an object. -/
def decodeFields : Json → Except Mismatch Fields
  | .obj fields => .ok fields
  | v => .error (.wrongType v.found mapShape)

/-- An array of values of one shape. -/
def decodeList {α : Type} (decode : Json → Except Mismatch α) : Json → Except Mismatch (List α)
  | .arr items => items.mapM decode
  | v => .error (.wrongType v.found sequenceShape)

/-- A value that may be null. -/
def decodeNullable {α : Type} (decode : Json → Except Mismatch α) :
    Json → Except Mismatch (Option α)
  | .null => .ok none
  | v => (decode v).map some

/-- A natural number below a bound, which messages call by the name. -/
def decodeBelow (bound : Nat) (name : String) : Json → Except Mismatch Nat
  | .int n => if 0 ≤ n ∧ n < bound then .ok n.toNat else .error (.outOfRange n name)
  | v => .error (.wrongType v.found name)

/-- A number of 8 bits. -/
def decodeUInt8 (v : Json) : Except Mismatch UInt8 :=
  (decodeBelow UInt8.size "u8" v).map UInt8.ofNat

/-- A number of 16 bits. -/
def decodeUInt16 (v : Json) : Except Mismatch UInt16 :=
  (decodeBelow UInt16.size "u16" v).map UInt16.ofNat

/-- A count, which has 64 bits. -/
def decodeCount (v : Json) : Except Mismatch UInt64 :=
  (decodeBelow UInt64.size "usize" v).map UInt64.ofNat

/-- A member of an object, if it is there. -/
def decodeMember {α : Type} (fields : Fields) (key : String)
    (decode : Json → Except Mismatch α) : Except Mismatch (Option α) :=
  match fields.get? key with
  | none => .ok none
  | some v => (decode v).map some

/-- A member that must be there. -/
def required {α : Type} (key : String) : Option α → Except Mismatch α
  | some x => .ok x
  | none => .error (.missingField key)

/-- The name that messages have for a record, and the number of its members. -/
structure RecordShape where
  name : String
  size : Nat

namespace RecordShape

/-- An item of a record that is written as an array. -/
def item {α : Type} (shape : RecordShape) (items : List Json) (index : Nat)
    (decode : Json → Except Mismatch α) : Except Mismatch α :=
  match items[index]? with
  | some v => decode v
  | none => .error (.wrongLength index s!"{shape.name} with {shape.size} elements")

/-- A record, from its two written forms. -/
def decode {α : Type} (shape : RecordShape) (ofFields : Fields → Except Mismatch α)
    (ofItems : List Json → Except Mismatch α) : Json → Except Mismatch α
  | .obj fields => ofFields fields
  | .arr items => do
    let x ← ofItems items
    if shape.size < items.length then throw (.wrongLength items.length "fewer elements in array")
    return x
  | v => .error (.wrongType v.found shape.name)

end RecordShape

end TreeRewrite.Json
