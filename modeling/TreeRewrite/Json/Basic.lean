import TreeRewrite.Number.Binary64

/-!
# JSON values

A JSON value keeps whole numbers and floats apart, and an object is the list of its members in the
order in which they are printed.  The objects that `Fields.insert` builds are sorted by key.

* `Fields.insert` and `Fields.get?` — an object as a finite map; the last value of a key counts.
* `Json.same` — equality of values, for which the two zeros among the floats are one number.
-/

set_option autoImplicit false

namespace TreeRewrite

/-- A JSON value. -/
inductive Json where
  | null
  | bool (b : Bool)
  | int (n : Int)
  | float (x : Binary64)
  | str (s : String)
  | arr (items : List Json)
  | obj (fields : List (String × Json))
deriving Repr, Inhabited

/-- The members of an object. -/
abbrev Fields := List (String × Json)

namespace Fields

/-- The value of a key. -/
def get? (fields : Fields) (key : String) : Option Json := fields.lookup key

/-- Puts a member in its place by the order of keys, which is that of their code points and so of
their UTF-8 bytes; a member with the same key is replaced. -/
def insert (key : String) (value : Json) : Fields → Fields
  | [] => [(key, value)]
  | (k, v) :: rest =>
    if key < k then (key, value) :: (k, v) :: rest
    else if key = k then (key, value) :: rest
    else (k, v) :: insert key value rest

/-- The members sorted by key; of several with one key the last stays. -/
def ofList (members : List (String × Json)) : Fields :=
  members.foldl (fun fields (key, value) => insert key value fields) []

@[simp] theorem get?_nil (key : String) : get? [] key = none := rfl

/-- After an insertion, the key has the new value and every other key what it had. -/
theorem get?_insert (fields : Fields) (key other : String) (value : Json) :
    get? (insert key value fields) other =
      if other = key then some value else get? fields other := by
  induction fields with
  | nil =>
    by_cases h : other = key <;>
      simp [insert, get?, List.lookup_cons, h, beq_eq_false_iff_ne.2]
  | cons member rest ih =>
    obtain ⟨k, v⟩ := member
    simp only [get?] at ih
    by_cases h : other = key <;> by_cases hk : other = k <;>
      simp only [insert] <;> split <;> (try split) <;>
      simp_all [get?, List.lookup_cons, beq_eq_false_iff_ne.2]

end Fields

namespace Json

/-- The text of a string value. -/
def str? : Json → Option String
  | .str s => some s
  | _ => none

mutual

/-- Are two values equal?  Floats are compared as numbers, so that the two zeros are equal. -/
def same : Json → Json → Bool
  | .null, .null => true
  | .bool a, .bool b => a == b
  | .int a, .int b => a == b
  | .float a, .float b => a.same b
  | .str a, .str b => a == b
  | .arr a, .arr b => sameItems a b
  | .obj a, .obj b => sameFields a b
  | _, _ => false

/-- Are two lists of values equal, one by one? -/
def sameItems : List Json → List Json → Bool
  | [], [] => true
  | x :: xs, y :: ys => x.same y && sameItems xs ys
  | _, _ => false

/-- Are two lists of members equal, one by one? -/
def sameFields : List (String × Json) → List (String × Json) → Bool
  | [], [] => true
  | (k, x) :: xs, (l, y) :: ys => k == l && x.same y && sameFields xs ys
  | _, _ => false

end

end Json

end TreeRewrite
