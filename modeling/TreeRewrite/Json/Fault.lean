import TreeRewrite.Json.Printer
import TreeRewrite.Text.Quoted

/-!
# What can be wrong with a JSON text or value

A text that is read fails by `Fault`: it ends too early, it is malformed, or it is JSON of the wrong
shape.  The last is a `Mismatch`, which is also all that can be wrong with a value read as a record.
-/

set_option autoImplicit false

namespace TreeRewrite.Json

/-- A value as a message names it. -/
inductive Found where
  | null
  | bool (b : Bool)
  | int (n : Int)
  | float (x : Binary64)
  | str (s : String)
  | sequence
  | map

/-- The value as a message names it. -/
def found : Json → Found
  | .null => .null
  | .bool b => .bool b
  | .int n => .int n
  | .float x => .float x
  | .str s => .str s
  | .arr _ => .sequence
  | .obj _ => .map

/-- The words for a value. -/
def Found.message : Found → String
  | .null => "null"
  | .bool true => "boolean `true`"
  | .bool false => "boolean `false`"
  | .int n => "integer `" ++ String.ofList (intText n) ++ "`"
  | .float x => "floating point `" ++ String.ofList (floatLayout.text x) ++ "`"
  | .str s => "string " ++ Text.quoted s
  | .sequence => "sequence"
  | .map => "map"

/-- How a value misses the shape that is expected of it. -/
inductive Mismatch where
  | missingField (name : String)
  | duplicateField (name : String)
  | wrongType (found : Found) (expected : String)
  | outOfRange (n : Int) (expected : String)
  | wrongLength (length : Nat) (expected : String)

/-- The words for a mismatch. -/
def Mismatch.message : Mismatch → String
  | .missingField name => "missing field `" ++ name ++ "`"
  | .duplicateField name => "duplicate field `" ++ name ++ "`"
  | .wrongType found expected => "invalid type: " ++ found.message ++ ", expected " ++ expected
  | .outOfRange n expected =>
    "invalid value: integer `" ++ String.ofList (intText n) ++ "`, expected " ++ expected
  | .wrongLength length expected => s!"invalid length {length}, expected " ++ expected

/-- Why a text could not be read. -/
inductive Fault where
  | truncated
  | malformed
  | mismatch (what : Mismatch)

/-- The words for a fault. -/
def Fault.message : Fault → String
  | .truncated => "the text ends too early"
  | .malformed => "the text is malformed"
  | .mismatch what => what.message

end TreeRewrite.Json
