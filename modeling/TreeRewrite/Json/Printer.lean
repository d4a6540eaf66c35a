import TreeRewrite.Json.Basic
import TreeRewrite.Number.Shortest

/-!
# Printing JSON

`Json.pretty` puts every member and item on a line of its own, two blanks deeper than its
container; `Json.compact` writes no blank at all.  Both are `Json.render` with a `Spacing`.  Members
are printed in the order in which the object holds them.
-/

set_option autoImplicit false

namespace TreeRewrite.Json

/-- Floats are positional from `0.00001` up to sixteen digits before the point. -/
def floatLayout : FloatLayout := ⟨-5, 15⟩

/-- The decimal digits of a whole number, after its sign. -/
def intText (n : Int) : List Char :=
  if n < 0 then '-' :: Nat.toDigits 10 n.natAbs else Nat.toDigits 10 n.natAbs

/-- The digit of a number below sixteen, in lower case. -/
def hexDigit (n : Nat) : Char := Nat.digitChar n

/-- A character inside a string.  Controls are escaped, by a letter where there is one. -/
def escapeChar (c : Char) : List Char :=
  match c with
  | '"' => ['\\', '"']
  | '\\' => ['\\', '\\']
  | '\x08' => ['\\', 'b']
  | '\x0c' => ['\\', 'f']
  | '\n' => ['\\', 'n']
  | '\r' => ['\\', 'r']
  | '\t' => ['\\', 't']
  | c =>
    if c.toNat < 0x20 then
      ['\\', 'u', '0', '0', hexDigit (c.toNat / 16), hexDigit (c.toNat % 16)]
    else [c]

/-- A string between its quotes. -/
def stringText (s : String) : List Char := '"' :: s.toList.flatMap escapeChar ++ ['"']

/-- What stands before an item `depth` containers deep, and between a key and its value. -/
structure Spacing where
  line : Nat → List Char
  colon : List Char

/-- One line for every item, and a blank behind the colon. -/
def Spacing.wide : Spacing := ⟨fun depth => '\n' :: List.replicate (2 * depth) ' ', [':', ' ']⟩

/-- No blanks. -/
def Spacing.tight : Spacing := ⟨fun _ => [], [':']⟩

/-- The comma before every item but the first. -/
def comma (first : Bool) : List Char := if first then [] else [',']

mutual

/-- The text of a value that stands `depth` containers deep, in front of what follows it. -/
def render (spacing : Spacing) (depth : Nat) : Json → List Char → List Char
  | .null, tail => 'n' :: 'u' :: 'l' :: 'l' :: tail
  | .bool true, tail => 't' :: 'r' :: 'u' :: 'e' :: tail
  | .bool false, tail => 'f' :: 'a' :: 'l' :: 's' :: 'e' :: tail
  | .int n, tail => intText n ++ tail
  | .float x, tail => floatLayout.text x ++ tail
  | .str s, tail => stringText s ++ tail
  | .arr [], tail => '[' :: ']' :: tail
  | .arr (item :: rest), tail =>
    '[' :: renderItems spacing (depth + 1) true (item :: rest) (spacing.line depth ++ ']' :: tail)
  | .obj [], tail => '{' :: '}' :: tail
  | .obj (field :: rest), tail =>
    '{' :: renderFields spacing (depth + 1) true (field :: rest) (spacing.line depth ++ '}' :: tail)

/-- The texts of the items of an array, each behind its comma and spacing, in front of what follows
them. -/
def renderItems (spacing : Spacing) (depth : Nat) (first : Bool) :
    List Json → List Char → List Char
  | [], tail => tail
  | item :: rest, tail =>
    comma first ++ spacing.line depth ++
      item.render spacing depth (renderItems spacing depth false rest tail)

/-- The texts of the members of an object, each behind its comma and spacing, in front of what
follows them. -/
def renderFields (spacing : Spacing) (depth : Nat) (first : Bool) :
    List (String × Json) → List Char → List Char
  | [], tail => tail
  | (key, value) :: rest, tail =>
    comma first ++ spacing.line depth ++ stringText key ++ spacing.colon ++
      value.render spacing depth (renderFields spacing depth false rest tail)

end

/-- The text of a value with one line for every item. -/
def pretty (v : Json) : String := String.ofList (v.render .wide 0 [])

/-- The text of a value on one line, without blanks. -/
def compact (v : Json) : String := String.ofList (v.render .tight 0 [])

end TreeRewrite.Json
