import TreeRewrite.Json.Decode
import TreeRewrite.Json.Reader
import TreeRewrite.Tree.Basic

/-!
# Trees as JSON documents

In a document every node is a record: the *name* of its kind, and its attributes and children
unless there are none.  A record may also be written as an array of the three.

* `NodeRecord.ofJson` checks the shape of a value; `NodeRecord.read` checks the shape of a text
  while it is read.  They differ in the order in which faults are found: a value is checked in the
  order of its keys, a text in the order of its characters.
* `NodeRecord.resolve` and `Tree.record` pass between names and codes by a kind table, and only
  after the whole shape has been checked; the first unknown name or code in pre-order is the error.
* `Tree.read`, `Tree.ofJson`, `Tree.write` and `Tree.toJson` are the two steps together.
-/

set_option autoImplicit false

namespace TreeRewrite

/-- A node as a document has it, with the name of its kind. -/
structure NodeRecord where
  kind : String
  attrs : Fields := []
  children : List NodeRecord := []
deriving Repr, Inhabited

/-- Why a tree could not be read from a document or written as one. -/
inductive DocumentError where
  | json (fault : Json.Fault)
  | unknownKind (name : String)
  | unknownCode (code : UInt16)

/-- The words for a document that is no tree, or a tree that has no document. -/
def DocumentError.message : DocumentError → String
  | .json fault => "invalid tree JSON: " ++ fault.message
  | .unknownKind name => s!"unknown kind '{name}'"
  | .unknownCode code => s!"unknown kind code {code}"

namespace NodeRecord

open Json (Mismatch Reader)

/-- What messages call a record. -/
def shape : String := "struct NodeRepr"

/-- What messages call a record written as an array. -/
def arrayShape : String := "struct NodeRepr with 3 elements"

/-- A record of which only some members have been read. -/
structure Draft where
  kind? : Option String := none
  attrs? : Option Fields := none
  children? : Option (List NodeRecord) := none

/-- Refuses a second member with the same key. -/
def Draft.claim (draft : Draft) (key : String) : Except Mismatch Unit :=
  let taken := match key with
    | "kind" => draft.kind?.isSome
    | "attrs" => draft.attrs?.isSome
    | "children" => draft.children?.isSome
    | _ => false
  if taken then .error (.duplicateField key) else .ok ()

/-- The finished record; only the kind has no default. -/
def Draft.finish (draft : Draft) : Except Mismatch NodeRecord :=
  match draft.kind? with
  | none => .error (.missingField "kind")
  | some kind => .ok ⟨kind, draft.attrs?.getD [], draft.children?.getD []⟩

/-! ## From a value -/

mutual

/-- The record that a value is. -/
def ofJson : Json → Except Mismatch NodeRecord
  | .obj fields => do (← ofFields fields {}).finish
  | .arr [] => .error (.wrongLength 0 arrayShape)
  | .arr [kind] => do return ⟨← Json.decodeString kind, [], []⟩
  | .arr [kind, attrs] => do return ⟨← Json.decodeString kind, ← Json.decodeFields attrs, []⟩
  | .arr (kind :: attrs :: children :: rest) => do
    let node : NodeRecord :=
      ⟨← Json.decodeString kind, ← Json.decodeFields attrs, ← childrenOfJson children⟩
    if rest.isEmpty then return node
    else throw (.wrongLength (rest.length + 3) "fewer elements in array")
  | v => .error (.wrongType v.found shape)

/-- Fills a draft from the members of an object, in their order; unknown ones are passed over. -/
def ofFields : List (String × Json) → Draft → Except Mismatch Draft
  | [], draft => .ok draft
  | (key, value) :: rest, draft => do
    draft.claim key
    let draft ← match key with
      | "kind" => do pure { draft with kind? := some (← Json.decodeString value) }
      | "attrs" => do pure { draft with attrs? := some (← Json.decodeFields value) }
      | "children" => do pure { draft with children? := some (← childrenOfJson value) }
      | _ => pure draft
    ofFields rest draft

/-- The children of a record. -/
def childrenOfJson : Json → Except Mismatch (List NodeRecord)
  | .arr items => ofItems items
  | v => .error (.wrongType v.found Json.sequenceShape)

/-- The records that the items of an array are. -/
def ofItems : List Json → Except Mismatch (List NodeRecord)
  | [] => .ok []
  | item :: rest => do return (← ofJson item) :: (← ofItems rest)

end

/-! ## From a text -/

/-- A mismatch of shape as a fault of the text. -/
def refuse {α : Type} : Except Mismatch α → Reader α
  | .ok x => pure x
  | .error m => throw (.mismatch m)

/-- The kind of a record, read from text. -/
def kindReader : Reader String := do
  if (← Reader.token) = some '"' then do
    Reader.skip
    Reader.string true
  else Reader.mismatch Json.stringShape

/-- The attributes of a record, read from text. -/
def attrsReader (fuel : Nat) : Reader Fields := do
  if (← Reader.token) = some '{' then do
    match ← Reader.value true fuel with
    | .obj fields => return fields
    | _ => return []
  else Reader.mismatch Json.mapShape

/-- The children of a record, read from text by a reader of records. -/
def childrenReader (node : Reader NodeRecord) (fuel : Nat) : Reader (List NodeRecord) := do
  if (← Reader.token) = some '[' then do
    Reader.skip
    Reader.elements node fuel true
  else Reader.mismatch Json.sequenceShape

/-- Fills a draft by the member whose key has just been read.  A second member with the same key
is refused before its value is looked at. -/
def memberReader (node : Reader NodeRecord) (fuel : Nat) (draft : Draft) (key : String) :
    Reader Draft := do
  refuse (draft.claim key)
  Reader.colon
  match key with
  | "kind" => return { draft with kind? := some (← kindReader) }
  | "attrs" => return { draft with attrs? := some (← attrsReader fuel) }
  | "children" => return { draft with children? := some (← childrenReader node fuel) }
  | _ => do
    let _ ← Reader.value false fuel
    return draft

/-- A record written as an array, behind its bracket. -/
def arrayReader (node : Reader NodeRecord) (fuel : Nat) : Reader NodeRecord := do
  if !(← Reader.moreItems true) then throw (.mismatch (.wrongLength 0 arrayShape))
  let kind ← kindReader
  let attrs ← if ← Reader.moreItems false then attrsReader fuel else pure []
  let children ← if ← Reader.moreItems false then childrenReader node fuel else pure []
  match ← Reader.token with
  | none => throw .truncated
  | some ']' => Reader.skip
  | some _ => throw .malformed
  return ⟨kind, attrs, children⟩

/-- A record, read from text. -/
def reader : Nat → Reader NodeRecord
  | 0 => throw .truncated
  | fuel + 1 => do
    match ← Reader.token with
    | some '{' => do
      Reader.skip
      refuse (← Reader.members true (memberReader (reader fuel) fuel) fuel true {}).finish
    | some '[' => do
      Reader.skip
      arrayReader (reader fuel) fuel
    | _ => Reader.mismatch shape

/-- The record that a text is. -/
def read (text : String) : Except Json.Fault NodeRecord := Reader.runAll reader text

/-! ## To a value -/

mutual

/-- The record as a value.  Members that are empty are left out; the kind comes first in a document
and last where keys are sorted. -/
def toJson (kindFirst : Bool) : NodeRecord → Json
  | ⟨kind, attrs, children⟩ =>
    let rest := (if attrs.isEmpty then [] else [("attrs", .obj attrs)]) ++
      if children.isEmpty then [] else [("children", .arr (toJsonAll kindFirst children))]
    .obj (if kindFirst then ("kind", .str kind) :: rest else rest ++ [("kind", .str kind)])

/-- The records as values. -/
def toJsonAll (kindFirst : Bool) : List NodeRecord → List Json
  | [] => []
  | node :: rest => node.toJson kindFirst :: toJsonAll kindFirst rest

end

/-! ## Names and codes -/

mutual

/-- The tree that a record names. -/
def resolve (kinds : KindTable) : NodeRecord → Except DocumentError Tree
  | ⟨kind, attrs, children⟩ =>
    match kinds.kindOf kind with
    | none => .error (.unknownKind kind)
    | some kind => do return ⟨kind, attrs, ← resolveAll kinds children⟩

/-- The trees that records name. -/
def resolveAll (kinds : KindTable) : List NodeRecord → Except DocumentError (List Tree)
  | [] => .ok []
  | node :: rest => do return (← node.resolve kinds) :: (← resolveAll kinds rest)

end

end NodeRecord

namespace Tree

mutual

/-- The record that names a tree. -/
def record (kinds : KindTable) : Tree → Except DocumentError NodeRecord
  | ⟨kind, attrs, children⟩ =>
    match kinds.nameOf kind with
    | none => .error (.unknownCode kind.code)
    | some name => do return ⟨name, attrs, ← recordAll kinds children⟩

/-- The records that name trees. -/
def recordAll (kinds : KindTable) : List Tree → Except DocumentError (List NodeRecord)
  | [] => .ok []
  | t :: rest => do return (← t.record kinds) :: (← recordAll kinds rest)

end

/-- The tree that a text is. -/
def read (kinds : KindTable) (text : String) : Except DocumentError Tree :=
  match NodeRecord.read text with
  | .error fault => .error (.json fault)
  | .ok node => node.resolve kinds

/-- The tree that a value is. -/
def ofJson (kinds : KindTable) (value : Json) : Except DocumentError Tree :=
  match NodeRecord.ofJson value with
  | .error what => .error (.json (.mismatch what))
  | .ok node => node.resolve kinds

/-- The text of a tree. -/
def write (kinds : KindTable) (t : Tree) : Except DocumentError String := do
  return ((← t.record kinds).toJson true).pretty

/-- The value of a tree. -/
def toJson (kinds : KindTable) (t : Tree) : Except DocumentError Json := do
  return (← t.record kinds).toJson false

end Tree

end TreeRewrite
