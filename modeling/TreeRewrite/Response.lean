import TreeRewrite.Failure
import TreeRewrite.Json.Decode

/-!
# Responses

A command answers with one JSON document.  Each response is a record with its printed form
`toJson`, whose members stand in the order of declaration and leave out what is absent, and, for
those that other programs send back, its decoder `ofJson`.
-/

set_option autoImplicit false

namespace TreeRewrite

open Json (Mismatch RecordShape decodeMember decodeString decodeList decodeNullable required)

/-- The version of the layout of all responses. -/
def schemaVersion : String := "1"

/-- The text that is printed for a response. -/
def Json.emit (response : Json) : String := response.pretty ++ "\n"

/-- A member that is left out if it is absent. -/
def optionalMember (key : String) (value? : Option Json) : List (String × Json) :=
  value?.toList.map (key, ·)

/-! ## Failures -/

/-- What is said of a failure. -/
structure ErrorInfo where
  code : UInt8
  message : String
  details? : Option Json := none

namespace ErrorInfo

/-- What helps with a failure: the recipes there are, or the path at fault. -/
def details : Failure → Option Json
  | .unknownRecipe _ =>
    some (.obj [("available", .arr (Recipe.catalog.map fun info => .str info.name))])
  | .fileNotFound path => some (.obj [("path", .str path)])
  | .writeFailed path _ => some (.obj [("path", .str path)])
  | _ => none

/-- What is said of a failure. -/
def ofFailure (f : Failure) : ErrorInfo := ⟨f.exitCode.code, f.message, details f⟩

/-- The value of the record. -/
def toJson (e : ErrorInfo) : Json :=
  .obj ([("code", .int e.code.toNat), ("message", .str e.message)] ++
    optionalMember "details" e.details?)

/-- The shape of the record. -/
def shape : RecordShape := ⟨"struct ErrorInfo", 3⟩

/-- The record that a value is. -/
def ofJson : Json → Except Mismatch ErrorInfo :=
  shape.decode
    (fun fields => do
      let code ← decodeMember fields "code" Json.decodeUInt8
      let details ← decodeMember fields "details" (decodeNullable .ok)
      let message ← decodeMember fields "message" decodeString
      return ⟨← required "code" code, ← required "message" message, details.join⟩)
    (fun items => do
      return ⟨← shape.item items 0 Json.decodeUInt8, ← shape.item items 1 decodeString,
        ← shape.item items 2 (decodeNullable .ok)⟩)

end ErrorInfo

/-- The response to a command that failed. -/
structure ErrorResponse where
  status : String := "error"
  schemaVersion : String := TreeRewrite.schemaVersion
  error : ErrorInfo

namespace ErrorResponse

/-- The response to a failure. -/
def ofFailure (f : Failure) : ErrorResponse := { error := .ofFailure f }

/-- The value of the record. -/
def toJson (r : ErrorResponse) : Json :=
  .obj [("status", .str r.status), ("schema_version", .str r.schemaVersion),
    ("error", r.error.toJson)]

/-- The shape of the record. -/
def shape : RecordShape := ⟨"struct ErrorResponse", 3⟩

/-- The record that a value is. -/
def ofJson : Json → Except Mismatch ErrorResponse :=
  shape.decode
    (fun fields => do
      let error ← decodeMember fields "error" ErrorInfo.ofJson
      let version ← decodeMember fields "schema_version" decodeString
      let status ← decodeMember fields "status" decodeString
      return ⟨← required "status" status, ← required "schema_version" version,
        ← required "error" error⟩)
    (fun items => do
      return ⟨← shape.item items 0 decodeString, ← shape.item items 1 decodeString,
        ← shape.item items 2 ErrorInfo.ofJson⟩)

end ErrorResponse

/-! ## Runs -/

/-- A tree that a run produced. -/
structure OutputTree where
  name : String
  /-- The number of nodes. -/
  nodes : UInt64
  /-- Where the tree was written, if it was. -/
  path? : Option String := none
  /-- The tree itself, if it was not. -/
  tree? : Option Json := none

namespace OutputTree

/-- The value of the record. -/
def toJson (t : OutputTree) : Json :=
  .obj ([("name", .str t.name), ("nodes", .int t.nodes.toNat)] ++
    optionalMember "path" (t.path?.map .str) ++ optionalMember "tree" t.tree?)

/-- The shape of the record. -/
def shape : RecordShape := ⟨"struct OutputTree", 4⟩

/-- The record that a value is. -/
def ofJson : Json → Except Mismatch OutputTree :=
  shape.decode
    (fun fields => do
      let name ← decodeMember fields "name" decodeString
      let nodes ← decodeMember fields "nodes" Json.decodeCount
      let path ← decodeMember fields "path" (decodeNullable decodeString)
      let tree ← decodeMember fields "tree" (decodeNullable .ok)
      return ⟨← required "name" name, ← required "nodes" nodes, path.join, tree.join⟩)
    (fun items => do
      return ⟨← shape.item items 0 decodeString, ← shape.item items 1 Json.decodeCount,
        ← shape.item items 2 (decodeNullable decodeString),
        ← shape.item items 3 (decodeNullable .ok)⟩)

end OutputTree

/-- The response to a run of recipes. -/
structure RunResponse where
  status : String := "ok"
  schemaVersion : String := TreeRewrite.schemaVersion
  /-- The recipes, in the order in which they ran. -/
  stages : List String
  bundleFeed : String
  /-- The trees, the rewritten input first. -/
  outputs : List OutputTree

namespace RunResponse

/-- The value of the record. -/
def toJson (r : RunResponse) : Json :=
  .obj [("status", .str r.status), ("schema_version", .str r.schemaVersion),
    ("stages", .arr (r.stages.map .str)), ("bundle_feed", .str r.bundleFeed),
    ("outputs", .arr (r.outputs.map OutputTree.toJson))]

/-- The shape of the record. -/
def shape : RecordShape := ⟨"struct RunResponse", 5⟩

/-- The record that a value is. -/
def ofJson : Json → Except Mismatch RunResponse :=
  shape.decode
    (fun fields => do
      let feed ← decodeMember fields "bundle_feed" decodeString
      let outputs ← decodeMember fields "outputs" (decodeList OutputTree.ofJson)
      let version ← decodeMember fields "schema_version" decodeString
      let stages ← decodeMember fields "stages" (decodeList decodeString)
      let status ← decodeMember fields "status" decodeString
      return ⟨← required "status" status, ← required "schema_version" version,
        ← required "stages" stages, ← required "bundle_feed" feed, ← required "outputs" outputs⟩)
    (fun items => do
      return ⟨← shape.item items 0 decodeString, ← shape.item items 1 decodeString,
        ← shape.item items 2 (decodeList decodeString), ← shape.item items 3 decodeString,
        ← shape.item items 4 (decodeList OutputTree.ofJson)⟩)

end RunResponse

/-! ## Listings -/

/-- A kind and its name. -/
structure KindInfo where
  name : String
  code : UInt16

namespace KindInfo

/-- The value of the record. -/
def toJson (k : KindInfo) : Json := .obj [("name", .str k.name), ("code", .int k.code.toNat)]

/-- The shape of the record. -/
def shape : RecordShape := ⟨"struct KindInfo", 2⟩

/-- The record that a value is. -/
def ofJson : Json → Except Mismatch KindInfo :=
  shape.decode
    (fun fields => do
      let code ← decodeMember fields "code" Json.decodeUInt16
      let name ← decodeMember fields "name" decodeString
      return ⟨← required "name" name, ← required "code" code⟩)
    (fun items => do
      return ⟨← shape.item items 0 decodeString, ← shape.item items 1 Json.decodeUInt16⟩)

end KindInfo

/-- The list of the kinds. -/
structure KindsResponse where
  status : String := "ok"
  schemaVersion : String := TreeRewrite.schemaVersion
  kinds : List KindInfo

namespace KindsResponse

/-- The kinds of a table, in the order of codes. -/
def ofTable (kinds : KindTable) : KindsResponse where
  kinds := kinds.listing.map fun (name, kind) => ⟨name, kind.code⟩

/-- The value of the record. -/
def toJson (r : KindsResponse) : Json :=
  .obj [("status", .str r.status), ("schema_version", .str r.schemaVersion),
    ("kinds", .arr (r.kinds.map KindInfo.toJson))]

/-- The shape of the record. -/
def shape : RecordShape := ⟨"struct KindsResponse", 3⟩

/-- The record that a value is. -/
def ofJson : Json → Except Mismatch KindsResponse :=
  shape.decode
    (fun fields => do
      let kinds ← decodeMember fields "kinds" (decodeList KindInfo.ofJson)
      let version ← decodeMember fields "schema_version" decodeString
      let status ← decodeMember fields "status" decodeString
      return ⟨← required "status" status, ← required "schema_version" version,
        ← required "kinds" kinds⟩)
    (fun items => do
      return ⟨← shape.item items 0 decodeString, ← shape.item items 1 decodeString,
        ← shape.item items 2 (decodeList KindInfo.ofJson)⟩)

end KindsResponse

/-- The list of the recipes. -/
structure RecipesResponse where
  status : String := "ok"
  schemaVersion : String := TreeRewrite.schemaVersion
  recipes : List RecipeInfo := Recipe.catalog

/-- The value of the record. -/
def RecipesResponse.toJson (r : RecipesResponse) : Json :=
  let recipe (info : RecipeInfo) : Json :=
    .obj [("name", .str info.name), ("description", .str info.description)]
  .obj [("status", .str r.status), ("schema_version", .str r.schemaVersion),
    ("recipes", .arr (r.recipes.map recipe))]

end TreeRewrite
