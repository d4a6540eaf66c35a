/-!
# Paths

A path is a text, and its `components` are what it means: blank and `.` segments between slashes
say nothing, except for a `.` in front of a relative path.

* `Path.join` puts a name below a directory, unless the name is a path from the root.
* `Path.above` are the directories on the way to a path, each in the words of the path itself.
* `Path.isPlain` says whether a path can only lead downwards.
-/

set_option autoImplicit false

namespace TreeRewrite.Path

/-- A step of a path. -/
inductive Component where
  /-- The slash in front of a path. -/
  | root
  /-- A dot in front of a path. -/
  | current
  /-- Two dots. -/
  | up
  /-- A plain name. -/
  | name (s : String)
deriving DecidableEq, Repr

/-- The pieces of a text between its slashes. -/
def segments : List Char → List (List Char)
  | [] => [[]]
  | c :: rest =>
    if c = '/' then [] :: segments rest
    else match segments rest with
      | [] => [[c]]
      | piece :: pieces => (c :: piece) :: pieces

/-- The component of a piece that does not stand in front of the path. -/
def innerComponent? (piece : List Char) : Option Component :=
  match piece with
  | [] => none
  | ['.'] => none
  | ['.', '.'] => some .up
  | piece => some (.name (String.ofList piece))

/-- The components of a path. -/
def components (path : String) : List Component :=
  match segments path.toList with
  | [] => []
  | [[]] => []
  | [] :: rest => .root :: rest.filterMap innerComponent?
  | ['.'] :: rest => .current :: rest.filterMap innerComponent?
  | pieces => pieces.filterMap innerComponent?

/-- The text with the pieces, which are given from the last to the first.  A single blank piece is
what stands in front of the root's slash. -/
def ofPieces : List (List Char) → String
  | [[]] => "/"
  | pieces => String.intercalate "/" (pieces.reverse.map String.ofList)

/-- The path with the pieces, which are given from the last to the first, and the paths above it.
They end with a piece that says something; what says nothing further ahead stays as it is. -/
def chain : List (List Char) → List String
  | [] => []
  | [first] => [ofPieces [first]]
  | last :: rest =>
    if (innerComponent? last).isSome then ofPieces (last :: rest) :: chain rest else chain rest

/-- The directories above a path, the nearest first; the working directory is not among them. -/
def above (path : String) : List String := (chain (segments path.toList).reverse).drop 1

example : above "/a/./b//c" = ["/a/./b", "/a", "/"] := by cbv

/-- A name below a directory. -/
def join (dir name : String) : String :=
  if name.toList.head? = some '/' then name
  else match dir.toList.getLast? with
    | none => name
    | some '/' => dir ++ name
    | some _ => dir ++ "/" ++ name

/-- Has the path components, and is each of them a plain name? -/
def isPlain (path : String) : Bool :=
  match components path with
  | [] => false
  | cs => cs.all fun
    | .name _ => true
    | _ => false

end TreeRewrite.Path
