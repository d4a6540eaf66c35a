import TreeRewrite.Pattern.Basic
import TreeRewrite.Text.Quoted

/-!
# Tables by the names of kinds

Rules are written down for kind *names*.  A `Clause` is a rule for a name, a list of clauses is the
source of a table, and `Table.ofClauses` resolves the names by a kind table:

* a name that stands for no kind is ignored, for it can never match;
* a reserved name is refused, and so are two names for one kind in the same list.

The first clause at fault is the error.  Within one clause, a reserved name comes before the faults
of the clauses below it, and these come before a second name for the kind.

The logs show a table by these names again: `Table.summary` gives the names in the order of their
codes and the names that were ignored, and `Rule.summary` which callbacks a rule has.
-/

set_option autoImplicit false

namespace TreeRewrite

variable {σ ε : Type}

/-! ## Clauses -/

/-- A rule for the nodes of a named kind. -/
inductive Clause (σ ε : Type) where
  /-- Descend with a table that is already built. -/
  | nested (name : String) (table : Table σ ε)
  /-- Call the hooks, and descend by the clauses. -/
  | matched (name : String) (hooks : Hooks σ ε) (below : List (Clause σ ε))

namespace Table

/-- Adds the rule for a name to a table. -/
def place (kinds : KindTable) (table : Table σ ε) (name : String) (rule : Rule σ ε) :
    Except TableError (Table σ ε) :=
  match kinds.kindOf name with
  | none => .ok (.mk table.entries (table.ignored ++ [name]))
  | some kind =>
    match table.find? kind with
    | some entry => .error (.duplicateKind kind entry.label name)
    | none => .ok (.mk (table.entries ++ [.mk kind name rule]) table.ignored)

mutual

/-- Adds a clause to a table. -/
def addClause (kinds : KindTable) (table : Table σ ε) :
    Clause σ ε → Except TableError (Table σ ε)
  | .nested name below =>
    if isReserved name then .error (.reservedName name)
    else place kinds table name (.nested below)
  | .matched name hooks below =>
    if isReserved name then .error (.reservedName name)
    else do place kinds table name (.matched hooks (← addClauses kinds empty below))

/-- Adds clauses to a table, one by one. -/
def addClauses (kinds : KindTable) (table : Table σ ε) :
    List (Clause σ ε) → Except TableError (Table σ ε)
  | [] => .ok table
  | clause :: rest => do addClauses kinds (← addClause kinds table clause) rest

end

/-- The table that clauses describe. -/
def ofClauses (kinds : KindTable) (clauses : List (Clause σ ε)) :
    Except TableError (Table σ ε) :=
  addClauses kinds empty clauses

end Table

/-! ## Summaries in one line -/

/-- Summaries between brackets. -/
def bracketed (items : List String) : String := "[" ++ String.intercalate ", " items ++ "]"

/-- Named parts between braces. -/
def braced (name : String) (parts : List (String × String)) : String :=
  name ++ " \x7b " ++ String.intercalate ", " (parts.map fun (k, v) => k ++ ": " ++ v) ++ " \x7d"

/-- The entries in the order of their codes. -/
def Table.sortedEntries (table : Table σ ε) : List (Entry σ ε) :=
  table.entries.mergeSort fun a b => a.kind.code ≤ b.kind.code

/-- The summary of a table. -/
def Table.summary (table : Table σ ε) : String :=
  let key (entry : Entry σ ε) : String :=
    s!"(Kind({entry.kind.code}), " ++ Text.quoted entry.label ++ ")"
  braced "PatternTable"
    [("keys", bracketed (table.sortedEntries.map key)),
      ("ignored", bracketed (table.ignored.map Text.quoted))]

/-- The summary of a rule. -/
def Rule.summary : Rule σ ε → String
  | .nested table => "Nested(" ++ table.summary ++ ")"
  | .matched hooks table =>
    "Terminal(" ++ braced "MatchRule"
      [("filter", toString hooks.filter?.isSome), ("visit", toString hooks.visit?.isSome),
        ("leave", toString hooks.leave?.isSome), ("table", table.summary)] ++ ")"

end TreeRewrite
