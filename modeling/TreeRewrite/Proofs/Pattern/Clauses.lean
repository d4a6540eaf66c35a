import TreeRewrite.Pattern.Summary
import TreeRewrite.Proofs.Pattern.Hooks

/-!
# Tables of few clauses

What comes of clauses for names that all stand for a kind.  No such name is reserved, and none is
ignored, so the only thing that can go wrong is that two of them stand for the same kind.

## What is here

* `Table.place_of_kindOf`, `Table.place_of_find?` — a rule for a kind that has none, and for one
  that has.
* `Table.addClause_nested`, `Table.addClause_matched` — one clause.
* `Table.ofClauses_nested`, `Table.ofClauses_matched`, `Table.ofClauses_pair` — tables of one clause
  and of two.
-/

set_option autoImplicit false

namespace TreeRewrite.Table

variable {σ ε : Type} {kinds : KindTable} {name name' : String} {kind kind' : Kind}

theorem place_of_kindOf (h : kinds.kindOf name = some kind) {table : Table σ ε}
    (fresh : table.find? kind = none) (rule : Rule σ ε) :
    place kinds table name rule
      = .ok (.mk (table.entries ++ [.mk kind name rule]) table.ignored) := by
  rw [place, h]
  simp only [fresh]

theorem place_of_find? (h : kinds.kindOf name = some kind) {table : Table σ ε} {entry : Entry σ ε}
    (taken : table.find? kind = some entry) (rule : Rule σ ε) :
    place kinds table name rule = .error (.duplicateKind kind entry.label name) := by
  rw [place, h]
  simp only [taken]

theorem addClause_nested (h : kinds.kindOf name = some kind) (table below : Table σ ε) :
    addClause kinds table (.nested name below) = place kinds table name (.nested below) := by
  rw [addClause, KindTable.not_reserved_of_kindOf h]
  rfl

theorem addClause_matched (h : kinds.kindOf name = some kind) (table : Table σ ε)
    (hooks : Hooks σ ε) (below : List (Clause σ ε)) :
    addClause kinds table (.matched name hooks below)
      = ofClauses kinds below >>= fun built => place kinds table name (.matched hooks built) := by
  rw [addClause, KindTable.not_reserved_of_kindOf h]
  rfl

/-! ## One clause and two -/

theorem ofClauses_nested (h : kinds.kindOf name = some kind) (below : Table σ ε) :
    ofClauses kinds [.nested name below] = .ok (.mk [.mk kind name (.nested below)] []) := by
  rw [ofClauses, addClauses, addClause_nested h, place_of_kindOf h rfl]
  rfl

theorem ofClauses_matched (h : kinds.kindOf name = some kind) (hooks : Hooks σ ε)
    (below : List (Clause σ ε)) :
    ofClauses kinds [.matched name hooks below]
      = (ofClauses kinds below).map fun built =>
        .mk [.mk kind name (.matched hooks built)] [] := by
  have fresh : (empty : Table σ ε).find? kind = none := rfl
  rw [ofClauses, addClauses, addClause_matched h]
  simp only [place_of_kindOf h fresh]
  cases ofClauses kinds below <;> rfl

/-- Two names with nothing below must not stand for the same kind. -/
theorem ofClauses_pair (h : kinds.kindOf name = some kind) (h' : kinds.kindOf name' = some kind')
    (hooks hooks' : Hooks σ ε) :
    ofClauses kinds [.matched name hooks [], .matched name' hooks' []]
      = if kind = kind' then .error (.duplicateKind kind' name name')
        else .ok (.mk [.mk kind name (.matched hooks .empty),
          .mk kind' name' (.matched hooks' .empty)] []) := by
  let entry : Entry σ ε := .mk kind name (.matched hooks .empty)
  have first : addClause kinds empty (.matched name hooks []) = .ok (.mk [entry] []) := by
    rw [addClause_matched h]
    exact place_of_kindOf h rfl _
  have find : (Table.mk [entry] []).find? kind' = if kind = kind' then some entry else none :=
    find?_cons ..
  rw [ofClauses, addClauses, first]
  show addClause kinds _ _ >>= _ = _
  rw [addClause_matched h']
  show place kinds _ _ _ >>= _ = _
  by_cases same : kind = kind'
  · rw [if_pos same] at find
    rw [if_pos same, place_of_find? h' find]
    rfl
  · rw [if_neg same] at find
    rw [if_neg same, place_of_kindOf h' find]
    rfl

end TreeRewrite.Table
