import TreeRewrite.Traversal

/-!
# What happens on a walk

A walk does only a handful of things at a node: it looks the node up in a table, hands it to a
callback, applies a rule or not, and lets a replacement take effect.  This file names these things
and what can be read off a list of them.  Which of them a walk does, and in
which order, is the matter of `TreeRewrite.Proofs.Traversal.Observed`.

## What is here

* `Deed` — one of the things; `Event` — a deed together with the position of its node, the list of
  child indices that leads to the node from the root of the tree.  `Event.inside` and `Event.under`
  move an event below a child and below a position.
* `tally` — the counters that a list of events adds up to.  Counters are added by `Stats`' `+`.
* `calls` — the callbacks that were called, each with the node and the context it was given;
  `handed` — the nodes that were handed to one kind of callback; `applications` — the nodes to which
  a rule was applied; `replacements` — the trees that took the place of nodes.  All but the calls
  are listed with their positions.
* `Hooks.answer?` — what a callback answers to a call.
-/

set_option autoImplicit false

namespace TreeRewrite

/-! ## Counters are added one by one -/

attribute [ext] Stats

namespace Stats

instance : Add Stats where
  add a b :=
    ⟨a.visited + b.visited, a.matched + b.matched, a.rejected + b.rejected, a.replaced + b.replaced⟩

instance : Zero Stats := ⟨{}⟩

variable (a b c : Stats)

@[simp] theorem visited_add : (a + b).visited = a.visited + b.visited := rfl

@[simp] theorem matched_add : (a + b).matched = a.matched + b.matched := rfl

@[simp] theorem rejected_add : (a + b).rejected = a.rejected + b.rejected := rfl

@[simp] theorem replaced_add : (a + b).replaced = a.replaced + b.replaced := rfl

@[simp] theorem visited_zero : (0 : Stats).visited = 0 := rfl

@[simp] theorem matched_zero : (0 : Stats).matched = 0 := rfl

@[simp] theorem rejected_zero : (0 : Stats).rejected = 0 := rfl

@[simp] theorem replaced_zero : (0 : Stats).replaced = 0 := rfl

theorem add_assoc : a + b + c = a + (b + c) := by
  ext <;> simp [Nat.add_assoc]

@[simp] theorem add_zero : a + 0 = a := rfl

@[simp] theorem zero_add : 0 + a = a := by
  ext <;> simp

end Stats

/-! ## Deeds and events -/

/-- The places for callbacks in a rule. -/
inductive Slot where
  | filter
  | visit
  | leave
deriving DecidableEq, Repr

/-- A call of a callback: the node and the context that the callback is given. -/
structure Call (σ : Type) where
  slot : Slot
  given : Tree
  context : σ

/-- One thing that a walk does at a node. -/
inductive Deed (σ : Type) where
  /-- The node is looked up in the table in force. -/
  | examined
  /-- A callback is called. -/
  | called (call : Call σ)
  /-- The rule for the node is applied. -/
  | matched (given : Tree)
  /-- The filter declines the node. -/
  | rejected
  /-- The tree that a callback gave takes the place of the node. -/
  | replaced (tree : Tree)

variable {σ : Type}

/-- What a deed adds to the counters. -/
def Deed.stats : Deed σ → Stats
  | .examined => { visited := 1 }
  | .called _ => 0
  | .matched _ => { matched := 1 }
  | .rejected => { rejected := 1 }
  | .replaced _ => { replaced := 1 }

/-- A deed at the node at a position. -/
structure Event (σ : Type) where
  position : List Nat
  deed : Deed σ

/-- What happens in a child, seen from the parent. -/
def Event.inside (index : Nat) (e : Event σ) : Event σ := { e with position := index :: e.position }

@[simp] theorem Event.position_inside (index : Nat) (e : Event σ) :
    (e.inside index).position = index :: e.position := rfl

@[simp] theorem Event.deed_inside (index : Nat) (e : Event σ) :
    (e.inside index).deed = e.deed := rfl

/-- What happens below a position, seen from the root. -/
def Event.under (position : List Nat) (e : Event σ) : Event σ :=
  { e with position := position ++ e.position }

@[simp] theorem Event.under_nil (e : Event σ) : e.under [] = e := rfl

@[simp] theorem Event.inside_under (index : Nat) (position : List Nat) (e : Event σ) :
    (e.under position).inside index = e.under (index :: position) := rfl

/-! ## Adding up -/

/-- The counters that events add up to. -/
def tally : List (Event σ) → Stats
  | [] => 0
  | e :: rest => e.deed.stats + tally rest

@[simp] theorem tally_nil : tally ([] : List (Event σ)) = 0 := rfl

@[simp] theorem tally_cons (e : Event σ) (events : List (Event σ)) :
    tally (e :: events) = e.deed.stats + tally events := rfl

@[simp] theorem tally_append (events later : List (Event σ)) :
    tally (events ++ later) = tally events + tally later := by
  induction events with
  | nil => simp
  | cons e rest ih => rw [List.cons_append, tally_cons, ih, tally_cons, Stats.add_assoc]

@[simp] theorem tally_inside (index : Nat) (events : List (Event σ)) :
    tally (events.map (·.inside index)) = tally events := by
  induction events with
  | nil => rfl
  | cons e rest ih => rw [List.map_cons, tally_cons, ih, Event.deed_inside, tally_cons]

/-! ## Reading off -/

/-- The call that an event is, if it is one. -/
def Event.call? (e : Event σ) : Option (Call σ) :=
  match e.deed with
  | .called call => some call
  | _ => none

/-- The calls among events. -/
def calls (events : List (Event σ)) : List (Call σ) := events.filterMap Event.call?

/-- The node that an event hands to a callback of a kind, if it does. -/
def Event.handed? (slot : Slot) (e : Event σ) : Option (List Nat × Tree) :=
  match e.deed with
  | .called call => if call.slot = slot then some (e.position, call.given) else none
  | _ => none

/-- The nodes that are handed to the callbacks of a kind. -/
def handed (slot : Slot) (events : List (Event σ)) : List (List Nat × Tree) :=
  events.filterMap (Event.handed? slot)

/-- The node to which an event applies a rule, if it does. -/
def Event.application? (e : Event σ) : Option (List Nat × Tree) :=
  match e.deed with
  | .matched given => some (e.position, given)
  | _ => none

/-- The nodes to which rules are applied. -/
def applications (events : List (Event σ)) : List (List Nat × Tree) :=
  events.filterMap Event.application?

@[simp] theorem calls_append (events later : List (Event σ)) :
    calls (events ++ later) = calls events ++ calls later := List.filterMap_append

@[simp] theorem calls_inside (index : Nat) (events : List (Event σ)) :
    calls (events.map (·.inside index)) = calls events := by
  rw [calls, List.filterMap_map]
  rfl

@[simp] theorem handed_append (slot : Slot) (events later : List (Event σ)) :
    handed slot (events ++ later) = handed slot events ++ handed slot later :=
  List.filterMap_append

theorem handed_inside (slot : Slot) (index : Nat) (events : List (Event σ)) :
    handed slot (events.map (·.inside index))
      = (handed slot events).map fun (position, t) => (index :: position, t) := by
  rw [handed, handed, List.filterMap_map, List.map_filterMap]
  congr 1
  funext e
  simp only [Function.comp_apply, Event.handed?, Event.deed_inside, Event.position_inside]
  cases e.deed with
  | called call => by_cases h : call.slot = slot <;> simp [h]
  | _ => rfl

/-- The nodes that callbacks of a kind are handed are those of the calls. -/
theorem handed_snd (slot : Slot) (events : List (Event σ)) :
    (handed slot events).map Prod.snd
      = ((calls events).filter (·.slot = slot)).map Call.given := by
  induction events with
  | nil => rfl
  | cons e rest ih =>
    rw [handed, calls, List.filterMap_cons, List.filterMap_cons, ← handed, ← calls]
    simp only [Event.handed?, Event.call?]
    cases e.deed with
    | called call => by_cases h : call.slot = slot <;> simp [h, ih]
    | _ => exact ih

theorem length_handed (slot : Slot) (events : List (Event σ)) :
    (handed slot events).length = ((calls events).filter (·.slot = slot)).length := by
  rw [← List.length_map, handed_snd, List.length_map]

@[simp] theorem applications_append (events later : List (Event σ)) :
    applications (events ++ later) = applications events ++ applications later :=
  List.filterMap_append

theorem applications_inside (index : Nat) (events : List (Event σ)) :
    applications (events.map (·.inside index))
      = (applications events).map fun (position, t) => (index :: position, t) := by
  rw [applications, applications, List.filterMap_map, List.map_filterMap]
  congr 1
  funext e
  simp only [Function.comp_apply, Event.application?, Event.deed_inside, Event.position_inside]
  cases e.deed <;> rfl

/-- The counter of applied rules is the number of nodes to which one was applied. -/
theorem length_applications (events : List (Event σ)) :
    (applications events).length = (tally events).matched := by
  induction events with
  | nil => rfl
  | cons e rest ih =>
    rw [applications, List.filterMap_cons, ← applications, tally_cons, Stats.matched_add, ← ih,
      Event.application?]
    cases e.deed <;> simp [Deed.stats, Nat.add_comm]

/-- The tree that an event puts in the place of a node, if it does. -/
def Event.replacement? (e : Event σ) : Option (List Nat × Tree) :=
  match e.deed with
  | .replaced tree => some (e.position, tree)
  | _ => none

/-- The trees that take the places of nodes. -/
def replacements (events : List (Event σ)) : List (List Nat × Tree) :=
  events.filterMap Event.replacement?

@[simp] theorem replacements_append (events later : List (Event σ)) :
    replacements (events ++ later) = replacements events ++ replacements later :=
  List.filterMap_append

theorem replacements_inside (index : Nat) (events : List (Event σ)) :
    replacements (events.map (·.inside index))
      = (replacements events).map fun (position, t) => (index :: position, t) := by
  rw [replacements, replacements, List.filterMap_map, List.map_filterMap]
  congr 1
  funext e
  simp only [Function.comp_apply, Event.replacement?, Event.deed_inside, Event.position_inside]
  cases e.deed <;> rfl

/-- The counter of replacements is the number of trees that took the place of a node. -/
theorem length_replacements (events : List (Event σ)) :
    (replacements events).length = (tally events).replaced := by
  induction events with
  | nil => rfl
  | cons e rest ih =>
    rw [replacements, List.filterMap_cons, ← replacements, tally_cons, Stats.replaced_add, ← ih,
      Event.replacement?]
    cases e.deed <;> simp [Deed.stats, Nat.add_comm]

theorem replacements_eq_nil {events : List (Event σ)} (h : (tally events).replaced = 0) :
    replacements events = [] :=
  List.length_eq_zero_iff.mp ((length_replacements events).trans h)

/-! ## Answers -/

/-- What a callback says, unless it fails. -/
inductive Answer where
  /-- A filter accepts the node or declines it. -/
  | decision (accepted : Bool)
  /-- The other callbacks keep the node or give another tree. -/
  | rewrite (r : Rewrite)

/-- What the callback for a call answers, or how it fails, and the context that it leaves.  There is
no answer where there is no callback. -/
def Hooks.answer? {ε : Type} (hooks : Hooks σ ε) (call : Call σ) :
    Option (Except ε Answer × σ) :=
  match call.slot with
  | .filter => hooks.filter?.map fun filter =>
    let (result, c) := filter call.given call.context
    (result.map .decision, c)
  | .visit => hooks.visit?.map fun visit =>
    let (result, c) := visit call.given call.context
    (result.map .rewrite, c)
  | .leave => hooks.leave?.map fun leave =>
    let (result, c) := leave call.given call.context
    (result.map .rewrite, c)

end TreeRewrite
