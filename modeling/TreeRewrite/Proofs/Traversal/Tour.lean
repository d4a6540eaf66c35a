import TreeRewrite.Proofs.Traversal.Recorder

/-!
# The order of the callbacks

A walk goes around its tree: it comes to a node, goes into the children one after the other, and
comes back to the node.  Callbacks are called on the way, `filter` and `visit` when the walk comes
to a node and `leave` when it comes back.  Which of these calls are made depends on the table, on
what callbacks say, and on where one of them fails.  But the calls that are made keep to the order
of the tour, and they are made with the nodes of the tree that was given, as it was given; only
`leave` gets a node over other children, of which there are as many.

## What is here

* `Station` — a place for a call; `Station.Precedes` — the order in which a tour comes to them.
* `Tree.tour` — all stations of a tree, in this order (`Tree.pairwise_tour`); its parts are the
  nodes in pre-order and in post-order (`Tree.tour_down`, `Tree.tour_up`).
* `Transcript.KeepsTo` — calls that are made at some stations of a tour, in its order, and with the
  nodes that stand there; `Observed.examine_keepsTo` proves it of a walk, whether or not it fails.
* `Session.rewrite_order` — the order of the calls of a rewrite in a session.
-/

set_option autoImplicit false

namespace TreeRewrite

open scoped List

variable {σ ε α β : Type}

/-! ## Stations -/

/-- A place for a call: a position of a tree, and one of the callbacks. -/
structure Station where
  position : List Nat
  slot : Slot
deriving DecidableEq

/-- The order of the calls at one node. -/
def Slot.rank : Slot → Nat
  | .filter => 0
  | .visit => 1
  | .leave => 2

theorem Slot.rank_lt_leave {slot : Slot} (h : slot ≠ .leave) : slot.rank < Slot.leave.rank := by
  cases slot with
  | filter => decide
  | visit => decide
  | leave => contradiction

namespace Station

/-- A station in a child, seen from the parent. -/
def inside (index : Nat) (station : Station) : Station :=
  { station with position := index :: station.position }

/-- Does a tour come to the first callback at the first position before it comes to the second one
at the second position?  At a node `leave` is kept until everything below it is done. -/
def ComesFirst (slot slot' : Slot) : List Nat → List Nat → Prop
  | [], [] => slot.rank < slot'.rank
  | [], _ :: _ => slot ≠ .leave
  | _ :: _, [] => slot' = .leave
  | index :: position, index' :: position' =>
    index < index' ∨ index = index' ∧ ComesFirst slot slot' position position'

/-- The order of the stations on a tour of a tree. -/
def Precedes (station station' : Station) : Prop :=
  ComesFirst station.slot station'.slot station.position station'.position

theorem ComesFirst.asymm {slot slot' : Slot} : ∀ {position position' : List Nat},
    ComesFirst slot slot' position position' → ¬ ComesFirst slot' slot position' position
  | [], [], h => Nat.lt_asymm h
  | [], _ :: _, h => fun h' => h h'
  | _ :: _, [], h => fun h' => h' h
  | _ :: _, _ :: _, h => by
    rintro (h' | ⟨rfl, h'⟩)
    · rcases h with h | ⟨rfl, -⟩
      · exact Nat.lt_asymm h h'
      · exact Nat.lt_irrefl _ h'
    · rcases h with h | ⟨-, h⟩
      · exact Nat.lt_irrefl _ h
      · exact h.asymm h'

theorem Precedes.asymm {a b : Station} (h : a.Precedes b) : ¬ b.Precedes a := ComesFirst.asymm h

theorem Precedes.irrefl (a : Station) : ¬ a.Precedes a := fun h => h.asymm h

theorem precedes_inside {index : Nat} {a b : Station} :
    (a.inside index).Precedes (b.inside index) ↔ a.Precedes b := by
  simp [Precedes, inside, ComesFirst]

theorem precedes_of_lt {index index' : Nat} (h : index < index') (a b : Station) :
    (a.inside index).Precedes (b.inside index') := .inl h

/-- At one position, callbacks are called in the order of their ranks. -/
theorem precedes_of_rank {slot slot' : Slot} (h : slot.rank < slot'.rank) :
    ∀ position : List Nat, Precedes ⟨position, slot⟩ ⟨position, slot'⟩
  | [] => h
  | _ :: position => .inr ⟨rfl, precedes_of_rank h position⟩

/-- On the way down, a node is handed over before everything below it. -/
theorem precedes_of_above {slot slot' : Slot} (h : slot ≠ .leave) {below : List Nat}
    (hne : below ≠ []) : ∀ position : List Nat,
    Precedes ⟨position, slot⟩ ⟨position ++ below, slot'⟩
  | [] => by
    cases below with
    | nil => exact absurd rfl hne
    | cons => exact h
  | _ :: position => .inr ⟨rfl, precedes_of_above h hne position⟩

/-- On the way up, a node is handed over behind everything below it. -/
theorem precedes_of_below {slot : Slot} {below : List Nat} (hne : below ≠ []) :
    ∀ position : List Nat, Precedes ⟨position ++ below, slot⟩ ⟨position, .leave⟩
  | [] => by
    cases below with
    | nil => exact absurd rfl hne
    | cons => exact rfl
  | _ :: position => .inr ⟨rfl, precedes_of_below hne position⟩

end Station

/-! ## The tour of a tree -/

namespace Tree

mutual

/-- The stations of a tree, in the order of a tour. -/
def tour : Tree → List Station
  | ⟨_, _, children⟩ => ⟨[], .filter⟩ :: ⟨[], .visit⟩ :: (tourAll children 0 ++ [⟨[], .leave⟩])

/-- The stations of the children of a node from the one with the index on. -/
def tourAll : List Tree → Nat → List Station
  | [], _ => []
  | t :: rest, index => t.tour.map (·.inside index) ++ tourAll rest (index + 1)

end

/-- Below a node all stations lie in a child. -/
theorem inside_of_mem_tourAll {ts : List Tree} {index : Nat} {station : Station}
    (h : station ∈ tourAll ts index) :
    ∃ (index' : Nat) (station' : Station), index ≤ index' ∧ station = station'.inside index' := by
  induction ts generalizing index with
  | nil => cases h
  | cons t rest ih =>
    rcases List.mem_append.mp h with h | h
    · obtain ⟨station', -, rfl⟩ := List.mem_map.mp h
      exact ⟨index, station', Nat.le_refl _, rfl⟩
    · obtain ⟨index', station', hle, rfl⟩ := ih h
      exact ⟨index', station', Nat.le_of_succ_le hle, rfl⟩

mutual

/-- **A tour comes to its stations in their order.** -/
theorem pairwise_tour : ∀ t : Tree, t.tour.Pairwise Station.Precedes
  | ⟨_, _, children⟩ => by
    have entered (slot : Slot) (h : slot ≠ .leave) :
        ∀ station ∈ tourAll children 0 ++ [⟨[], .leave⟩], Station.Precedes ⟨[], slot⟩ station := by
      intro station hs
      rcases List.mem_append.mp hs with hs | hs
      · obtain ⟨index, station', -, rfl⟩ := inside_of_mem_tourAll hs
        exact h
      · cases List.mem_singleton.mp hs
        exact Slot.rank_lt_leave h
    have left : ∀ station ∈ tourAll children 0, Station.Precedes station ⟨[], .leave⟩ := by
      intro station hs
      obtain ⟨index, station', -, rfl⟩ := inside_of_mem_tourAll hs
      exact rfl
    rw [tour, List.pairwise_cons, List.pairwise_cons, List.pairwise_append]
    refine ⟨List.forall_mem_cons.mpr ⟨Nat.zero_lt_one, entered .filter (by decide)⟩,
      entered .visit (by decide), pairwise_tourAll children 0, List.pairwise_singleton .., ?_⟩
    intro station hs last hlast
    cases List.mem_singleton.mp hlast
    exact left station hs

theorem pairwise_tourAll : ∀ (ts : List Tree) (index : Nat),
    (tourAll ts index).Pairwise Station.Precedes
  | [], _ => .nil
  | t :: rest, index => by
    rw [tourAll, List.pairwise_append, List.pairwise_map]
    refine ⟨(pairwise_tour t).imp Station.precedes_inside.mpr, pairwise_tourAll rest _, ?_⟩
    intro a ha b hb
    obtain ⟨a', -, rfl⟩ := List.mem_map.mp ha
    obtain ⟨index', b', hle, rfl⟩ := inside_of_mem_tourAll hb
    exact Station.precedes_of_lt hle a' b'

end

/-- The positions of the stations for one callback. -/
def positionsFor (slot : Slot) (stations : List Station) : List (List Nat) :=
  (stations.filter (·.slot = slot)).map Station.position

@[simp] theorem positionsFor_append (slot : Slot) (stations later : List Station) :
    positionsFor slot (stations ++ later)
      = positionsFor slot stations ++ positionsFor slot later := by
  rw [positionsFor, List.filter_append, List.map_append, positionsFor, positionsFor]

theorem positionsFor_inside (slot : Slot) (index : Nat) (stations : List Station) :
    positionsFor slot (stations.map (·.inside index))
      = (positionsFor slot stations).map (index :: ·) := by
  rw [positionsFor, positionsFor, List.filter_map, List.map_map, List.map_map]
  rfl

/-- A tour comes to every position once for each callback. -/
theorem nodup_positionsFor (t : Tree) (slot : Slot) : (positionsFor slot t.tour).Nodup := by
  rw [positionsFor, List.Nodup, List.pairwise_map, List.pairwise_filter]
  refine t.pairwise_tour.imp ?_
  rintro ⟨position, a⟩ ⟨position', b⟩ hab ha hb rfl
  cases of_decide_eq_true ha
  cases of_decide_eq_true hb
  exact Station.Precedes.irrefl _ hab

mutual

/-- On the way down a tour comes to the nodes in pre-order. -/
theorem tour_down {slot : Slot} (h : slot ≠ .leave) : ∀ t : Tree,
    positionsFor slot t.tour = t.preorder.map Prod.fst
  | ⟨_, _, children⟩ => by
    have kids := tourAll_down h children 0
    rw [preorder, List.map_cons, ← kids, tour, positionsFor, positionsFor]
    cases slot with
    | filter => simp
    | visit => simp
    | leave => contradiction

theorem tourAll_down {slot : Slot} (h : slot ≠ .leave) : ∀ (ts : List Tree) (index : Nat),
    positionsFor slot (tourAll ts index) = (preorderAll ts index).map Prod.fst
  | [], _ => rfl
  | t :: rest, index => by
    rw [tourAll, preorderAll, positionsFor_append, positionsFor_inside, tour_down h t,
      tourAll_down h rest, List.map_append, List.map_map, List.map_map]
    rfl

end

mutual

/-- On the way up a tour comes to the nodes in post-order. -/
theorem tour_up : ∀ t : Tree, positionsFor .leave t.tour = t.postorder.map Prod.fst
  | ⟨_, _, children⟩ => by
    have kids := tourAll_up children 0
    rw [postorder, List.map_append, ← kids, tour, positionsFor, positionsFor]
    simp

theorem tourAll_up : ∀ (ts : List Tree) (index : Nat),
    positionsFor .leave (tourAll ts index) = (postorderAll ts index).map Prod.fst
  | [], _ => rfl
  | t :: rest, index => by
    rw [tourAll, postorderAll, positionsFor_append, positionsFor_inside, tour_up t,
      tourAll_up rest, List.map_append, List.map_map, List.map_map]
    rfl

end

end Tree

/-! ## Calls that keep to a tour -/

/-- The station at which an event is a call, if it is one. -/
def Event.station? (e : Event σ) : Option Station :=
  match e.deed with
  | .called call => some ⟨e.position, call.slot⟩
  | _ => none

/-- The stations at which callbacks are called. -/
def stations (events : List (Event σ)) : List Station := events.filterMap Event.station?

@[simp] theorem stations_append (events later : List (Event σ)) :
    stations (events ++ later) = stations events ++ stations later := List.filterMap_append

theorem stations_inside (index : Nat) (events : List (Event σ)) :
    stations (events.map (·.inside index)) = (stations events).map (·.inside index) := by
  rw [stations, stations, List.filterMap_map, List.map_filterMap]
  congr 1
  funext e
  simp only [Function.comp_apply, Event.station?, Event.deed_inside, Event.position_inside]
  cases e.deed <;> rfl

/-- The positions at which a callback is handed nodes are its stations. -/
theorem handed_fst (slot : Slot) (events : List (Event σ)) :
    (handed slot events).map Prod.fst = Tree.positionsFor slot (stations events) := by
  induction events with
  | nil => rfl
  | cons e rest ih =>
    rw [handed, stations, List.filterMap_cons, List.filterMap_cons, ← handed, ← stations]
    rw [Tree.positionsFor] at ih ⊢
    simp only [Event.handed?, Event.station?]
    cases e.deed with
    | called call => by_cases h : call.slot = slot <;> simp [h, ih]
    | _ => exact ih

/-- The same kind and attributes over as many children. -/
structure Tree.Alike (given t : Tree) : Prop where
  kind : given.kind = t.kind
  attrs : given.attrs = t.attrs
  arity : given.children.length = t.children.length

/-- On the way down a callback is handed the node itself, on the way up one like it. -/
def Call.Hands (call : Call σ) (t : Tree) : Prop :=
  match call.slot with
  | .filter => call.given = t
  | .visit => call.given = t
  | .leave => call.given.Alike t

/-- The calls among events are made at stations of the tour, in their order, and they hand over the
nodes that stand at these places. -/
structure KeepsTo (tour : List Station) (places : List (List Nat × Tree))
    (events : List (Event σ)) : Prop where
  order : stations events <+ tour
  nodes : ∀ e ∈ events, ∀ call, e.deed = .called call →
    ∃ t, (e.position, t) ∈ places ∧ call.Hands t

namespace KeepsTo

variable {tour later : List Station} {places places' : List (List Nat × Tree)}
  {events events' : List (Event σ)}

theorem nil : KeepsTo tour places ([] : List (Event σ)) := ⟨List.nil_sublist tour, nofun⟩

theorem mono (h : KeepsTo tour places events) (ht : tour <+ later) (hp : places ⊆ places') :
    KeepsTo later places' events where
  order := h.order.trans ht
  nodes e he call hcall := by
    obtain ⟨t, ht, hands⟩ := h.nodes e he call hcall
    exact ⟨t, hp ht, hands⟩

theorem append (h : KeepsTo tour places events) (h' : KeepsTo later places events') :
    KeepsTo (tour ++ later) places (events ++ events') where
  order := by
    rw [stations_append]
    exact h.order.append h'.order
  nodes e he := (List.mem_append.mp he).elim (h.nodes e) (h'.nodes e)

theorem inside (h : KeepsTo tour places events) (index : Nat) :
    KeepsTo (tour.map (·.inside index))
      (places.map fun (position, t) => (index :: position, t)) (events.map (·.inside index)) where
  order := by
    rw [stations_inside]
    exact h.order.map _
  nodes e he call hcall := by
    obtain ⟨e', he', rfl⟩ := List.mem_map.mp he
    obtain ⟨t, ht, hands⟩ := h.nodes e' he' call hcall
    exact ⟨t, List.mem_map.mpr ⟨_, ht, rfl⟩, hands⟩

end KeepsTo

namespace Observed

/-- Two parts in a row keep to two tours in a row, and to the first tour if the first part fails.
The second part may rely on what the first is known to give. -/
theorem Ensures.bind_keepsTo_of {o : Observed σ ε α} {next : α → Observed σ ε β} {p : α → Prop}
    {tour later : List Station} {places : List (List Nat × Tree)}
    (first : o.Ensures (KeepsTo tour places ·.events))
    (gives : o.Ensures fun run => ∀ a, run.result = .ok a → p a)
    (second : ∀ a, p a → (next a).Ensures (KeepsTo later places ·.events)) :
    (o >>= next).Ensures (KeepsTo (tour ++ later) places ·.events) := by
  have both : o.Ensures fun run =>
      KeepsTo tour places run.events ∧ ∀ a, run.result = .ok a → p a :=
    fun c => ⟨first c, gives c⟩
  refine both.bind ?_ ?_
  · rintro e c events ⟨h, -⟩
    exact h.mono (List.sublist_append_left ..) fun _ => id
  · rintro a c events ⟨h, ha⟩
    exact (second a (ha a rfl)).mono fun run h' => h.append h'

theorem Ensures.bind_keepsTo {o : Observed σ ε α} {next : α → Observed σ ε β}
    {tour later : List Station} {places : List (List Nat × Tree)}
    (first : o.Ensures (KeepsTo tour places ·.events))
    (second : ∀ a, (next a).Ensures (KeepsTo later places ·.events)) :
    (o >>= next).Ensures (KeepsTo (tour ++ later) places ·.events) :=
  first.bind_keepsTo_of (p := fun _ => True) (fun _ _ _ => trivial) fun a _ => second a

/-- No child is lost and none is added. -/
theorem examineAll_length (ts : List Tree) (table : Table σ ε) (index : Nat) :
    (examineAll ts table index).Ensures fun run =>
      ∀ children, run.result = .ok children → (children.getD ts).length = ts.length := by
  induction ts generalizing index with
  | nil =>
    refine ensures_pure fun c => ?_
    rintro children ⟨⟩
    rfl
  | cons t rest ih =>
    rw [examineAll]
    have any : (inside index (examine t table)).Ensures fun _ => True := fun _ => trivial
    refine any.bind (fun e c events _ children h => by cases h) ?_
    intro head c first _
    refine (ih (index + 1)).bind (fun e c events _ children h => by cases h) ?_
    intro tail c later length
    refine ensures_pure fun c => ?_
    rintro children ⟨⟩
    rw [List.length_cons, ← length tail rfl]
    cases head <;> cases tail <;> rfl

theorem admitted_keepsTo (table : Table σ ε) (t : Tree) :
    (admitted table t).Ensures (KeepsTo [⟨[], .filter⟩] t.preorder ·.events) := by
  intro c
  have root := t.root_mem_preorder
  rw [admitted_apply]
  repeat' split
  all_goals constructor <;> simp [stations, List.filterMap_cons, Event.station?, Call.Hands, root]

theorem visit_keepsTo (rule : Rule σ ε) (t : Tree) :
    (visit rule t).Ensures (KeepsTo [⟨[], .visit⟩] t.preorder ·.events) := by
  intro c
  have root := t.root_mem_preorder
  rw [visit_apply]
  split
  · exact .nil
  · constructor <;> simp [stations, Event.station?, Call.Hands, root]

theorem leave_keepsTo (rule : Rule σ ε) (t : Tree) (visited : Rewrite)
    {children : Option (List Tree)}
    (length : (children.getD t.children).length = t.children.length) :
    (leave rule t visited (Walk.rebuild t children)).Ensures
      (KeepsTo [⟨[], .leave⟩] t.preorder ·.events) := by
  intro c
  have root := t.root_mem_preorder
  have alike : ((Walk.rebuild t children).resolve t).Alike t := by
    cases children with
    | none => exact ⟨rfl, rfl, rfl⟩
    | some children => exact ⟨rfl, rfl, length⟩
  rw [leave_apply]
  repeat' split
  all_goals constructor <;> simp [stations, List.filterMap_cons, Event.station?, Call.Hands]
  all_goals exact ⟨t, root, alike⟩

mutual

/-- **A walk keeps to the tour of its tree**, whatever callbacks say and wherever one fails. -/
theorem examine_keepsTo : ∀ (t : Tree) (table : Table σ ε),
    (examine t table).Ensures (KeepsTo t.tour t.preorder ·.events)
  | ⟨kind, attrs, children⟩, table => by
    let t : Tree := ⟨kind, attrs, children⟩
    have kids (table' : Table σ ε) : (examineAll children table' 0).Ensures
        (KeepsTo (Tree.tourAll children 0) t.preorder ·.events) :=
      (examineAll_keepsTo children table' 0).mono fun _ h =>
        h.mono (.refl _) (List.subset_cons_self ..)
    have tour : t.tour
        = [⟨[], .filter⟩] ++ ([⟨[], .visit⟩] ++ (Tree.tourAll children 0 ++ [⟨[], .leave⟩])) := rfl
    rw [examine, tour]
    refine (admitted_keepsTo table t).bind_keepsTo fun rule? => ?_
    cases rule? with
    | none =>
      have below : (do return Walk.rebuild t (← examineAll children table 0) :
          Observed σ ε Rewrite).Ensures
            (KeepsTo (Tree.tourAll children 0 ++ [⟨[], .leave⟩]) t.preorder ·.events) :=
        (kids table).bind_keepsTo fun children' => ensures_pure fun _ => .nil
      exact below.mono fun run h => h.mono (List.sublist_cons_self ..) fun _ => id
    | some rule =>
      refine (visit_keepsTo rule t).bind_keepsTo fun visited => ?_
      exact (kids rule.table).bind_keepsTo_of (examineAll_length children rule.table 0)
        fun children' length => leave_keepsTo rule t visited length

theorem examineAll_keepsTo : ∀ (ts : List Tree) (table : Table σ ε) (index : Nat),
    (examineAll ts table index).Ensures
      (KeepsTo (Tree.tourAll ts index) (Tree.preorderAll ts index) ·.events)
  | [], _, _ => ensures_pure fun _ => .nil
  | t :: rest, table, index => by
    have head : (inside index (examine t table)).Ensures
        (KeepsTo (t.tour.map (·.inside index)) (Tree.preorderAll (t :: rest) index) ·.events) :=
      ensures_inside (examine_keepsTo t table) fun _ _ _ h =>
        (h.inside index).mono (.refl _) (List.subset_append_left ..)
    have tail : (examineAll rest table (index + 1)).Ensures
        (KeepsTo (Tree.tourAll rest (index + 1)) (Tree.preorderAll (t :: rest) index) ·.events) :=
      (examineAll_keepsTo rest table (index + 1)).mono fun _ h =>
        h.mono (.refl _) (List.subset_append_right ..)
    rw [examineAll]
    refine head.bind_keepsTo fun result => ?_
    rw [← List.append_nil (Tree.tourAll rest (index + 1))]
    exact tail.bind_keepsTo fun results => ensures_pure fun _ => .nil

end

end Observed

/-! ## What a tour says about the calls -/

/-- Of two stations in a list that keeps the order, the one that precedes the other stands first. -/
theorem Station.pair_sublist {stations : List Station} (h : stations.Pairwise Station.Precedes)
    {a b : Station} (ha : a ∈ stations) (hb : b ∈ stations) (hab : a.Precedes b) :
    [a, b] <+ stations := by
  induction stations with
  | nil => cases ha
  | cons first rest ih =>
    obtain ⟨hfirst, hrest⟩ := List.pairwise_cons.mp h
    rcases List.mem_cons.mp ha with rfl | ha'
    · rcases List.mem_cons.mp hb with rfl | hb'
      · exact absurd hab (Station.Precedes.irrefl _)
      · exact (List.singleton_sublist.mpr hb').cons_cons _
    · rcases List.mem_cons.mp hb with rfl | hb'
      · exact absurd hab (hfirst a ha').asymm
      · exact (ih hrest ha' hb').cons _

namespace KeepsTo

variable {t : Tree} {events : List (Event σ)}

theorem pairwise (h : KeepsTo t.tour t.preorder events) :
    (stations events).Pairwise Station.Precedes :=
  t.pairwise_tour.sublist h.order

theorem nodup_positions (h : KeepsTo t.tour t.preorder events) (slot : Slot) :
    ((handed slot events).map Prod.fst).Nodup := by
  rw [handed_fst]
  exact (t.nodup_positionsFor slot).sublist ((h.order.filter _).map _)

/-- What is handed over stands in the tree at its position. -/
theorem hands (h : KeepsTo t.tour t.preorder events) {slot : Slot} {position : List Nat}
    {given : Tree} (hm : (position, given) ∈ handed slot events) :
    ∃ (s : Tree) (c : σ), t.at? position = some s ∧ (⟨slot, given, c⟩ : Call σ).Hands s := by
  obtain ⟨e, he, hgiven⟩ := List.mem_filterMap.mp hm
  rw [Event.handed?] at hgiven
  split at hgiven
  · next call hcall =>
    obtain ⟨s, hs, hands⟩ := h.nodes e he call hcall
    split at hgiven
    · next hslot =>
      cases hgiven
      subst hslot
      exact ⟨s, call.context, Tree.mem_preorder.mp hs, hands⟩
    · cases hgiven
  · cases hgiven

/-- On the way down, nodes of the tree are handed over in pre-order. -/
theorem handed_down (h : KeepsTo t.tour t.preorder events) {slot : Slot} (hs : slot ≠ .leave) :
    handed slot events <+ t.preorder := by
  have given : ∀ place ∈ handed slot events, t.at? place.1 = some place.2 := by
    rintro ⟨position, given⟩ hm
    obtain ⟨s, c, hat, hands⟩ := h.hands hm
    cases slot with
    | filter => exact (show given = s from hands) ▸ hat
    | visit => exact (show given = s from hands) ▸ hat
    | leave => contradiction
  have listed : ∀ place ∈ t.preorder, t.at? place.1 = some place.2 :=
    fun _ => Tree.mem_preorder.mp
  have positions : (handed slot events).map Prod.fst <+ t.preorder.map Prod.fst := by
    rw [handed_fst, ← Tree.tour_down hs]
    exact (h.order.filter _).map _
  rw [← Tree.filterMap_at? given, ← Tree.filterMap_at? listed]
  exact positions.filterMap _

/-- On the way up, nodes are handed over in post-order. -/
theorem handed_up (h : KeepsTo t.tour t.preorder events) :
    (handed .leave events).map Prod.fst <+ t.postorder.map Prod.fst := by
  rw [handed_fst, ← Tree.tour_up]
  exact (h.order.filter _).map _

end KeepsTo

/-! ## A rewrite in a session -/

namespace Session

theorem transcript_keepsTo (session : Session σ) (table : Table σ ε) (t : Tree) :
    KeepsTo t.tour t.preorder (session.transcript table t).events :=
  Observed.examine_keepsTo t table session.context

/-- **The order of the calls and what they are given**, in any rewrite, whether or not it fails.
The nodes that `filter` and `visit` are handed are nodes of the tree, in pre-order; no position gets
two calls of a kind; at a position the calls come in the order of their ranks; all that come before
`leave` come before the calls below, and `leave` comes behind them; the calls of `leave` are in
post-order, and hand over a node with the kind, the attributes and the number of children of the
one at the position. -/
theorem rewrite_order (session : Session σ) (table : Table σ ε) (t : Tree) :
    let events := (session.transcript table t).events
    TreeRewrite.calls events = session.calls table t ∧
    (∀ slot, slot ≠ .leave → handed slot events <+ t.preorder) ∧
    (∀ slot, ((handed slot events).map Prod.fst).Nodup) ∧
    (∀ position slot slot', slot.rank < slot'.rank →
      ⟨position, slot⟩ ∈ stations events → ⟨position, slot'⟩ ∈ stations events →
        [⟨position, slot⟩, ⟨position, slot'⟩] <+ stations events) ∧
    (∀ position below slot slot', below ≠ [] → slot ≠ .leave →
      ⟨position, slot⟩ ∈ stations events → ⟨position ++ below, slot'⟩ ∈ stations events →
        [⟨position, slot⟩, ⟨position ++ below, slot'⟩] <+ stations events) ∧
    (∀ position below slot, below ≠ [] →
      ⟨position ++ below, slot⟩ ∈ stations events → ⟨position, .leave⟩ ∈ stations events →
        [⟨position ++ below, slot⟩, ⟨position, .leave⟩] <+ stations events) ∧
    (handed .leave events).map Prod.fst <+ t.postorder.map Prod.fst ∧
    ∀ position given, (position, given) ∈ handed .leave events →
      ∃ s, t.at? position = some s ∧ given.kind = s.kind ∧ given.attrs = s.attrs ∧
        given.children.length = s.children.length := by
  intro events
  have keeps : KeepsTo t.tour t.preorder events := session.transcript_keepsTo table t
  refine ⟨(session.calls_eq table t).symm, fun slot => keeps.handed_down, keeps.nodup_positions,
    ?_, ?_, ?_, keeps.handed_up, ?_⟩
  · intro position slot slot' hrank h h'
    exact Station.pair_sublist keeps.pairwise h h' (Station.precedes_of_rank hrank position)
  · intro position below slot slot' hne hslot h h'
    exact Station.pair_sublist keeps.pairwise h h' (Station.precedes_of_above hslot hne position)
  · intro position below slot hne h h'
    exact Station.pair_sublist keeps.pairwise h h' (Station.precedes_of_below hne position)
  · intro position given hm
    obtain ⟨s, c, hat, alike⟩ := keeps.hands hm
    exact ⟨s, hat, alike.kind, alike.attrs, alike.arity⟩

end Session

end TreeRewrite
