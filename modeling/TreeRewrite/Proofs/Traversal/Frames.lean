import TreeRewrite.Proofs.Tree.Grafts
import TreeRewrite.Proofs.Traversal.Changes
import TreeRewrite.Proofs.Traversal.Eager
import TreeRewrite.Proofs.Traversal.Tour

/-!
# What becomes of each position

Wherever replacements take effect, the tree that a rewrite gives is the tree it was given with these
trees in the places of nodes.  A replacement at a node drops what became of everything below it, so
only topmost replacements are found in the end; and a node with no replacement at it or above it is
found at its position, over as many children.

The replacements are read off the events of the walk.  What a walk can do at one node is said once,
by `Observed.examine_settles`; all else is an induction on the tree.

## What is here

* `Table.Gives` — a callback answers to a call with a tree, and it has the last word on the node.
* `Observed.Settles` — how the walk of a node comes to its end, by the walk of its children.
* `Transcript.Replaces` — the replacements of a run are given by callbacks and stand at some
  positions, in their order; `Observed.examine_gives` proves it of a walk.
* `Observed.examine_graft` — the result of a walk is its tree with the replacements put in.
* `Session.rewrite_graft`, `Session.rewrite_frame` — what a rewrite in a session makes of a tree,
  and what it makes of each position.
-/

set_option autoImplicit false

namespace TreeRewrite

open scoped List

variable {σ ε : Type}

/-! ## Calls that give replacements -/

/-- The callback for the call answers with the tree, and no `leave` of its rule decides after it. -/
def Table.Gives (table : Table σ ε) (call : Call σ) (new : Tree) : Prop :=
  ∃ path hooks c, table.hooksAt? path = some hooks ∧
    hooks.answer? call = some (.ok (.rewrite (.replaced new)), c) ∧
    (call.slot = .visit → hooks.leave? = none)

theorem Table.Gives.below {table : Table σ ε} {kind : Kind} {entry : Entry σ ε}
    (h : table.find? kind = some entry) {call : Call σ} {new : Tree}
    (gives : entry.rule.table.Gives call new) : table.Gives call new := by
  obtain ⟨path, hooks, c, hp, answer⟩ := gives
  exact ⟨kind :: path, hooks, c, Table.hooksAt?_below h hp, answer⟩

namespace Observed

/-- A rule that is applied is that of an entry for the node. -/
theorem admitted_some {table : Table σ ε} {t : Tree} {c : σ} {rule : Rule σ ε}
    (h : (admitted table t c).result = .ok (some rule)) :
    ∃ entry, table.find? t.kind = some entry ∧ entry.rule = rule := by
  rw [admitted_apply] at h
  cases he : table.find? t.kind with
  | none => rw [he] at h; cases h
  | some entry =>
    refine ⟨entry, rfl, ?_⟩
    simp only [he] at h
    repeat' split at h
    all_goals cases h
    all_goals rfl

theorem visit_gives {rule : Rule σ ε} {t new : Tree} {c : σ}
    (h : (visit rule t c).result = .ok (.replaced new)) :
    ⟨[], .called ⟨.visit, t, c⟩⟩ ∈ (visit rule t c).events ∧
      ∃ c', rule.hooks.answer? ⟨.visit, t, c⟩ = some (.ok (.rewrite (.replaced new)), c') := by
  rw [visit_apply] at h ⊢
  rw [Hooks.answer?]
  cases hv : rule.hooks.visit? with
  | none => rw [hv] at h; cases h
  | some visit =>
    rw [hv] at h
    dsimp only at h ⊢
    refine ⟨List.mem_singleton_self _, (visit t c).2, ?_⟩
    show some ((visit t c).1.map Answer.rewrite, (visit t c).2) = _
    rw [h]
    rfl

/-- Either a node is over its rewritten children, or a tree takes its place; this one is given
by `leave`, or by `visit` if there is no `leave`. -/
theorem leave_gives {rule : Rule σ ε} {t : Tree} {visited below r : Rewrite} {c : σ}
    (h : (leave rule t visited below c).result = .ok r) :
    (r = below ∧ replacements (leave rule t visited below c).events = []) ∨
    ∃ new, r = .replaced new ∧
      replacements (leave rule t visited below c).events = [([], new)] ∧
      (rule.hooks.leave? = none ∧ visited = .replaced new ∨
        ∃ call c', ⟨[], .called call⟩ ∈ (leave rule t visited below c).events ∧
          call.slot = .leave ∧
          rule.hooks.answer? call = some (.ok (.rewrite (.replaced new)), c')) := by
  rw [leave_apply] at h ⊢
  cases hl : rule.hooks.leave? with
  | none =>
    rw [hl] at h
    cases visited with
    | unchanged =>
      cases h
      exact .inl ⟨rfl, rfl⟩
    | replaced new =>
      cases h
      exact .inr ⟨new, rfl, rfl, .inl ⟨rfl, rfl⟩⟩
  | some leave =>
    simp only [hl] at h ⊢
    rcases run : leave (below.resolve t) c with ⟨e | _ | new, c'⟩ <;> rw [run] at h <;> cases h
    · exact .inl ⟨rfl, rfl⟩
    · refine .inr ⟨new, rfl, rfl, .inr ⟨⟨.leave, below.resolve t, c⟩, c', ?_, rfl, ?_⟩⟩
      · exact List.mem_cons_self
      · simp only [Hooks.answer?, hl, Option.map_some, run]
        rfl

/-! ## The end of the walk of a node -/

/-- The walk of a node has come to its end: the children have been walked under the table `table'`,
which left the transcript `kids`, and then the tree `own` took the place of the node, if there is
one. -/
structure Settles (table : Table σ ε) (t : Tree) (r : Rewrite) (events : List (Event σ))
    (table' : Table σ ε) (kids : Transcript σ ε (Option (List Tree))) (own : Option Tree) :
    Prop where
  done : ∃ children, kids.result = .ok children ∧
    r.resolve t = own.getD (t.rebuilt (children.getD t.children))
  contains : kids.events ⊆ events
  listed : replacements events = replacements kids.events ++ own.toList.map ([], ·)
  given : ∀ new, own = some new → ∃ call, ⟨[], .called call⟩ ∈ events ∧ table.Gives call new
  below : ∀ call new, table'.Gives call new → table.Gives call new

/-- **What a walk can do at a node**, if it does not fail. -/
theorem examine_settles {t : Tree} {table : Table σ ε} {c : σ} {r : Rewrite}
    (h : (examine t table c).result = .ok r) :
    ∃ table' c' own, Settles table t r (examine t table c).events table'
      (examineAll t.children table' 0 c') own := by
  obtain ⟨kind, attrs, ts⟩ := t
  rw [examine] at h ⊢
  obtain ⟨rule?, hrule, h, events⟩ := bind_eq_ok h
  have own0 := replacements_eq_nil (admitted_replaces table ⟨kind, attrs, ts⟩ c)
  cases rule? with
  | none =>
    obtain ⟨children, hkids, h, events'⟩ := bind_eq_ok h
    cases h
    refine ⟨table, _, none, ⟨children, hkids, Walk.rebuild_resolve ..⟩, ?_, ?_, nofun,
      fun _ _ => id⟩
    · rw [events, events']
      exact fun e he => List.mem_append_right _ (List.mem_append_left _ he)
    · simp [events, events', own0]
  | some rule =>
    obtain ⟨entry, he, rfl⟩ := admitted_some hrule
    have here : table.hooksAt? [kind] = some entry.rule.hooks := by
      rw [Table.hooksAt?_singleton]
      exact congrArg (Option.map _) he
    obtain ⟨visited, hvisit, h, events'⟩ := bind_eq_ok h
    have visits0 := replacements_eq_nil (visit_replaces entry.rule ⟨kind, attrs, ts⟩
      (admitted table ⟨kind, attrs, ts⟩ c).context)
    obtain ⟨children, hkids, h, events''⟩ := bind_eq_ok h
    have below (call : Call σ) (new : Tree) (gives : entry.rule.table.Gives call new) :
        table.Gives call new := gives.below he
    rw [events, events', events'']
    rcases leave_gives h with ⟨rfl, left⟩ | ⟨new, rfl, left, source⟩
    · refine ⟨entry.rule.table, _, none, ⟨children, hkids, Walk.rebuild_resolve ..⟩, ?_, ?_,
        nofun, below⟩
      · exact fun e he =>
          List.mem_append_right _ (List.mem_append_right _ (List.mem_append_left _ he))
      · simp [own0, visits0, left]
    · refine ⟨entry.rule.table, _, some new, ⟨children, hkids, rfl⟩, ?_, ?_, ?_, below⟩
      · exact fun e he =>
          List.mem_append_right _ (List.mem_append_right _ (List.mem_append_left _ he))
      · simp [own0, visits0, left]
      · rintro _ ⟨⟩
        rcases source with ⟨noLeave, rfl⟩ | ⟨call, c', hcall, hslot, answer⟩
        · obtain ⟨hcall, c', answer⟩ := visit_gives hvisit
          exact ⟨_, List.mem_append_right _ (List.mem_append_left _ hcall), [kind], _, c', here,
            answer, fun _ => noLeave⟩
        · refine ⟨call, List.mem_append_right _ (List.mem_append_right _
            (List.mem_append_right _ hcall)), [kind], _, c', here, answer, fun hv => ?_⟩
          rw [hslot] at hv
          cases hv

end Observed

/-! ## Where replacements stand, and who gave them -/

/-- The replacements of a run stand at some of the positions, in their order, and each is the answer
to a call that the run makes at its position. -/
structure Replaces (table : Table σ ε) (positions : List (List Nat)) (events : List (Event σ)) :
    Prop where
  order : (replacements events).map Prod.fst <+ positions
  given : ∀ position new, (position, new) ∈ replacements events →
    ∃ call, ⟨position, .called call⟩ ∈ events ∧ table.Gives call new

namespace Observed

mutual

/-- **Replacements are what callbacks give.** -/
theorem examine_gives : ∀ (t : Tree) {table : Table σ ε} {c : σ} {r : Rewrite},
    (examine t table c).result = .ok r →
      Replaces table (t.postorder.map Prod.fst) (examine t table c).events
  | ⟨kind, attrs, ts⟩, table, c, r, h => by
    obtain ⟨table', c', own, settles⟩ := examine_settles h
    obtain ⟨children, hkids, -⟩ := settles.done
    obtain ⟨order, given⟩ := examineAll_gives ts hkids
    constructor
    · rw [settles.listed, Tree.postorder, List.map_append, List.map_append]
      refine order.append ?_
      cases own with
      | none => exact List.nil_sublist _
      | some new => exact .refl _
    · intro position new hnew
      rw [settles.listed] at hnew
      rcases List.mem_append.mp hnew with hnew | hnew
      · obtain ⟨call, hcall, gives⟩ := given position new hnew
        exact ⟨call, settles.contains hcall, settles.below call new gives⟩
      · obtain ⟨new', hown, ⟨⟩⟩ := List.mem_map.mp hnew
        exact settles.given new (Option.mem_toList.mp hown)

theorem examineAll_gives : ∀ (ts : List Tree) {table : Table σ ε} {index : Nat} {c : σ}
    {children : Option (List Tree)}, (examineAll ts table index c).result = .ok children →
      Replaces table ((Tree.postorderAll ts index).map Prod.fst)
        (examineAll ts table index c).events
  | [], _, _, _, _, _ => ⟨List.nil_sublist _, nofun⟩
  | t :: rest, table, index, c, children, h => by
    obtain ⟨r, c', tail, hr, htail, events, -⟩ := examineAll_cons h
    obtain ⟨order, given⟩ := examine_gives t hr
    obtain ⟨order', given'⟩ := examineAll_gives rest htail
    rw [events]
    constructor
    · rw [replacements_append, replacements_inside, Tree.postorderAll, List.map_append,
        List.map_append]
      refine .append ?_ order'
      have moved := order.map (index :: ·)
      simpa only [List.map_map, Function.comp_def] using moved
    · intro position new hnew
      rw [replacements_append, replacements_inside] at hnew
      rcases List.mem_append.mp hnew with hnew | hnew
      · obtain ⟨⟨position, _⟩, hnew, ⟨⟩⟩ := List.mem_map.mp hnew
        obtain ⟨call, hcall, gives⟩ := given position new hnew
        exact ⟨call, List.mem_append_left _ (List.mem_map.mpr ⟨_, hcall, rfl⟩), gives⟩
      · obtain ⟨call, hcall, gives⟩ := given' position new hnew
        exact ⟨call, List.mem_append_right _ hcall, gives⟩

end

end Observed

/-! ## The result of a walk -/

/-- The tree that takes the place of the node at a position, if one does. -/
def replacementAt? (events : List (Event σ)) (position : List Nat) : Option Tree :=
  (replacements events).lookup position

theorem replacementAt?_append (events later : List (Event σ)) (position : List Nat) :
    replacementAt? (events ++ later) position
      = (replacementAt? events position).or (replacementAt? later position) := by
  rw [replacementAt?, replacements_append, List.lookup_append, ← replacementAt?, ← replacementAt?]

theorem replacementAt?_inside (events : List (Event σ)) (index i : Nat) (position : List Nat) :
    replacementAt? (events.map (·.inside index)) (i :: position)
      = if i = index then replacementAt? events position else none := by
  rw [replacementAt?, replacements_inside, replacementAt?]
  induction replacements events with
  | nil => simp
  | cons place rest ih =>
    rw [List.map_cons, List.lookup_cons, ih, List.lookup_cons]
    by_cases hi : i = index
    · simp [hi]
    · simp [hi, beq_eq_false_iff_ne.mpr]

/-- The children from the one with the index on have replacements at positions below these only. -/
theorem Replaces.replacementAt?_eq_none {table : Table σ ε} {ts : List Tree} {index : Nat}
    {events : List (Event σ)}
    (h : Replaces table ((Tree.postorderAll ts index).map Prod.fst) events) {position : List Nat}
    (outside : ∀ i below, index ≤ i → position ≠ i :: below) :
    replacementAt? events position = none := by
  refine List.lookup_eq_none_iff.mpr fun place hplace => ?_
  obtain ⟨place', hplace', same⟩ := List.mem_map.mp (h.order.subset (List.mem_map_of_mem hplace))
  obtain ⟨i, below, hle, hp⟩ := Tree.cons_of_mem_postorderAll hplace'
  rw [← same, hp]
  exact bne_iff_ne.mpr (outside i below hle)

namespace Observed

theorem Settles.replacementAt? {table table' : Table σ ε} {t : Tree} {r : Rewrite}
    {events : List (Event σ)} {kids : Transcript σ ε (Option (List Tree))} {own : Option Tree}
    (h : Settles table t r events table' kids own) (position : List Nat) :
    replacementAt? events position
      = (TreeRewrite.replacementAt? kids.events position).or
          (if position = [] then own else none) := by
  rw [TreeRewrite.replacementAt?, h.listed, List.lookup_append, ← TreeRewrite.replacementAt?]
  congr 1
  cases own with
  | none => simp
  | some new => by_cases hp : position = [] <;> simp [hp, List.lookup_cons, beq_eq_false_iff_ne.mpr]

mutual

/-- **The result of a walk is its tree with the replacements put in.** -/
theorem examine_graft : ∀ (t : Tree) {table : Table σ ε} {c : σ} {r : Rewrite},
    (examine t table c).result = .ok r →
      r.resolve t = t.graft (replacementAt? (examine t table c).events)
  | ⟨kind, attrs, ts⟩, table, c, r, h => by
    obtain ⟨table', c', own, settles⟩ := examine_settles h
    obtain ⟨children, hkids, result⟩ := settles.done
    have kids := examineAll_gives ts hkids
    have root : replacementAt? (examine ⟨kind, attrs, ts⟩ table c).events [] = own := by
      rw [settles.replacementAt?, kids.replacementAt?_eq_none ?_, if_pos rfl, Option.none_or]
      exact fun _ _ _ => nofun
    have below : children.getD ts = Tree.graftAll
        (replacementAt? (examine ⟨kind, attrs, ts⟩ table c).events) ts 0 := by
      refine examineAll_graft ts hkids fun i position _ => ?_
      rw [settles.replacementAt?, if_neg (List.cons_ne_nil _ _), Option.or_none]
    rw [result, Tree.graft, root, ← below]
    rfl

theorem examineAll_graft : ∀ (ts : List Tree) {table : Table σ ε} {index : Nat} {c : σ}
    {children : Option (List Tree)} {news : List Nat → Option Tree},
    (examineAll ts table index c).result = .ok children →
      (∀ i position, index ≤ i → news (i :: position)
        = replacementAt? (examineAll ts table index c).events (i :: position)) →
      children.getD ts = Tree.graftAll news ts index
  | [], _, _, _, _, _, h, _ => by
    cases h
    rfl
  | t :: rest, table, index, c, children, news, h, agree => by
    obtain ⟨r, c', tail, hr, htail, events, rfl⟩ := examineAll_cons h
    have later := examineAll_gives rest htail
    simp only [events, replacementAt?_append, replacementAt?_inside] at agree
    have head : replacementAt? (examine t table c).events = fun below => news (index :: below) := by
      funext below
      rw [agree index below (Nat.le_refl _), if_pos rfl, later.replacementAt?_eq_none ?_,
        Option.or_none]
      rintro i _ hle ⟨⟩
      exact Nat.not_succ_le_self _ hle
    have tails : tail.getD rest = Tree.graftAll news rest (index + 1) := by
      refine examineAll_graft rest htail fun i position hle => ?_
      rw [agree i position (Nat.le_of_succ_le hle), if_neg (Nat.ne_of_gt hle), Option.none_or]
    rw [Walk.consChildren_getD, Tree.graftAll, examine_graft t hr, head, tails]

end

end Observed

/-! ## Positions that are kept and positions that are replaced -/

/-- Where no tree takes its place, a node is over as many children. -/
theorem Tree.graft_alike {news : List Nat → Option Tree} (h : news [] = none) (t : Tree) :
    (t.graft news).Alike t := by
  rw [Tree.graft_of_none h]
  exact ⟨rfl, rfl, Tree.length_graftAll ..⟩

/-- What is listed once for a position is what is found for it. -/
theorem replacementAt?_of_mem {events : List (Event σ)}
    (once : ((replacements events).map Prod.fst).Nodup) {position : List Nat} {new : Tree}
    (h : (position, new) ∈ replacements events) : replacementAt? events position = some new := by
  obtain ⟨earlier, later, split⟩ := List.append_of_mem h
  refine List.lookup_eq_some_iff.mpr ⟨earlier, later, split, fun place hplace => ?_⟩
  rw [split, List.map_append, List.nodup_append] at once
  have other := once.2.2 place.1 (List.mem_map_of_mem hplace) position List.mem_cons_self
  exact bne_iff_ne.mpr other.symm

theorem replacementAt?_eq_none {events : List (Event σ)} {position : List Nat} :
    replacementAt? events position = none ↔ ∀ new, (position, new) ∉ replacements events := by
  rw [replacementAt?, List.lookup_eq_none_iff]
  constructor
  · intro none new hnew
    exact bne_iff_ne.mp (none _ hnew) rfl
  · rintro none ⟨position', new⟩ hnew
    refine bne_iff_ne.mpr ?_
    rintro rfl
    exact none new hnew

theorem Replaces.nodup {table : Table σ ε} {t : Tree} {events : List (Event σ)}
    (h : Replaces table (t.postorder.map Prod.fst) events) :
    ((replacements events).map Prod.fst).Nodup := by
  rw [← t.tour_up] at h
  exact (t.nodup_positionsFor .leave).sublist h.order

/-! ## A rewrite in a session -/

namespace Session

/-- A rewrite that does not fail puts its replacements in the places of nodes. -/
theorem rewrite_graft {session after : Session σ} {table : Table σ ε} {t t' : Tree}
    (h : session.rewrite table t = (.ok t', after)) :
    let events := (session.transcript table t).events
    t' = t.graft (replacementAt? events) ∧ after.stats = session.stats + tally events ∧
      Replaces table (t.postorder.map Prod.fst) events := by
  intro events
  rw [rewrite_eq] at h
  obtain ⟨result, rfl⟩ := Prod.mk.inj h
  cases hr : (session.transcript table t).result with
  | error e =>
    rw [hr] at result
    cases result
  | ok r =>
    rw [hr] at result
    exact ⟨(Except.ok.inj result).symm.trans (Observed.examine_graft t hr), rfl,
      Observed.examine_gives t hr⟩

/-- **What a rewrite makes of each position.**  As many trees take the places of nodes as are
counted, at most one at a position, and each is what a callback answered when it was called on the
node at its position.  A node that has none of them at its position or above it is found at the same
position, with its kind, its attributes and the number of its children; and wherever there is none
above, the tree that takes the place of the node is found. -/
theorem rewrite_frame (session after : Session σ) (table : Table σ ε) (t t' : Tree)
    (h : session.rewrite table t = (.ok t', after)) :
    let events := (session.transcript table t).events
    let news := replacements events
    TreeRewrite.calls events = session.calls table t ∧
    after.stats.replaced = session.stats.replaced + news.length ∧
    (news.map Prod.fst).Nodup ∧
    (∀ position new, (position, new) ∈ news →
      ∃ s call, t.at? position = some s ∧ ⟨position, .called call⟩ ∈ events ∧ call.Hands s ∧
        table.Gives call new) ∧
    (∀ position s, t.at? position = some s →
      (∀ above new, above <+: position → (above, new) ∉ news) →
        ∃ s', t'.at? position = some s' ∧ s'.Alike s) ∧
    ∀ position new, (position, new) ∈ news →
      (∀ above new', above <+: position → (above, new') ∈ news → above = position) →
        t'.at? position = some new := by
  intro events news
  obtain ⟨rfl, stats, gives⟩ := rewrite_graft h
  have given : ∀ position new, (position, new) ∈ news →
      ∃ s call, t.at? position = some s ∧ ⟨position, .called call⟩ ∈ events ∧ call.Hands s ∧
        table.Gives call new := by
    intro position new hnew
    obtain ⟨call, hcall, answer⟩ := gives.given position new hnew
    obtain ⟨s, hs, hands⟩ := (session.transcript_keepsTo table t).nodes _ hcall call rfl
    exact ⟨s, call, Tree.mem_preorder.mp hs, hcall, hands, answer⟩
  refine ⟨(session.calls_eq table t).symm, ?_, gives.nodup, given, ?_, ?_⟩
  · rw [stats, length_replacements]
    rfl
  · intro position s hs none
    have unreplaced (above) (habove : above <+: position) : replacementAt? events above = .none :=
      replacementAt?_eq_none.mpr fun new => none above new habove
    rw [Tree.at?_graft fun above habove _ => unreplaced above habove, hs]
    refine ⟨_, rfl, Tree.graft_alike ?_ s⟩
    rw [List.append_nil]
    exact unreplaced position List.prefix_rfl
  · intro position new hnew topmost
    obtain ⟨s, -, hs, -⟩ := given position new hnew
    rw [Tree.at?_graft ?_, hs]
    · refine congrArg some (Tree.graft_of_some ?_)
      rw [List.append_nil]
      exact replacementAt?_of_mem gives.nodup hnew
    · intro above habove hne
      refine replacementAt?_eq_none.mpr fun new' hnew' => hne ?_
      exact topmost above new' habove hnew'

/-- The replacement of a node of kind 1 is dropped by its `leave`.  Below it, and below nodes of
kind 5 that are there, nodes of kind 2 are replaced; nodes of kind 5 are replaced themselves. -/
def nesting : Table Unit Empty :=
  let inner : Entry Unit Empty :=
    .mk ⟨2⟩ "" (.matched { leave? := some fun _ => return .replaced (.leaf ⟨3⟩) } .empty)
  .mk [.mk ⟨1⟩ "" (.matched
    { visit? := some fun _ => return .replaced (.leaf ⟨4⟩)
      leave? := some fun _ => return .unchanged }
    (.mk [inner, .mk ⟨5⟩ "" (.matched
      { visit? := some fun _ => return .replaced (.leaf ⟨6⟩) } (.mk [inner] []))] []))] []

/-- A node over one that is replaced, one that is replaced above another, and one that is kept. -/
def nested : Tree := ⟨⟨1⟩, [], [.leaf ⟨2⟩, ⟨⟨5⟩, [], [.leaf ⟨2⟩]⟩, .leaf ⟨7⟩]⟩

theorem rewrite_frame_nesting :
    ({ context := () } : Session Unit).rewrite nesting nested
      = (.ok ⟨⟨1⟩, [], [.leaf ⟨3⟩, .leaf ⟨6⟩, .leaf ⟨7⟩]⟩,
        { context := (), stats := { visited := 5, matched := 4, replaced := 3 } }) ∧
    replacements (({ context := () } : Session Unit).transcript nesting nested).events
      = [([0], .leaf ⟨3⟩), ([1, 0], .leaf ⟨3⟩), ([1], .leaf ⟨6⟩)] ∧
    Tree.at? ⟨⟨1⟩, [], [.leaf ⟨3⟩, .leaf ⟨6⟩, .leaf ⟨7⟩]⟩ [1] = some (.leaf ⟨6⟩) := by
  have listed :
      replacements (({ context := () } : Session Unit).transcript nesting nested).events
        = [([0], .leaf ⟨3⟩), ([1, 0], .leaf ⟨3⟩), ([1], .leaf ⟨6⟩)] := rfl
  have frame := rewrite_frame { context := () }
    { context := (), stats := { visited := 5, matched := 4, replaced := 3 } } nesting nested
    ⟨⟨1⟩, [], [.leaf ⟨3⟩, .leaf ⟨6⟩, .leaf ⟨7⟩]⟩ rfl
  refine ⟨rfl, listed, frame.2.2.2.2.2 [1] (.leaf ⟨6⟩) ?_ ?_⟩
  · simp [listed]
  · intro above new' habove hnew
    simp only [listed, List.mem_cons, Prod.mk.injEq, List.not_mem_nil, or_false] at hnew
    rcases hnew with ⟨rfl, -⟩ | ⟨rfl, -⟩ | ⟨rfl, -⟩
    · exact absurd habove (by decide)
    · exact absurd habove (by decide)
    · rfl

end Session

end TreeRewrite
