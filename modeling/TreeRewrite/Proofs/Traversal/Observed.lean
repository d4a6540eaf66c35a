import TreeRewrite.Proofs.Traversal.Events
import TreeRewrite.Proofs.Tree.Positions

/-!
# Walks under observation

`Walk.examine` says what a walk leaves behind: a result, a context, and counters.  Here the same
walk also leaves the list of what it did on its way.  An observed walk needs no counters, for the
events add up to them, and so it depends on nothing but the context it starts from.  That it is the
same walk is proved in `TreeRewrite.Proofs.Traversal.Recorder`, for the counters and for the calls
of callbacks alike.

## What is here

* `Transcript` — the result, the context and the events of a run; `Observed` — what gives a
  transcript from a context.  Observed walks are put together as walks are: after a failure nothing
  happens any more, and the events before it are kept.
* `Observed.examine`, `Observed.examineAll` — the observed walk of a tree and of the children of a
  node, built from `Observed.admitted`, `Observed.visit` and `Observed.leave` as the walk is.
* `Observed.Ensures` — a property of all transcripts, whatever the context at the start;
  `Observed.Ensures.bind` proves it part by part.
* `Observed.examine_at` — a walk that comes to its end contains the walk of every tree in its tree.
-/

set_option autoImplicit false

namespace TreeRewrite

variable {σ ε α β : Type}

/-! ## Transcripts -/

/-- What a run gives: its result, the context that is left, and what happened. -/
structure Transcript (σ ε α : Type) where
  result : Except ε α
  context : σ
  events : List (Event σ)

/-- The transcript of a run in which the events came first. -/
def Transcript.after (earlier : List (Event σ)) (run : Transcript σ ε α) : Transcript σ ε α :=
  { run with events := earlier ++ run.events }

@[simp] theorem Transcript.result_after (earlier : List (Event σ)) (run : Transcript σ ε α) :
    (run.after earlier).result = run.result := rfl

@[simp] theorem Transcript.context_after (earlier : List (Event σ)) (run : Transcript σ ε α) :
    (run.after earlier).context = run.context := rfl

@[simp] theorem Transcript.events_after (earlier : List (Event σ)) (run : Transcript σ ε α) :
    (run.after earlier).events = earlier ++ run.events := rfl

theorem Transcript.after_append (earlier later : List (Event σ)) (run : Transcript σ ε α) :
    run.after (earlier ++ later) = (run.after later).after earlier := by
  simp only [Transcript.after, List.append_assoc]

/-- A part of a walk under observation. -/
def Observed (σ ε α : Type) : Type := σ → Transcript σ ε α

namespace Observed

/-- One part after the other; the second is left out if the first fails. -/
protected def bind (o : Observed σ ε α) (next : α → Observed σ ε β) : Observed σ ε β := fun c =>
  match o c with
  | ⟨.error e, c', events⟩ => ⟨.error e, c', events⟩
  | ⟨.ok a, c', events⟩ => (next a c').after events

instance : Monad (Observed σ ε) where
  pure a := fun c => ⟨.ok a, c, []⟩
  bind := Observed.bind

/-! ## The parts of a walk -/

/-- Something happens at the node. -/
def note (deed : Deed σ) : Observed σ ε Unit := fun c => ⟨.ok (), c, [⟨[], deed⟩]⟩

/-- A callback is called on a node. -/
def call (slot : Slot) (callback : Tree → Action σ ε α) (given : Tree) : Observed σ ε α := fun c =>
  let (result, c') := callback given c
  ⟨result, c', [⟨[], .called ⟨slot, given, c⟩⟩]⟩

/-- What happens in a child, seen from the parent. -/
def inside (index : Nat) (o : Observed σ ε α) : Observed σ ε α := fun c =>
  { o c with events := (o c).events.map (·.inside index) }

/-- The rule that applies at a node, if any. -/
def admitted (table : Table σ ε) (t : Tree) : Observed σ ε (Option (Rule σ ε)) := do
  note .examined
  match table.find? t.kind with
  | none => return none
  | some entry =>
    let accepted ← match entry.rule.hooks.filter? with
      | none => pure true
      | some filter => call .filter filter t
    if accepted then
      note (.matched t)
      return some entry.rule
    else
      note .rejected
      return none

/-- Calls `visit`, if the rule has one. -/
def visit (rule : Rule σ ε) (t : Tree) : Observed σ ε Rewrite :=
  match rule.hooks.visit? with
  | none => return .unchanged
  | some visit => call .visit visit t

/-- The result at a matched node, from what `visit` gave and the rewrite of the children. -/
def leave (rule : Rule σ ε) (t : Tree) (visited below : Rewrite) : Observed σ ε Rewrite := do
  let verdict ← match rule.hooks.leave? with
    | none => pure visited
    | some leave => call .leave leave (below.resolve t)
  match verdict with
  | .unchanged => return below
  | .replaced t' =>
    note (.replaced t')
    return .replaced t'

mutual

/-- Rewrites a tree under the table in force at its root. -/
def examine : Tree → Table σ ε → Observed σ ε Rewrite
  | ⟨kind, attrs, children⟩, table => do
    let t : Tree := ⟨kind, attrs, children⟩
    match ← admitted table t with
    | none => return Walk.rebuild t (← examineAll children table 0)
    | some rule =>
      let visited ← visit rule t
      let below := Walk.rebuild t (← examineAll children rule.table 0)
      leave rule t visited below

/-- Rewrites the children of a node from the one with the index on. -/
def examineAll : List Tree → Table σ ε → Nat → Observed σ ε (Option (List Tree))
  | [], _, _ => return none
  | t :: rest, table, index => do
    let head ← inside index (examine t table)
    let tail ← examineAll rest table (index + 1)
    return Walk.consChildren t rest head tail

end

/-! ## The transcripts of the parts -/

@[simp] theorem pure_apply (a : α) (c : σ) : (pure a : Observed σ ε α) c = ⟨.ok a, c, []⟩ := rfl

theorem admitted_apply (table : Table σ ε) (t : Tree) (c : σ) :
    admitted table t c
      = match table.find? t.kind with
        | none => ⟨.ok none, c, [⟨[], .examined⟩]⟩
        | some entry =>
          match entry.rule.hooks.filter? with
          | none => ⟨.ok (some entry.rule), c, [⟨[], .examined⟩, ⟨[], .matched t⟩]⟩
          | some filter =>
            match filter t c with
            | (.error e, c') => ⟨.error e, c', [⟨[], .examined⟩, ⟨[], .called ⟨.filter, t, c⟩⟩]⟩
            | (.ok true, c') =>
              ⟨.ok (some entry.rule), c',
                [⟨[], .examined⟩, ⟨[], .called ⟨.filter, t, c⟩⟩, ⟨[], .matched t⟩]⟩
            | (.ok false, c') =>
              ⟨.ok none, c',
                [⟨[], .examined⟩, ⟨[], .called ⟨.filter, t, c⟩⟩, ⟨[], .rejected⟩]⟩ := by
  rw [admitted]
  cases table.find? t.kind with
  | none => rfl
  | some entry =>
    cases hf : entry.rule.hooks.filter? with
    | none => simp only [hf]; rfl
    | some filter =>
      simp only [hf, bind, Observed.bind, note, call]
      rcases filter t c with ⟨_ | _ | _, c'⟩ <;> rfl

theorem visit_apply (rule : Rule σ ε) (t : Tree) (c : σ) :
    visit rule t c
      = match rule.hooks.visit? with
        | none => ⟨.ok .unchanged, c, []⟩
        | some visit => ⟨(visit t c).1, (visit t c).2, [⟨[], .called ⟨.visit, t, c⟩⟩]⟩ := by
  rw [visit]
  cases rule.hooks.visit? <;> rfl

theorem leave_apply (rule : Rule σ ε) (t : Tree) (visited below : Rewrite) (c : σ) :
    leave rule t visited below c
      = match rule.hooks.leave? with
        | none =>
          match visited with
          | .unchanged => ⟨.ok below, c, []⟩
          | .replaced t' => ⟨.ok (.replaced t'), c, [⟨[], .replaced t'⟩]⟩
        | some leave =>
          match leave (below.resolve t) c with
          | (.error e, c') => ⟨.error e, c', [⟨[], .called ⟨.leave, below.resolve t, c⟩⟩]⟩
          | (.ok .unchanged, c') => ⟨.ok below, c', [⟨[], .called ⟨.leave, below.resolve t, c⟩⟩]⟩
          | (.ok (.replaced t'), c') =>
            ⟨.ok (.replaced t'), c',
              [⟨[], .called ⟨.leave, below.resolve t, c⟩⟩, ⟨[], .replaced t'⟩]⟩ := by
  rw [leave]
  cases rule.hooks.leave? with
  | none => cases visited <;> rfl
  | some leave =>
    simp only [bind, Observed.bind, call]
    rcases leave (below.resolve t) c with ⟨_ | _ | _, c'⟩ <;> rfl

/-! ## Properties of all transcripts -/

/-- Whatever context the part starts from, its transcript is as said. -/
def Ensures (o : Observed σ ε α) (post : Transcript σ ε α → Prop) : Prop := ∀ c, post (o c)

theorem Ensures.mono {o : Observed σ ε α} {p q : Transcript σ ε α → Prop} (h : o.Ensures p)
    (hpq : ∀ run, p run → q run) : o.Ensures q := fun c => hpq _ (h c)

theorem ensures_pure {a : α} {post : Transcript σ ε α → Prop} (h : ∀ c, post ⟨.ok a, c, []⟩) :
    (pure a : Observed σ ε α).Ensures post := h

theorem ensures_inside {index : Nat} {o : Observed σ ε α} {p q : Transcript σ ε α → Prop}
    (h : o.Ensures p)
    (hpq : ∀ r c events, p ⟨r, c, events⟩ → q ⟨r, c, events.map (·.inside index)⟩) :
    (inside index o).Ensures q := fun c => hpq _ _ _ (h c)

/-- **Two parts in a row**: what the first ensures is carried to the end if it fails, and to the
second part otherwise. -/
theorem Ensures.bind {o : Observed σ ε α} {next : α → Observed σ ε β}
    {p : Transcript σ ε α → Prop} {q : Transcript σ ε β → Prop} (first : o.Ensures p)
    (failed : ∀ e c events, p ⟨.error e, c, events⟩ → q ⟨.error e, c, events⟩)
    (done : ∀ a c events, p ⟨.ok a, c, events⟩ → (next a).Ensures fun run => q (run.after events)) :
    (o >>= next).Ensures q := by
  intro c
  show q (o.bind next c)
  have h := first c
  rw [Observed.bind]
  rcases ho : o c with ⟨e | a, c', events⟩
  · exact failed e c' events (ho ▸ h)
  · exact done a c' events (ho ▸ h) c'

/-! ## Runs that come to their end -/

/-- A part that comes to its end is followed by the next. -/
theorem bind_of_ok {o : Observed σ ε α} {c c' : σ} {a : α} {events : List (Event σ)}
    (h : o c = ⟨.ok a, c', events⟩) (next : α → Observed σ ε β) :
    (o >>= next) c = (next a c').after events := by
  show o.bind next c = _
  rw [Observed.bind, h]

theorem inside_of_eq {o : Observed σ ε α} {c c' : σ} {result : Except ε α}
    {events : List (Event σ)} (h : o c = ⟨result, c', events⟩) (index : Nat) :
    inside index o c = ⟨result, c', events.map (·.inside index)⟩ := by
  rw [inside, h]

/-- After a part that fails nothing happens any more. -/
theorem bind_of_error {o : Observed σ ε α} {c c' : σ} {e : ε} {events : List (Event σ)}
    (h : o c = ⟨.error e, c', events⟩) (next : α → Observed σ ε β) :
    (o >>= next) c = ⟨.error e, c', events⟩ := by
  show o.bind next c = _
  rw [Observed.bind, h]

theorem bind_eq_ok {o : Observed σ ε α} {next : α → Observed σ ε β} {c : σ} {b : β}
    (h : ((o >>= next) c).result = .ok b) :
    ∃ a, (o c).result = .ok a ∧ (next a (o c).context).result = .ok b ∧
      ((o >>= next) c).events = (o c).events ++ (next a (o c).context).events := by
  change (o.bind next c).result = _ at h
  show ∃ a, _ ∧ _ ∧ (o.bind next c).events = _
  rw [Observed.bind] at h ⊢
  rcases ho : o c with ⟨e | a, c', events⟩
  · rw [ho] at h
    cases h
  · rw [ho] at h
    exact ⟨a, rfl, h, rfl⟩

/-- The walk of a node contains the walk of its children. -/
theorem examine_children {t : Tree} {table : Table σ ε} {c : σ} {r : Rewrite}
    (h : (examine t table c).result = .ok r) :
    ∃ (table' : Table σ ε) (c' : σ) (children : Option (List Tree)),
      (examineAll t.children table' 0 c').result = .ok children ∧
      (examineAll t.children table' 0 c').events <:+: (examine t table c).events := by
  obtain ⟨kind, attrs, ts⟩ := t
  rw [examine] at h ⊢
  obtain ⟨rule?, -, h, events⟩ := bind_eq_ok h
  rw [events]
  cases rule? with
  | none =>
    obtain ⟨children, hkids, -, events⟩ := bind_eq_ok h
    refine ⟨_, _, children, hkids, ?_⟩
    rw [events]
    exact (List.prefix_append _ _).isInfix.trans (List.suffix_append _ _).isInfix
  | some rule =>
    obtain ⟨visited, -, h, events'⟩ := bind_eq_ok h
    obtain ⟨children, hkids, -, events''⟩ := bind_eq_ok h
    refine ⟨_, _, children, hkids, ?_⟩
    rw [events', events'']
    exact (List.prefix_append _ _).isInfix.trans
      ((List.suffix_append _ _).isInfix.trans (List.suffix_append _ _).isInfix)

/-- The walk of several trees is the walk of the first of them and then the walk of the others. -/
theorem examineAll_cons {t : Tree} {rest : List Tree} {table : Table σ ε} {index : Nat} {c : σ}
    {children : Option (List Tree)}
    (h : (examineAll (t :: rest) table index c).result = .ok children) :
    ∃ r c' tail, (examine t table c).result = .ok r ∧
      (examineAll rest table (index + 1) c').result = .ok tail ∧
      (examineAll (t :: rest) table index c).events
        = (examine t table c).events.map (·.inside index)
          ++ (examineAll rest table (index + 1) c').events ∧
      Walk.consChildren t rest r tail = children := by
  rw [examineAll] at h ⊢
  obtain ⟨r, hr, h, events⟩ := bind_eq_ok h
  obtain ⟨tail, htail, h, events'⟩ := bind_eq_ok h
  refine ⟨r, _, tail, hr, htail, ?_, Except.ok.inj h⟩
  rw [events, events', pure_apply, List.append_nil]
  rfl

/-- The walk of several trees contains the walk of each. -/
theorem examineAll_child {ts : List Tree} {table : Table σ ε} {index : Nat} {c : σ}
    {children : Option (List Tree)} (h : (examineAll ts table index c).result = .ok children)
    {i : Nat} {child : Tree} (hi : ts[i]? = some child) :
    ∃ c' r, (examine child table c').result = .ok r ∧
      (examine child table c').events.map (·.inside (index + i))
        <:+: (examineAll ts table index c).events := by
  induction ts generalizing index c children i with
  | nil => cases hi
  | cons t rest ih =>
    obtain ⟨r, c', tail, hr, htail, events, -⟩ := examineAll_cons h
    rw [events]
    cases i with
    | zero =>
      cases hi
      exact ⟨c, r, hr, (List.prefix_append _ _).isInfix⟩
    | succ i =>
      obtain ⟨c'', r', hr', inner⟩ := ih htail (by simpa using hi)
      refine ⟨c'', r', hr', ?_⟩
      rw [Nat.add_right_comm] at inner
      exact inner.trans (List.suffix_append _ _).isInfix

/-- **The walk of a tree contains the walk of every tree in it**, at the position of that tree. -/
theorem examine_at {t s : Tree} {table : Table σ ε} {c : σ} {r : Rewrite}
    (h : (examine t table c).result = .ok r) {position : List Nat} (hs : t.at? position = some s) :
    ∃ (table' : Table σ ε) (c' : σ) (r' : Rewrite), (examine s table' c').result = .ok r' ∧
      (examine s table' c').events.map (·.under position) <:+: (examine t table c).events := by
  induction position generalizing t table c r with
  | nil =>
    cases hs
    refine ⟨table, c, r, h, ?_⟩
    simp only [Event.under_nil, List.map_id']
    exact List.infix_rfl
  | cons i position ih =>
    obtain ⟨child, hi, hs⟩ := Tree.at?_cons_eq_some.mp hs
    obtain ⟨table', c', children, hall, outer⟩ := examine_children h
    obtain ⟨c'', r', hr', middle⟩ := examineAll_child hall hi
    obtain ⟨table'', c''', r'', hr'', inner⟩ := ih hr' hs
    refine ⟨table'', c''', r'', hr'', ?_⟩
    have moved := inner.map (·.inside i)
    simp only [List.map_map, Function.comp_def, Event.inside_under] at moved
    rw [Nat.zero_add] at middle
    exact moved.trans (middle.trans outer)

end Observed

end TreeRewrite
