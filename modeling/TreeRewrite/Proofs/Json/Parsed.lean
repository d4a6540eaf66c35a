import TreeRewrite.Json.Reader
import TreeRewrite.Proofs.Json.Canonical
import TreeRewrite.Proofs.Results

/-!
# What is read is canonical

Whatever text a reader is given, the values that it gives are canonical: a whole number that does
not fit into 64 bits is read as a float, and the members of an object are put in order as they come.

## What is here

* `Reader.Yields` — all results of a reader have a property, with the rules for readers that run one
  after the other.
* `Reader.elements_yields`, `Reader.members_yields` — the loops over arrays and objects.
* `Reader.value_yields`, `Json.canonical_of_parse` — **the values that are read are canonical**.
-/

set_option autoImplicit false

namespace TreeRewrite

variable {α β σ : Type}

namespace Json.Reader

/-- Has whatever a reader gives the property? -/
def Yields (reader : Reader α) (P : α → Prop) : Prop :=
  ∀ s x rest, reader.run s = .ok (x, rest) → P x

variable {reader : Reader α} {next : α → Reader β} {P : α → Prop} {Q : β → Prop}

theorem yields_any (reader : Reader α) : reader.Yields fun _ => True := fun _ _ _ _ => trivial

theorem yields_pure {x : α} (h : P x) : (pure x : Reader α).Yields P := by
  rintro s x' rest ⟨⟩
  exact h

theorem yields_throw (fault : Fault) : (throw fault : Reader α).Yields P := by
  rintro s x rest ⟨⟩

theorem yields_bind (first : reader.Yields P) (second : ∀ x, P x → (next x).Yields Q) :
    (reader >>= next).Yields Q := by
  intro s y rest h
  rw [StateT.run_bind] at h
  obtain ⟨p, run_p, h⟩ := bind_eq_ok.1 h
  exact second p.1 (first s p.1 p.2 run_p) p.2 y rest h

/-- A reader whose result does not matter may run first. -/
theorem yields_after (second : ∀ x, (next x).Yields Q) : (reader >>= next).Yields Q :=
  yields_bind (yields_any reader) fun x _ => second x

theorem yields_throw_bind (fault : Fault) : ((throw fault : Reader α) >>= next).Yields Q :=
  yields_bind (P := fun _ => False) (yields_throw fault) fun _ h => h.elim

/-- Whichever of two readers runs first, the rest goes on from what they have in common. -/
theorem yields_ite_bind {c : Bool} {other : Reader α} (yes : reader.Yields P) (no : other.Yields P)
    (second : ∀ x, P x → (next x).Yields Q) :
    (if c = true then reader >>= next else other >>= next).Yields Q := by
  cases c
  · exact yields_bind no second
  · exact yields_bind yes second

/-! ## Loops -/

theorem elements_yields {item : Reader α} (each : item.Yields P) (fuel : Nat) (first : Bool) :
    (elements item fuel first).Yields fun xs => ∀ x ∈ xs, P x := by
  induction fuel generalizing first with
  | zero => exact yields_throw _
  | succ fuel ih =>
    rw [elements]
    refine yields_after fun more => ?_
    cases more with
    | false => exact yields_after fun _ => yields_pure (by simp)
    | true =>
      exact yields_bind each fun x hx => yields_bind (ih false) fun xs hxs =>
        yields_pure (List.forall_mem_cons.2 ⟨hx, hxs⟩)

/-- What each member keeps, all members of an object keep. -/
theorem members_yields {member : σ → String → Reader σ} {I : σ → Prop} (strict : Bool)
    (each : ∀ x key, I x → (member x key).Yields I) (fuel : Nat) (first : Bool) {x : σ} (h : I x) :
    (members strict member fuel first x).Yields I := by
  induction fuel generalizing first x with
  | zero => exact yields_throw _
  | succ fuel ih =>
    rw [members]
    refine yields_after fun more => ?_
    cases more with
    | false => exact yields_after fun _ => yields_pure h
    | true =>
      exact yields_after fun key => yields_bind (each x key h) fun x' hx' => ih false hx'

/-! ## Values -/

theorem int?_range {n : Numeral} {i : Int} (h : n.int? = some i) : InRange i := by
  rw [Numeral.int?] at h
  simp only [UInt64.size] at h
  simp only [InRange, UInt64.size]
  split at h
  · cases h
  · split at h <;> split at h <;> cases h <;> omega

theorem number_yields : (number true).Yields Canonical := by
  rw [number, if_pos rfl]
  refine yields_after fun n => ?_
  split
  · next v h =>
    refine yields_pure ?_
    rw [Numeral.value?] at h
    split at h
    · next i int =>
      cases h
      exact int?_range int
    · obtain ⟨x, -, rfl⟩ := Option.map_eq_some_iff.1 h
      trivial
  · exact yields_throw _

theorem scalar_yields (c : Char) : (scalar true c).Yields Canonical := by
  unfold scalar
  split
  · exact yields_after fun _ => yields_after fun _ => yields_pure trivial
  · exact yields_after fun _ => yields_pure trivial
  · exact yields_after fun _ => yields_pure trivial
  · exact yields_after fun _ => yields_pure trivial
  · split
    · exact number_yields
    · exact yields_throw _

/-- **What is read is canonical.** -/
theorem value_yields (fuel : Nat) : (value true fuel).Yields Canonical := by
  induction fuel with
  | zero => exact yields_throw _
  | succ fuel ih =>
    rw [value]
    refine yields_after fun c => ?_
    split
    · exact yields_throw _
    · exact yields_after fun _ => yields_bind (elements_yields ih fuel true) fun items h =>
        yields_pure (canonical_arr.2 h)
    · refine yields_after fun _ => ?_
      refine yields_bind (P := fun fields => (obj fields).Canonical)
        (members_yields true (fun fields key h => ?_) fuel true ?_) fun fields h => yields_pure h
      · exact yields_after fun _ => yields_bind ih fun v hv => yields_pure (canonical_insert h hv)
      · exact canonical_empty
    · exact scalar_yields _

/-- What is refused gives no result. -/
theorem mismatch_yields (expected : String) : (mismatch expected : Reader α).Yields P := by
  rw [mismatch]
  refine yields_after fun c => ?_
  split
  · exact yields_throw _
  · exact yields_throw _
  · exact yields_throw _
  · exact yields_after fun _ => yields_throw _

theorem runAll_yields {reader : Nat → Reader α} (h : ∀ fuel, (reader fuel).Yields P) {s : String}
    {x : α} (read : runAll reader s = .ok x) : P x := by
  have yields : (do let x ← reader (s.toList.length + 1); finish; return x : Reader α).Yields P :=
    yields_bind (h _) fun x hx => yields_after fun _ => yields_pure hx
  rw [runAll, StateT.run'_eq, map_eq_pure_bind, bind_eq_ok] at read
  obtain ⟨⟨y, rest⟩, run_y, ⟨⟩⟩ := read
  exact yields _ _ _ run_y

end Json.Reader

/-- Every text that is parsed gives a canonical value. -/
theorem Json.canonical_of_parse {s : String} {v : Json} (h : parse s = .ok v) : v.Canonical :=
  Reader.runAll_yields Reader.value_yields h

end TreeRewrite
