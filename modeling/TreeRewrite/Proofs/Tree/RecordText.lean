import TreeRewrite.Proofs.Json.Parsed
import TreeRewrite.Proofs.Json.Printed
import TreeRewrite.Proofs.Tree.Records

/-!
# Records and texts

A record can be read while its text is read, without the value in between.  The two ways agree: if a
value is a record, its text is read as that record, and what is read from any text is canonical.

## What is here

* `NodeRecord.reader_takes` — **the text of a value that is a record is read as the record**;
  `NodeRecord.memberReader_takes` and `NodeRecord.arrayReader_takes` are its steps for the two
  written forms.
* `NodeRecord.read_pretty`, `NodeRecord.read_pretty_line` — the same for whole texts, and for texts
  with the end of a line behind them.
* `NodeRecord.canonical_of_read` — whatever is read has canonical attributes.
-/

set_option autoImplicit false

namespace TreeRewrite.NodeRecord

open Json (Reader Spacing)
open Json.Reader (Blank blank_nil run_bind_ok run_skip_bind token_blank_cons moreItems_end
  item_takes length_renderItems_lt takesMember_colon mismatch_yields yields_after yields_bind
  yields_ite_bind yields_pure yields_throw yields_throw_bind)

section Printed

variable {spacing : Spacing} {node : Reader NodeRecord} {fuel : Nat}

/-! ## Parts of a record -/

theorem kindReader_takes (spacing : Spacing) (bound : Nat) (name : String) :
    kindReader.Takes spacing bound (.str name) (· = name) := by
  intro depth gaps tail blank apart below
  refine ⟨name, ?_, rfl⟩
  rw [Json.render, Json.Reader.stringText_append, kindReader,
    run_bind_ok (token_blank_cons blank rfl), if_pos rfl, run_skip_bind,
    Json.Reader.string_stringText]

theorem attrsReader_takes (loose : spacing.Loose) (fuel : Nat) {attrs : Fields}
    (float_free : (Json.obj attrs).FloatFree) (canonical : (Json.obj attrs).Canonical) :
    (attrsReader fuel).Takes spacing fuel (.obj attrs) (· = attrs) := by
  intro depth gaps tail blank apart below
  refine ⟨attrs, ?_, rfl⟩
  obtain ⟨v, run_v, hv⟩ := Json.Reader.value_takes loose true fuel (.obj attrs) float_free
    (fun _ => canonical) depth [] tail blank_nil apart below
  obtain ⟨gaps', -, eq⟩ := Json.Reader.render_obj loose depth attrs tail
  rw [List.nil_append, eq, hv rfl] at run_v
  rw [eq, attrsReader, run_bind_ok (token_blank_cons blank rfl), if_pos rfl, run_bind_ok run_v]
  rfl

/-- Does the reader take every value that is a record which can be held? -/
def TakesRecords (node : Reader NodeRecord) (spacing : Spacing) (bound : Nat) : Prop :=
  ∀ v r, ofJson v = .ok r → v.FloatFree → r.Canonical → node.Takes spacing bound v (· = r)

theorem childrenReader_takes (loose : spacing.Loose) (each : TakesRecords node spacing fuel)
    {items : List Json} {nodes : List NodeRecord} (h : ofItems items = .ok nodes)
    (float_free : (Json.arr items).FloatFree) (canonical : ∀ r ∈ nodes, r.Canonical) :
    (childrenReader node fuel).Takes spacing fuel (.arr items) (· = nodes) := by
  have taken : ∀ v ∈ items, v.NotFloat ∧ node.Takes spacing fuel v fun r => ofJson v = .ok r := by
    intro v hv
    have free := (Json.every_arr.1 float_free).2 v hv
    obtain ⟨r, hr, eq⟩ := exists_of_mem_forall₂ (ofItems_eq_ok.1 h) hv
    exact ⟨free.self, (each v r eq free (canonical r hr)).imp fun x hx => hx ▸ eq⟩
  intro depth gaps tail blank apart below
  obtain ⟨gaps', blank', eq⟩ := Json.Reader.render_arr loose depth items tail
  rw [eq, List.length_cons] at below
  obtain ⟨nodes', run_nodes, hnodes⟩ :=
    Json.Reader.elements_takes (s := tail) loose taken blank' (depth + 1) fuel true (by omega)
  refine ⟨nodes', ?_, Except.ok.inj ((ofItems_eq_ok.2 hnodes).symm.trans h)⟩
  rw [eq, childrenReader, run_bind_ok (token_blank_cons blank rfl), if_pos rfl, run_skip_bind,
    run_nodes]

/-! ## Records written as objects -/

/-- What is no mismatch is passed on. -/
theorem refuse_ok {α : Type} {result : Except Json.Mismatch α} {x : α} (h : result = .ok x) :
    (refuse result : Reader α) = pure x := by
  rw [h]
  rfl

/-- A member in the text of a record makes of a draft what the value of the member makes of it. -/
theorem memberReader_takes (loose : spacing.Loose) (each : TakesRecords node spacing fuel)
    {draft next : Draft} {key : String} {v : Json} (claim : draft.claim key = .ok ())
    (filled : Filled draft key v next) (float_free : v.FloatFree)
    (canonical : next.EveryAttrs fun attrs => (Json.obj attrs).Canonical) :
    (memberReader node fuel draft key).TakesMember spacing fuel v (· = next) := by
  have accepted := refuse_ok claim
  cases filled with
  | kind name =>
    rw [memberReader, accepted, pure_bind]
    exact takesMember_colon loose ((kindReader_takes spacing fuel name).imp fun _ h => h ▸ rfl)
  | attrs fields =>
    rw [memberReader, accepted, pure_bind]
    exact takesMember_colon loose
      ((attrsReader_takes loose fuel float_free (canonical.attrs fields rfl)).imp
        fun _ h => h ▸ rfl)
  | children items nodes _ below =>
    rw [memberReader, accepted, pure_bind]
    exact takesMember_colon loose
      ((childrenReader_takes loose each below float_free (canonical.children nodes rfl)).imp
        fun _ h => h ▸ rfl)
  | unknown _ _ kind attrs children =>
    rw [memberReader, accepted, pure_bind]
    · exact takesMember_colon loose
        ((Json.Reader.value_takes loose false fuel v float_free
          fun h => absurd h Bool.false_ne_true).imp fun _ _ => rfl)
    all_goals assumption

/-- The members of an object fill a draft from their text as they do from their values. -/
theorem members_memberReader (loose : spacing.Loose) (each : TakesRecords node spacing fuel)
    {fields : List (String × Json)} {final : Draft} (h : ofFields fields {} = .ok final)
    (float_free : (Json.obj fields).FloatFree)
    (canonical : final.EveryAttrs fun attrs => (Json.obj attrs).Canonical)
    {gaps s : List Char} (blank : Blank gaps) (depth : Nat)
    (short : (Json.renderFields spacing depth true fields (gaps ++ '}' :: s)).length < fuel) :
    (Json.Reader.members true (memberReader node fuel) fuel true {}).run
      (Json.renderFields spacing depth true fields (gaps ++ '}' :: s)) = .ok (final, s) := by
  have step : ∀ draft key v rest,
      (key, v) :: rest <:+ fields ∧ ofFields ((key, v) :: rest) draft = .ok final →
      (memberReader node fuel draft key).TakesMember spacing fuel v fun next =>
        rest <:+ fields ∧ ofFields rest next = .ok final := by
    rintro draft key v rest ⟨suffix, h⟩ depth tail apart below
    obtain ⟨claim, next, filled, h⟩ := ofFields_cons h
    obtain ⟨_, run_next, rfl⟩ := memberReader_takes loose each claim filled
      ((Json.every_obj.1 float_free).2 _ (suffix.subset List.mem_cons_self))
      (everyAttrs_of_final h canonical) depth tail apart below
    exact ⟨_, run_next, (List.suffix_cons _ _).trans suffix, h⟩
  obtain ⟨last, run_last, -, ⟨⟩⟩ := Json.Reader.members_takes (s := s)
    (Q := fun draft rest => rest <:+ fields ∧ ofFields rest draft = .ok final) loose true step blank
    depth fuel true (by omega) ⟨List.suffix_refl _, h⟩
  exact run_last

/-! ## Records written as arrays -/

/-- The text of an array is read as the record that the array is. -/
theorem arrayReader_takes (loose : spacing.Loose) (each : TakesRecords node spacing fuel)
    {items : List Json} {r : NodeRecord} (h : ofJson (.arr items) = .ok r)
    (float_free : (Json.arr items).FloatFree) (canonical : r.Canonical)
    {gaps s : List Char} (blank : Blank gaps) (depth : Nat)
    (short : (Json.renderItems spacing depth true items (gaps ++ ']' :: s)).length < fuel) :
    (arrayReader node fuel).run (Json.renderItems spacing depth true items (gaps ++ ']' :: s))
      = .ok (r, s) := by
  obtain ⟨attrs_canonical, children_canonical⟩ := everyAttrs_iff.1 canonical
  obtain ⟨more, rfl, rest⟩ := ofJson_arr_eq_ok h
  have free := (Json.every_arr.1 float_free).2
  have closed : (Json.Reader.moreItems false).run (']' :: s) = .ok (false, ']' :: s) :=
    moreItems_end blank_nil false
  have shorter := length_renderItems_lt spacing (.str r.kind) trivial depth true more
    (gaps ++ ']' :: s)
  obtain ⟨text, _, more_kind, run_kind, rfl⟩ := item_takes (s := s) loose
    (kindReader_takes spacing fuel r.kind) trivial blank depth true more short
  rw [arrayReader, run_bind_ok more_kind]
  simp only [Bool.not_true, Bool.false_eq_true, if_false]
  rw [run_bind_ok run_kind]
  obtain ⟨rfl, no_attrs, no_children⟩ | ⟨rfl, no_children⟩ | ⟨items, rfl, below⟩ := rest
  -- The kind alone: the bracket is met twice before it is taken.
  · rw [Json.renderItems, run_bind_ok (moreItems_end blank false)]
    simp only [Bool.false_eq_true, if_false, pure_bind]
    rw [run_bind_ok closed, ← no_attrs]
    simp only [Bool.false_eq_true, if_false]
    rw [← no_children]
    cases r
    rfl
  · obtain ⟨text, _, more_attrs, run_attrs, rfl⟩ := item_takes (s := s) loose
      (attrsReader_takes loose fuel (free _ (by simp)) attrs_canonical) trivial blank depth false []
      (by omega)
    rw [run_bind_ok more_attrs]
    simp only [if_true]
    rw [run_bind_ok run_attrs, Json.renderItems, run_bind_ok (moreItems_end blank false)]
    simp only [Bool.false_eq_true, if_false, pure_bind]
    rw [← no_children]
    cases r
    rfl
  · have shorter' := length_renderItems_lt spacing (.obj r.attrs) trivial depth false [.arr items]
      (gaps ++ ']' :: s)
    obtain ⟨text, _, more_attrs, run_attrs, rfl⟩ := item_takes (s := s) loose
      (attrsReader_takes loose fuel (free _ (by simp)) attrs_canonical) trivial blank depth false
      [.arr items] (by omega)
    obtain ⟨text', _, more_children, run_children, rfl⟩ := item_takes (s := s) loose
      (childrenReader_takes loose each below (free _ (by simp)) children_canonical) trivial blank
      depth false [] (by omega)
    rw [run_bind_ok more_attrs]
    simp only [if_true]
    rw [run_bind_ok run_attrs, run_bind_ok more_children]
    simp only [if_true]
    rw [run_bind_ok run_children, Json.renderItems, run_bind_ok (token_blank_cons blank rfl)]
    cases r
    rfl

/-! ## Records -/

/-- **The text of a value that is a record is read as the record.** -/
theorem reader_takes (loose : spacing.Loose) (fuel : Nat) :
    TakesRecords (reader fuel) spacing fuel := by
  induction fuel with
  | zero => exact fun _ _ _ _ _ _ _ _ _ _ below => absurd below (Nat.not_lt_zero _)
  | succ fuel ih =>
    intro v r h float_free canonical depth gaps tail blank apart below
    refine ⟨r, ?_, rfl⟩
    match v with
    | .obj fields =>
      rw [ofJson] at h
      obtain ⟨final, filled, finished⟩ := bind_eq_ok.1 h
      obtain ⟨gaps', blank', eq⟩ := Json.Reader.render_obj loose depth fields tail
      rw [eq, List.length_cons] at below
      have run_final := members_memberReader (s := tail) loose ih filled float_free
        ((Draft.everyAttrs_finish Json.canonical_empty finished).1 canonical) blank' (depth + 1)
        (by omega)
      rw [eq, reader, run_bind_ok (token_blank_cons blank rfl)]
      show StateT.run (Json.Reader.skip >>= fun _ =>
        Json.Reader.members true (memberReader (reader fuel) fuel) fuel true {} >>= _) _ = _
      rw [run_skip_bind, run_bind_ok run_final, finished]
      rfl
    | .arr items =>
      obtain ⟨gaps', blank', eq⟩ := Json.Reader.render_arr loose depth items tail
      rw [eq, List.length_cons] at below
      rw [eq, reader, run_bind_ok (token_blank_cons blank rfl)]
      show StateT.run (Json.Reader.skip >>= fun _ => arrayReader (reader fuel) fuel) _ = _
      rw [run_skip_bind,
        arrayReader_takes loose ih h float_free canonical blank' (depth + 1) (by omega)]
    | .null | .bool _ | .int _ | .float _ | .str _ => rw [ofJson] at h <;> simp_all

theorem read_pretty {v : Json} {r : NodeRecord} (h : ofJson v = .ok r) (float_free : v.FloatFree)
    (canonical : r.Canonical) : read v.pretty = .ok r :=
  Json.Reader.runAll_takes .wide fun fuel =>
    reader_takes Spacing.wide_loose fuel v r h float_free canonical

/-- The same with the end of a line behind the text. -/
theorem read_pretty_line {v : Json} {r : NodeRecord} (h : ofJson v = .ok r)
    (float_free : v.FloatFree) (canonical : r.Canonical) : read (v.pretty ++ "\n") = .ok r := by
  rw [Json.pretty_line]
  exact Json.Reader.runAll_takes_blank .wide
    (fun fuel => reader_takes Spacing.wide_loose fuel v r h float_free canonical)
    (List.forall_mem_singleton.mpr rfl)

end Printed

/-! ## What is read -/

theorem attrsReader_yields (fuel : Nat) :
    (attrsReader fuel).Yields fun attrs => (Json.obj attrs).Canonical := by
  rw [attrsReader]
  refine yields_after fun c => ?_
  split
  · refine yields_bind (Json.Reader.value_yields fuel) fun v hv => ?_
    split
    · exact yields_pure hv
    · exact yields_pure Json.canonical_empty
  · exact mismatch_yields _

section Yields

variable {node : Reader NodeRecord} (each : node.Yields Canonical) (fuel : Nat)
include each

theorem childrenReader_yields :
    (childrenReader node fuel).Yields fun nodes => ∀ r ∈ nodes, r.Canonical := by
  rw [childrenReader]
  refine yields_after fun c => ?_
  split
  · exact yields_after fun _ => Json.Reader.elements_yields each fuel true
  · exact mismatch_yields _

theorem memberReader_yields (draft : Draft) (key : String)
    (h : draft.EveryAttrs fun attrs => (Json.obj attrs).Canonical) :
    (memberReader node fuel draft key).Yields
      (Draft.EveryAttrs fun attrs => (Json.obj attrs).Canonical) := by
  unfold memberReader
  refine yields_after fun _ => yields_after fun _ => ?_
  split
  · exact yields_after fun kind => yields_pure ⟨h.attrs, h.children⟩
  · exact yields_bind (attrsReader_yields fuel) fun attrs canonical =>
      yields_pure ⟨fun x eq => Option.some.inj eq ▸ canonical, h.children⟩
  · exact yields_bind (childrenReader_yields each fuel) fun nodes canonical =>
      yields_pure ⟨h.attrs, fun x eq => Option.some.inj eq ▸ canonical⟩
  · exact yields_after fun _ => yields_pure h

theorem arrayReader_yields : (arrayReader node fuel).Yields Canonical := by
  rw [arrayReader]
  refine yields_after fun more => ?_
  split
  · exact yields_throw_bind _
  refine yields_after fun kind => yields_after fun _ => ?_
  refine yields_ite_bind (attrsReader_yields fuel) (yields_pure Json.canonical_empty)
    fun attrs attrs_canonical => yields_after fun _ => ?_
  refine yields_ite_bind (childrenReader_yields each fuel) (yields_pure fun _ h => nomatch h)
    fun children children_canonical => yields_after fun c => ?_
  split
  · exact yields_throw_bind _
  · exact yields_after fun _ =>
      yields_pure (everyAttrs_iff.2 ⟨attrs_canonical, children_canonical⟩)
  · exact yields_throw_bind _

end Yields

/-- What comes of a result is a result of the reader. -/
theorem refuse_yields {α : Type} {P : α → Prop} {result : Except Json.Mismatch α}
    (h : ∀ x, result = .ok x → P x) : (refuse result).Yields P := by
  cases result with
  | ok x => exact yields_pure (h x rfl)
  | error m => exact yields_throw _

theorem reader_yields (fuel : Nat) : (reader fuel).Yields Canonical := by
  induction fuel with
  | zero => exact yields_throw _
  | succ fuel ih =>
    rw [reader]
    refine yields_after fun c => ?_
    split
    · refine yields_after fun _ => yields_bind
        (Json.Reader.members_yields true (memberReader_yields ih fuel) fuel true
          Draft.everyAttrs_empty) fun draft h => ?_
      exact refuse_yields fun r finished =>
        (Draft.everyAttrs_finish Json.canonical_empty finished).2 h
    · exact yields_after fun _ => arrayReader_yields ih fuel
    · exact mismatch_yields _

/-- Whatever is read has canonical attributes. -/
theorem canonical_of_read {text : String} {r : NodeRecord} (h : read text = .ok r) : r.Canonical :=
  Json.Reader.runAll_yields reader_yields h

end TreeRewrite.NodeRecord
