import TreeRewrite.Proofs.Json.Refused
import TreeRewrite.Proofs.Tree.RecordText

/-!
# Values that are no records, and their texts

A value and its text are checked in different orders.  A value is gone through member by member,
and only then is it asked for its kind and for its length; its text is read from left to right, and
an array that is too long is found out by the comma behind its last place.  So of several faults not
the same one is found.  But whether there is one at all does not depend on the order: the text of a
value that is no record is refused.

## What is here

* `NodeRecord.Spoils` — what can be wrong with a member of an object, and
  `NodeRecord.ofFields_cons_eq_error`, where the first wrong member is.
* `NodeRecord.memberReader_refuses`, `NodeRecord.arrayReader_fails` — the steps for the two written
  forms.
* `NodeRecord.reader_refuses` — **the text of a value that is no record is refused**.
* `NodeRecord.read_render` — so a printed value is read as a record just if it is one.
-/

set_option autoImplicit false

namespace TreeRewrite.NodeRecord

open Json (Mismatch Reader Spacing)
open Json.Reader (Blank elements_refuses fails_bind_ok fails_skip_bind fails_throw fails_unless
  item_fails length_renderItems_lt mismatch_fails moreItems_end refusesMember_colon runAll_refuses
  token_blank_cons token_cons)

/-! ## What is no record -/

/-- What can be wrong with a member of an object behind those that have filled the draft: its place
is taken, or its value is not what its key asks for. -/
inductive Spoils (draft : Draft) : String → Json → Prop
  | taken {key : String} {m : Mismatch} (value : Json) (claim : draft.claim key = .error m) :
    Spoils draft key value
  | kind {value : Json} {m : Mismatch} (claim : draft.claim "kind" = .ok ())
    (wrong : value.decodeString = .error m) : Spoils draft "kind" value
  | attrs {value : Json} {m : Mismatch} (claim : draft.claim "attrs" = .ok ())
    (wrong : value.decodeFields = .error m) : Spoils draft "attrs" value
  | children {value : Json} {m : Mismatch} (claim : draft.claim "children" = .ok ())
    (wrong : childrenOfJson value = .error m) : Spoils draft "children" value

/-- If an object is no record, then its first member is wrong, or the others are after it has filled
the draft. -/
theorem ofFields_cons_eq_error {key : String} {value : Json} {rest : List (String × Json)}
    {draft : Draft} {m : Mismatch} (h : ofFields ((key, value) :: rest) draft = .error m) :
    Spoils draft key value ∨ draft.claim key = .ok () ∧
      ∃ next, Filled draft key value next ∧ ofFields rest next = .error m := by
  rw [ofFields] at h
  obtain taken | ⟨⟨⟩, claim, h⟩ := bind_eq_error.1 h
  · exact .inl (.taken value taken)
  split at h
  · obtain wrong | ⟨name, string, later⟩ := bind_eq_error.1 h
    · exact .inl (.kind claim wrong)
    · rw [decodeString_eq_ok string]
      exact .inr ⟨claim, _, .kind name (eq_none_of_claim claim), later⟩
  · obtain wrong | ⟨fields, object, later⟩ := bind_eq_error.1 h
    · exact .inl (.attrs claim wrong)
    · rw [decodeFields_eq_ok object]
      exact .inr ⟨claim, _, .attrs fields (eq_none_of_claim claim), later⟩
  · obtain wrong | ⟨nodes, array, later⟩ := bind_eq_error.1 h
    · exact .inl (.children claim wrong)
    · obtain ⟨items, rfl, below⟩ := childrenOfJson_eq_ok array
      exact .inr ⟨claim, _, .children items nodes (eq_none_of_claim claim) below, later⟩
  · next kind attrs children => exact .inr ⟨claim, _, .unknown key value kind attrs children, h⟩

/-- Some members of an object are wrong behind those that have filled the draft. -/
structure GoesWrong (fields : Fields) (m : Mismatch) (draft : Draft) (rest : Fields) : Prop where
  suffix : rest <:+ fields
  canonical : draft.EveryAttrs fun attrs => (Json.obj attrs).Canonical
  wrong : ofFields rest draft = .error m

/-- If an array is no list of records, one of its items is no record. -/
theorem exists_of_ofItems_eq_error {items : List Json} {m : Mismatch}
    (h : ofItems items = .error m) : ∃ v ∈ items, ∃ m, ofJson v = .error m := by
  induction items with
  | nil => cases h
  | cons item rest ih =>
    rw [ofItems] at h
    obtain first | ⟨_, -, h⟩ := bind_eq_error.1 h
    · exact ⟨item, List.mem_cons_self, m, first⟩
    · obtain later | ⟨_, -, ⟨⟩⟩ := bind_eq_error.1 h
      obtain ⟨v, mem, wrong⟩ := ih later
      exact ⟨v, List.mem_cons_of_mem _ mem, wrong⟩

section

variable {spacing : Spacing} {node : Reader NodeRecord} {bound fuel : Nat} {v : Json} {m : Mismatch}

/-! ## Parts of a record -/

theorem kindReader_follows (loose : spacing.Loose) (not_float : v.NotFloat) :
    kindReader.Follows Json.decodeString spacing bound v where
  takes name h := decodeString_eq_ok h ▸ kindReader_takes spacing bound name
  refuses m h := by
    intro depth gaps tail blank apart below
    obtain ⟨c, cs, eq, gap, string, -⟩ := Json.render_opens loose not_float depth tail
    rw [eq]
    refine fails_unless blank gap (fun quote => ?_) _
    obtain ⟨s, rfl⟩ := string quote
    cases h

theorem attrsReader_follows (loose : spacing.Loose) (printable : v.Printable) :
    (attrsReader fuel).Follows Json.decodeFields spacing fuel v where
  takes attrs h := by
    obtain rfl := decodeFields_eq_ok h
    exact attrsReader_takes loose fuel printable.float_free printable.canonical
  refuses m h := by
    intro depth gaps tail blank apart below
    obtain ⟨c, cs, eq, gap, -, -, object⟩ := Json.render_opens loose printable.not_float depth tail
    rw [eq]
    refine fails_unless blank gap (fun brace => ?_) _
    obtain ⟨fields, rfl⟩ := object brace
    cases h

/-- Does the reader refuse every value that is no record? -/
def RefusesOthers (node : Reader NodeRecord) (spacing : Spacing) (bound : Nat) : Prop :=
  ∀ v m, ofJson v = .error m → v.Printable → node.Refuses spacing bound v

variable (loose : spacing.Loose) (takes : TakesRecords node spacing fuel)
  (refuses : RefusesOthers node spacing fuel)
include takes refuses

theorem node_follows (printable : v.Printable) : node.Follows ofJson spacing fuel v where
  takes r h := takes v r h printable.float_free ((canonical_of_value printable.canonical).1 r h)
  refuses m h := refuses v m h printable

include loose

theorem childrenReader_refuses (printable : v.Printable) (h : childrenOfJson v = .error m) :
    (childrenReader node fuel).Refuses spacing fuel v := by
  intro depth gaps tail blank apart below
  obtain ⟨c, cs, eq, gap, -, array, -⟩ := Json.render_opens loose printable.not_float depth tail
  by_cases bracket : c = '['
  · obtain ⟨items, rfl⟩ := array bracket
    have each : ∀ v ∈ items, v.NotFloat ∧ ((node.Takes spacing fuel v fun _ => True)
        ∨ node.Refuses spacing fuel v) := by
      intro v mem
      have here := printable.item v mem
      have follows := node_follows takes refuses here
      refine ⟨here.not_float, ?_⟩
      cases record : ofJson v with
      | ok r => exact .inl ((follows.takes r record).imp fun _ _ => trivial)
      | error m => exact .inr (follows.refuses m record)
    rw [childrenOfJson] at h
    obtain ⟨v, mem, m, wrong⟩ := exists_of_ofItems_eq_error h
    obtain ⟨gaps', blank', eq⟩ := Json.Reader.render_arr loose depth items tail
    rw [eq, List.length_cons] at below
    rw [eq, childrenReader]
    refine fails_bind_ok (token_blank_cons blank rfl) ?_
    rw [if_pos rfl]
    refine fails_skip_bind ?_ _
    exact elements_refuses (s := tail) loose each ⟨v, mem, refuses v m wrong (printable.item v mem)⟩
      blank' (depth + 1) fuel true (by omega)
  · rw [eq]
    exact fails_unless blank gap bracket _

theorem childrenReader_follows (printable : v.Printable) :
    (childrenReader node fuel).Follows childrenOfJson spacing fuel v where
  takes nodes h := by
    obtain ⟨items, rfl, below⟩ := childrenOfJson_eq_ok h
    exact childrenReader_takes loose takes below printable.float_free
      ((canonical_of_value printable.canonical).2 nodes h)
  refuses m h := childrenReader_refuses loose takes refuses printable h

/-! ## Records written as objects -/

/-- The text of a member that is wrong is refused. -/
theorem memberReader_refuses {draft : Draft} {key : String} (printable : v.Printable)
    (spoils : Spoils draft key v) :
    (memberReader node fuel draft key).RefusesMember spacing fuel v := by
  cases spoils with
  | taken _ claim =>
    intro depth tail apart below
    unfold memberReader
    rw [claim]
    exact (fails_throw _ _).bind _
  | kind claim wrong =>
    rw [memberReader, refuse_ok claim, pure_bind]
    exact refusesMember_colon loose ((kindReader_follows loose printable.not_float).refuses _ wrong)
  | attrs claim wrong =>
    rw [memberReader, refuse_ok claim, pure_bind]
    exact refusesMember_colon loose ((attrsReader_follows loose printable).refuses _ wrong)
  | children claim wrong =>
    rw [memberReader, refuse_ok claim, pure_bind]
    exact refusesMember_colon loose (childrenReader_refuses loose takes refuses printable wrong)

/-- The members of an object that is no record are refused from their text as well. -/
theorem members_memberReader_fails {fields : List (String × Json)}
    (printable : (Json.obj fields).Printable) (h : ofFields fields {} = .error m)
    {gaps s : List Char} (blank : Blank gaps) (depth : Nat)
    (short : (Json.renderFields spacing depth true fields (gaps ++ '}' :: s)).length < fuel) :
    (Json.Reader.members true (memberReader node fuel) fuel true {}).Fails
      (Json.renderFields spacing depth true fields (gaps ++ '}' :: s)) := by
  have step : ∀ draft key v rest, GoesWrong fields m draft ((key, v) :: rest) →
      (memberReader node fuel draft key).RefusesMember spacing fuel v
        ∨ (memberReader node fuel draft key).TakesMember spacing fuel v fun next =>
          GoesWrong fields m next rest := by
    rintro draft key v rest ⟨suffix, every, h⟩
    have here := printable.member (key, v) (suffix.subset List.mem_cons_self)
    obtain spoils | ⟨claim, next, filled, h⟩ := ofFields_cons_eq_error h
    · exact .inl (memberReader_refuses loose takes refuses here spoils)
    · have canonical := filled.everyAttrs_next every
        (fun attrs eq => eq ▸ here.canonical) (canonical_of_value here.canonical).2
      refine .inr fun depth tail apart below => ?_
      obtain ⟨_, run_next, rfl⟩ := memberReader_takes loose takes claim filled here.float_free
        canonical depth tail apart below
      exact ⟨_, run_next, (List.suffix_cons _ _).trans suffix, canonical, h⟩
  exact Json.Reader.members_refuses loose true (fun _ h => by cases h.wrong) step blank depth fuel
    true (by omega) ⟨List.suffix_refl _, Draft.everyAttrs_empty, h⟩

/-! ## Records written as arrays -/

/-- The text of an array that is no record is refused. -/
theorem arrayReader_fails {items : List Json} (h : ofJson (.arr items) = .error m)
    (printable : (Json.arr items).Printable) {gaps s : List Char} (blank : Blank gaps) (depth : Nat)
    (short : (Json.renderItems spacing depth true items (gaps ++ ']' :: s)).length < fuel) :
    (arrayReader node fuel).Fails
      (Json.renderItems spacing depth true items (gaps ++ ']' :: s)) := by
  rw [arrayReader]
  cases items with
  | nil =>
    refine fails_bind_ok (moreItems_end blank true) ?_
    exact (fails_throw _ _).bind _
  | cons v more =>
    have here := printable.item v (by simp)
    have shorter := length_renderItems_lt spacing v here.not_float depth true more
      (gaps ++ ']' :: s)
    refine item_fails loose (kindReader_follows loose here.not_float) here.not_float blank depth
      true more short rfl fun kind string => ?_
    cases more with
    | nil => rw [ofJson, string] at h; cases h
    | cons w more =>
      have here := printable.item w (by simp)
      have shorter' := length_renderItems_lt spacing w here.not_float depth false more
        (gaps ++ ']' :: s)
      refine item_fails loose (attrsReader_follows loose here) here.not_float blank depth false more
        (by omega) rfl fun attrs object => ?_
      cases more with
      | nil => rw [ofJson, string, object] at h; cases h
      | cons u more =>
        have here := printable.item u (by simp)
        refine item_fails loose (childrenReader_follows loose takes refuses here) here.not_float
          blank depth false more (by omega) rfl fun children array => ?_
        cases more with
        | nil => rw [ofJson, string, object, array] at h; cases h
        | cons x more =>
          -- All three places are filled, and a comma stands where the array should end.
          exact fails_bind_ok (token_cons rfl) ((fails_throw _ _).bind _)

end

/-! ## Records -/

/-- **The text of a value that is no record is refused.** -/
theorem reader_refuses {spacing : Spacing} (loose : spacing.Loose) (fuel : Nat) :
    RefusesOthers (reader fuel) spacing fuel := by
  induction fuel with
  | zero => exact fun _ _ _ _ _ _ _ _ _ below => absurd below (Nat.not_lt_zero _)
  | succ fuel ih =>
    intro v m h printable depth gaps tail blank apart below
    have takes := reader_takes loose fuel
    rw [reader]
    cases v with
    | obj fields =>
      obtain ⟨gaps', blank', eq⟩ := Json.Reader.render_obj loose depth fields tail
      rw [eq, List.length_cons] at below
      rw [eq]
      refine fails_bind_ok (token_blank_cons blank rfl) (fails_skip_bind ?_ _)
      rw [ofJson] at h
      obtain wrong | ⟨final, filled, unfinished⟩ := bind_eq_error.1 h
      · exact (members_memberReader_fails loose takes ih printable wrong blank' (depth + 1)
          (by omega)).bind _
      · have run_final := members_memberReader (s := tail) loose takes filled printable.float_free
          (everyAttrs_ofFields filled Draft.everyAttrs_empty fun member mem =>
            ⟨fun attrs eq => eq ▸ (printable.member member mem).canonical,
              (canonical_of_value (printable.member member mem).canonical).2⟩)
          blank' (depth + 1) (by omega)
        refine fails_bind_ok run_final ?_
        rw [unfinished]
        exact fails_throw _ _
    | arr items =>
      obtain ⟨gaps', blank', eq⟩ := Json.Reader.render_arr loose depth items tail
      rw [eq, List.length_cons] at below
      rw [eq]
      refine fails_bind_ok (token_blank_cons blank rfl) (fails_skip_bind ?_ _)
      exact arrayReader_fails loose takes ih h printable blank' (depth + 1) (by omega)
    | _ =>
      obtain ⟨c, cs, eq, gap, -, array, object⟩ :=
        Json.render_opens loose printable.not_float depth tail
      rw [eq]
      refine fails_bind_ok (token_blank_cons blank gap) ?_
      split
      · next brace => cases brace; obtain ⟨_, ⟨⟩⟩ := object rfl
      · next bracket => cases bracket; obtain ⟨_, ⟨⟩⟩ := array rfl
      · exact mismatch_fails _ _

/-- **A printed value is read as a record just if it is one.** -/
theorem read_render {spacing : Spacing} (loose : spacing.Loose) {v : Json}
    (printable : v.Printable) :
    (∀ r, ofJson v = .ok r → read (String.ofList (v.render spacing 0 [])) = .ok r)
      ∧ ∀ m, ofJson v = .error m →
        ∃ fault, read (String.ofList (v.render spacing 0 [])) = .error fault := by
  refine ⟨fun r h => ?_, fun m h => ?_⟩
  · exact Json.Reader.runAll_takes spacing fun fuel => reader_takes loose fuel v r h
      printable.float_free ((canonical_of_value printable.canonical).1 r h)
  · exact runAll_refuses fun fuel => reader_refuses loose fuel v m h printable

end TreeRewrite.NodeRecord
