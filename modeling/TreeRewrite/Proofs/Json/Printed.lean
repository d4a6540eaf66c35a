import Mathlib.Data.List.Forall2
import TreeRewrite.Proofs.Json.Arranged
import TreeRewrite.Proofs.Json.Tokens

/-!
# Printed values are read back

Whatever blanks a layout puts between the tokens, reading the text of a value gives the value and
leaves what stands behind it.

A reader is bounded by a number that the length of the text covers.  So all statements are about a
reader with a *bound* that the printed text, together with what follows it, stays below.

## What is here

* `Spacing.Loose` — the layouts that put nothing but blanks between the tokens; both spacings in use
  are of this kind.
* `Json.render_append` — what follows a printed value stands behind its text.
* `Reader.Takes` — a reader takes a printed value off the front of a text, with a result of a given
  kind.
* `Reader.elements_takes`, `Reader.members_takes` — the loops over an array and an object, for any
  reader of the parts.
* `Reader.value_takes_arranged` — the reader of values, which gives the printed value with its
  members in order; `Reader.value_takes` is the case of a value that is in order.
* `Json.parse_render_arranged` — **the text of a value is parsed as the value** with its members in
  order; `Json.parse_render` is again the case of a value that is in order.
-/

set_option autoImplicit false

namespace TreeRewrite.Json

/-- A layout with nothing but blanks between the tokens. -/
structure Spacing.Loose (spacing : Spacing) : Prop where
  line : ∀ depth, Reader.Blank (spacing.line depth)
  colon : ∃ gap, Reader.Blank gap ∧ spacing.colon = ':' :: gap

theorem Spacing.wide_loose : Spacing.wide.Loose where
  line depth := by
    intro c hc
    rcases List.mem_cons.1 hc with rfl | hc
    · rfl
    · rw [List.eq_of_mem_replicate hc]
      rfl
  colon := ⟨[' '], by simp [Reader.Blank, Reader.isGap], rfl⟩

theorem Spacing.tight_loose : Spacing.tight.Loose where
  line _ := by simp [Reader.Blank, tight]
  colon := ⟨[], by simp [Reader.Blank], rfl⟩

/-! ## What follows printed text -/

section Follow

variable (spacing : Spacing)

mutual

/-- What follows the text of a value does not change it. -/
theorem render_append : ∀ (v : Json) (depth : Nat) (tail more : List Char),
    v.render spacing depth (tail ++ more) = v.render spacing depth tail ++ more
  | .null, _, _, _ => rfl
  | .bool true, _, _, _ => rfl
  | .bool false, _, _, _ => rfl
  | .int _, _, _, _ => (List.append_assoc ..).symm
  | .float _, _, _, _ => (List.append_assoc ..).symm
  | .str _, _, _, _ => (List.append_assoc ..).symm
  | .arr [], _, _, _ => rfl
  | .obj [], _, _, _ => rfl
  | .arr (item :: rest), depth, tail, more => by
    have items := renderItems_append (item :: rest) (depth + 1) true
      (spacing.line depth ++ ']' :: tail) more
    rw [List.append_assoc, List.cons_append] at items
    rw [render, render, items, List.cons_append]
  | .obj (member :: rest), depth, tail, more => by
    have members := renderFields_append (member :: rest) (depth + 1) true
      (spacing.line depth ++ '}' :: tail) more
    rw [List.append_assoc, List.cons_append] at members
    rw [render, render, members, List.cons_append]

theorem renderItems_append : ∀ (items : List Json) (depth : Nat) (first : Bool)
    (tail more : List Char), renderItems spacing depth first items (tail ++ more)
      = renderItems spacing depth first items tail ++ more
  | [], _, _, _, _ => rfl
  | item :: rest, depth, first, tail, more => by
    rw [renderItems, renderItems, renderItems_append rest, render_append item]
    simp only [List.append_assoc]

theorem renderFields_append : ∀ (fields : List (String × Json)) (depth : Nat) (first : Bool)
    (tail more : List Char), renderFields spacing depth first fields (tail ++ more)
      = renderFields spacing depth first fields tail ++ more
  | [], _, _, _, _ => rfl
  | (key, value) :: rest, depth, first, tail, more => by
    rw [renderFields, renderFields, renderFields_append rest, render_append value]
    simp only [List.append_assoc]

end

end Follow

/-! ## The length of printed text -/

section Length

variable (spacing : Spacing)

mutual

/-- What follows a value is part of its text. -/
theorem length_le_render : ∀ (v : Json) (depth : Nat) (tail : List Char),
    tail.length ≤ (v.render spacing depth tail).length
  | .null, _, _ => by simp only [render, List.length_cons]; omega
  | .bool true, _, _ => by simp only [render, List.length_cons]; omega
  | .bool false, _, _ => by simp only [render, List.length_cons]; omega
  | .int _, _, _ => by simp only [render, List.length_append]; omega
  | .float _, _, _ => by simp only [render, List.length_append]; omega
  | .str _, _, _ => by simp only [render, List.length_append]; omega
  | .arr [], _, _ => by simp only [render, List.length_cons]; omega
  | .obj [], _, _ => by simp only [render, List.length_cons]; omega
  | .arr (item :: rest), depth, tail => by
    have := length_le_renderItems (item :: rest) (depth + 1) true
      (spacing.line depth ++ ']' :: tail)
    simp only [render, List.length_cons, List.length_append] at this ⊢
    omega
  | .obj (member :: rest), depth, tail => by
    have := length_le_renderFields (member :: rest) (depth + 1) true
      (spacing.line depth ++ '}' :: tail)
    simp only [render, List.length_cons, List.length_append] at this ⊢
    omega

theorem length_le_renderItems : ∀ (items : List Json) (depth : Nat) (first : Bool)
    (tail : List Char), tail.length ≤ (renderItems spacing depth first items tail).length
  | [], _, _, tail => Nat.le_refl _
  | item :: rest, depth, first, tail => by
    have := length_le_renderItems rest depth false tail
    have := length_le_render item depth (renderItems spacing depth false rest tail)
    simp only [renderItems, List.length_append]
    omega

theorem length_le_renderFields : ∀ (fields : List (String × Json)) (depth : Nat) (first : Bool)
    (tail : List Char), tail.length ≤ (renderFields spacing depth first fields tail).length
  | [], _, _, tail => Nat.le_refl _
  | (_, value) :: rest, depth, first, tail => by
    have := length_le_renderFields rest depth false tail
    have := length_le_render value depth (renderFields spacing depth false rest tail)
    simp only [renderFields, List.length_append]
    omega

end

end Length

/-! ## The first character of printed text -/

/-- A sign or digit is neither a blank nor the start of another token. -/
theorem number_head {c : Char} (h : c = '-' ∨ c.isDigit = true) :
    Reader.isGap c = false ∧ c ≠ ']' ∧ c ≠ '[' ∧ c ≠ '{'
      ∧ c ≠ '"' ∧ c ≠ 'n' ∧ c ≠ 't' ∧ c ≠ 'f' := by
  rcases h with rfl | h
  · decide
  · refine ⟨?_, ?_, ?_, ?_, ?_, ?_, ?_, ?_⟩
    · refine Bool.eq_false_iff.2 fun gap => ?_
      rcases Reader.eq_of_isGap gap with rfl | rfl | rfl | rfl <;> exact absurd h (by decide)
    all_goals
      rintro rfl
      exact absurd h (by decide)

/-- The text of a value starts with a character that is neither a blank nor the end of an array. -/
theorem render_eq_cons (spacing : Spacing) {v : Json} (h : v.NotFloat) (depth : Nat)
    (tail : List Char) : ∃ c cs, v.render spacing depth tail = c :: cs
      ∧ Reader.isGap c = false ∧ c ≠ ']' ∧ tail.length ≤ cs.length := by
  match v with
  | .float _ => exact h.elim
  | .int n =>
    obtain ⟨c, cs, eq, head⟩ := Reader.intText_eq_cons n
    refine ⟨c, cs ++ tail, by rw [render, eq, List.cons_append], (number_head head).1,
      (number_head head).2.1, by simp⟩
  | .null | .bool true | .bool false | .arr [] | .obj [] =>
    exact ⟨_, _, rfl, rfl, by decide, by simp only [List.length_cons]; omega⟩
  | .str s =>
    refine ⟨_, _, Reader.stringText_append s, rfl, by decide, ?_⟩
    simp only [List.length_append, List.length_cons]
    omega
  | .arr (item :: rest) =>
    refine ⟨_, _, rfl, rfl, by decide, Nat.le_trans ?_ (length_le_renderItems ..)⟩
    simp only [List.length_append, List.length_cons]
    omega
  | .obj (member :: rest) =>
    refine ⟨_, _, rfl, rfl, by decide, Nat.le_trans ?_ (length_le_renderFields ..)⟩
    simp only [List.length_append, List.length_cons]
    omega

namespace Reader

variable {α σ : Type} {s : List Char} {gaps : List Char}

/-! ## The ends of arrays and objects -/

theorem moreItems_end (blank : Blank gaps) (first : Bool) :
    (moreItems first).run (gaps ++ ']' :: s) = .ok (false, ']' :: s) := by
  rw [moreItems, run_bind_ok (token_blank_cons blank rfl)]
  rfl

theorem moreItems_item (blank : Blank gaps) (first : Bool) {c : Char} (opens : isGap c = false)
    (item : c ≠ ']') :
    (moreItems first).run (comma first ++ (gaps ++ c :: s)) = .ok (true, c :: s) := by
  rw [moreItems]
  cases first with
  | true =>
    show StateT.run _ (gaps ++ c :: s) = _
    rw [run_bind_ok (token_blank_cons blank opens)]
    split <;> simp_all
    rfl
  | false =>
    show StateT.run _ (',' :: (gaps ++ c :: s)) = _
    rw [run_bind_ok (token_cons rfl)]
    show StateT.run (skip >>= _) _ = _
    rw [run_skip_bind, run_bind_ok (token_blank_cons blank opens)]
    split <;> simp_all
    rfl

theorem moreMembers_end (blank : Blank gaps) (first : Bool) :
    (moreMembers first).run (gaps ++ '}' :: s) = .ok (false, '}' :: s) := by
  rw [moreMembers, run_bind_ok (token_blank_cons blank rfl)]
  rfl

theorem moreMembers_member (blank : Blank gaps) (first : Bool) :
    (moreMembers first).run (comma first ++ (gaps ++ '"' :: s)) = .ok (true, s) := by
  rw [moreMembers]
  cases first with
  | true =>
    show StateT.run _ (gaps ++ '"' :: s) = _
    rw [run_bind_ok (token_blank_cons blank rfl)]
    rfl
  | false =>
    show StateT.run _ (',' :: (gaps ++ '"' :: s)) = _
    rw [run_bind_ok (token_cons rfl)]
    show StateT.run (skip >>= _) _ = _
    rw [run_skip_bind, run_bind_ok (token_blank_cons blank rfl)]
    rfl

/-! ## Taking printed values -/

/-- A reader takes the printed value off the front of every text, and all results are of a kind. -/
def Takes (reader : Reader α) (spacing : Spacing) (bound : Nat) (v : Json) (P : α → Prop) : Prop :=
  ∀ (depth : Nat) (gaps tail : List Char), Blank gaps → Apart tail →
    (v.render spacing depth tail).length < bound →
    ∃ x, reader.run (gaps ++ v.render spacing depth tail) = .ok (x, tail) ∧ P x

variable {spacing : Spacing} {bound : Nat}

theorem Takes.imp {reader : Reader α} {v : Json} {P Q : α → Prop}
    (h : reader.Takes spacing bound v P) (imp : ∀ x, P x → Q x) : reader.Takes spacing bound v Q :=
  fun depth gaps tail blank apart below =>
    (h depth gaps tail blank apart below).imp fun x hx => ⟨hx.1, imp x hx.2⟩

theorem apart_renderItems (spacing : Spacing) (depth : Nat) (items : List Json) (h : Apart s) :
    Apart (renderItems spacing depth false items s) := by
  cases items with
  | nil => exact h
  | cons item rest =>
    rintro c ⟨⟩
    decide

theorem apart_renderFields (spacing : Spacing) (depth : Nat) (fields : Fields) (h : Apart s) :
    Apart (renderFields spacing depth false fields s) := by
  cases fields with
  | nil => exact h
  | cons member rest =>
    rintro c ⟨⟩
    decide

theorem length_renderItems_lt (spacing : Spacing) (v : Json) (not_float : v.NotFloat) (depth : Nat)
    (first : Bool) (rest : List Json) (tail : List Char) :
    (renderItems spacing depth false rest tail).length
      < (renderItems spacing depth first (v :: rest) tail).length := by
  obtain ⟨c, cs, eq, -, -, shorter⟩ :=
    render_eq_cons spacing not_float depth (renderItems spacing depth false rest tail)
  rw [renderItems, eq]
  simp only [List.length_append, List.length_cons]
  omega

/-- The printed items of an array are not at their end while there are some. -/
theorem moreItems_cons (loose : spacing.Loose) {v : Json} (not_float : v.NotFloat) (depth : Nat)
    (first : Bool) (rest : List Json) (tail : List Char) :
    (moreItems first).run (renderItems spacing depth first (v :: rest) tail)
      = .ok (true, v.render spacing depth (renderItems spacing depth false rest tail)) := by
  obtain ⟨c, cs, eq, opens, item_follows, -⟩ := render_eq_cons spacing not_float depth
    (renderItems spacing depth false rest tail)
  rw [renderItems, eq, List.append_assoc,
    moreItems_item (loose.line depth) first opens item_follows]

theorem length_render_le_renderItems (spacing : Spacing) (v : Json) (depth : Nat) (first : Bool)
    (rest : List Json) (tail : List Char) :
    (v.render spacing depth (renderItems spacing depth false rest tail)).length
      ≤ (renderItems spacing depth first (v :: rest) tail).length := by
  rw [renderItems, List.length_append]
  omega

theorem apart_close (spacing : Spacing) (blank : Blank gaps) (depth : Nat) (items : List Json) :
    Apart (renderItems spacing depth false items (gaps ++ ']' :: s)) :=
  apart_renderItems spacing depth items (apart_blank blank (by rintro c ⟨⟩; decide))

/-- One item of an array: there is one, and a reader that takes its value leaves the other items. -/
theorem item_takes (loose : spacing.Loose) {item : Reader α} {P : α → Prop} {v : Json}
    (takes : item.Takes spacing bound v P) (not_float : v.NotFloat) (blank : Blank gaps)
    (depth : Nat) (first : Bool) (rest : List Json)
    (h : (renderItems spacing depth first (v :: rest) (gaps ++ ']' :: s)).length < bound) :
    ∃ text x,
      (moreItems first).run (renderItems spacing depth first (v :: rest) (gaps ++ ']' :: s))
          = .ok (true, text)
        ∧ item.run text = .ok (x, renderItems spacing depth false rest (gaps ++ ']' :: s))
        ∧ P x := by
  have shorter := length_render_le_renderItems spacing v depth first rest (gaps ++ ']' :: s)
  obtain ⟨x, run_x, hx⟩ :=
    takes depth [] _ blank_nil (apart_close (s := s) spacing blank depth rest) (by omega)
  exact ⟨_, x, moreItems_cons loose not_float depth first rest _, run_x, hx⟩

/-- **Arrays.**  If a reader takes each of the items, the loop over the array takes them all. -/
theorem elements_takes (loose : spacing.Loose) {item : Reader α} {P : Json → α → Prop}
    {items : List Json} (each : ∀ v ∈ items, v.NotFloat ∧ item.Takes spacing bound v (P v))
    (blank : Blank gaps) (depth fuel : Nat) (first : Bool)
    (h : (renderItems spacing depth first items (gaps ++ ']' :: s)).length < min fuel bound) :
    ∃ xs, (elements item fuel first).run (renderItems spacing depth first items (gaps ++ ']' :: s))
        = .ok (xs, s) ∧ List.Forall₂ P items xs := by
  induction items generalizing fuel first with
  | nil =>
    obtain ⟨fuel, rfl⟩ : ∃ n, fuel = n + 1 := ⟨fuel - 1, by omega⟩
    refine ⟨[], ?_, .nil⟩
    rw [renderItems, elements, run_bind_ok (moreItems_end blank first)]
    rfl
  | cons v rest ih =>
    obtain ⟨fuel, rfl⟩ : ∃ n, fuel = n + 1 := ⟨fuel - 1, by omega⟩
    obtain ⟨⟨not_float, takes⟩, each⟩ := List.forall_mem_cons.1 each
    have shorter := length_renderItems_lt spacing v not_float depth first rest (gaps ++ ']' :: s)
    obtain ⟨text, x, more, run_x, hx⟩ :=
      item_takes (s := s) loose takes not_float blank depth first rest (by omega)
    obtain ⟨xs, run_xs, hxs⟩ := ih each fuel false (by omega)
    refine ⟨x :: xs, ?_, .cons hx hxs⟩
    rw [elements, run_bind_ok more, if_pos rfl, run_bind_ok run_x, run_bind_ok run_xs]
    rfl

/-- A reader takes the colon and the printed value behind it off the front of every text. -/
def TakesMember (reader : Reader α) (spacing : Spacing) (bound : Nat) (v : Json) (P : α → Prop) :
    Prop :=
  ∀ (depth : Nat) (tail : List Char), Apart tail → (v.render spacing depth tail).length < bound →
    ∃ x, reader.run (spacing.colon ++ v.render spacing depth tail) = .ok (x, tail) ∧ P x

/-- The loop over the printed members of an object reads the first key and gives what follows it to
the reader of members. -/
theorem run_members_cons (loose : spacing.Loose) (member : σ → String → Reader σ) (strict : Bool)
    (depth fuel : Nat) (first : Bool) (x : σ) (key : String) (v : Json) (rest : Fields)
    (tail : List Char) :
    (members strict member (fuel + 1) first x).run
        (renderFields spacing depth first ((key, v) :: rest) tail)
      = (member x key >>= members strict member fuel false).run
        (spacing.colon ++ v.render spacing depth (renderFields spacing depth false rest tail)) := by
  rw [renderFields, members, List.append_assoc, List.append_assoc, List.append_assoc,
    stringText_append, run_bind_ok (moreMembers_member (loose.line depth) first), if_pos rfl,
    run_bind_ok (string_stringText strict key)]

theorem length_render_lt_renderFields (spacing : Spacing) (key : String) (v : Json) (depth : Nat)
    (first : Bool) (rest : Fields) (tail : List Char) :
    (v.render spacing depth (renderFields spacing depth false rest tail)).length
      < (renderFields spacing depth first ((key, v) :: rest) tail).length := by
  simp only [renderFields, stringText, List.length_append, List.length_cons]
  omega

theorem apart_brace (spacing : Spacing) (blank : Blank gaps) (depth : Nat) (fields : Fields) :
    Apart (renderFields spacing depth false fields (gaps ++ '}' :: s)) :=
  apart_renderFields spacing depth fields (apart_blank blank (by rintro c ⟨⟩; decide))

/-- **Objects.**  If a relation between what has been made of the members so far and the members to
come is kept by the reader of members, the loop over the object ends with what it relates to no more
members. -/
theorem members_takes (loose : spacing.Loose) {member : σ → String → Reader σ} (strict : Bool)
    {Q : σ → Fields → Prop}
    (step : ∀ x key v rest, Q x ((key, v) :: rest) →
      (member x key).TakesMember spacing bound v fun x' => Q x' rest)
    (blank : Blank gaps) (depth fuel : Nat) (first : Bool) {x : σ} {fields : Fields}
    (h : (renderFields spacing depth first fields (gaps ++ '}' :: s)).length < min fuel bound)
    (start : Q x fields) :
    ∃ x', (members strict member fuel first x).run
        (renderFields spacing depth first fields (gaps ++ '}' :: s)) = .ok (x', s) ∧ Q x' [] := by
  induction fields generalizing fuel first x with
  | nil =>
    obtain ⟨fuel, rfl⟩ : ∃ n, fuel = n + 1 := ⟨fuel - 1, by omega⟩
    refine ⟨x, ?_, start⟩
    rw [renderFields, members, run_bind_ok (moreMembers_end blank first)]
    rfl
  | cons entry rest ih =>
    obtain ⟨fuel, rfl⟩ : ∃ n, fuel = n + 1 := ⟨fuel - 1, by omega⟩
    obtain ⟨key, v⟩ := entry
    have shorter := length_render_lt_renderFields spacing key v depth first rest (gaps ++ '}' :: s)
    have shorter' := length_le_render spacing v depth
      (renderFields spacing depth false rest (gaps ++ '}' :: s))
    obtain ⟨x₁, run_x₁, hx₁⟩ :=
      step x key v rest start depth _ (apart_brace (s := s) spacing blank depth rest) (by omega)
    obtain ⟨x₂, run_x₂, hx₂⟩ := ih fuel false (by omega) hx₁
    refine ⟨x₂, ?_, hx₂⟩
    rw [run_members_cons loose, run_bind_ok run_x₁, run_x₂]

theorem run_colon : colon.run (':' :: s) = .ok ((), s) := by
  rw [colon, run_bind_ok (token_cons rfl)]
  rfl

theorem takesMember_colon {β : Type} (loose : spacing.Loose) {reader : Reader α} {f : α → β}
    {v : Json} {P : β → Prop} (h : reader.Takes spacing bound v fun x => P (f x)) :
    (do colon; return f (← reader) : Reader β).TakesMember spacing bound v P := by
  intro depth tail apart below
  obtain ⟨gap, blank, eq⟩ := loose.colon
  obtain ⟨x, run_x, hx⟩ := h depth gap tail blank apart below
  refine ⟨f x, ?_, hx⟩
  rw [eq, List.cons_append, run_bind_ok run_colon, run_bind_ok run_x]
  rfl

/-! ## Values -/

theorem render_arr (loose : spacing.Loose) (depth : Nat) (items : List Json) (tail : List Char) :
    ∃ gaps, Blank gaps ∧ (arr items).render spacing depth tail
      = '[' :: renderItems spacing (depth + 1) true items (gaps ++ ']' :: tail) := by
  cases items with
  | nil => exact ⟨[], blank_nil, rfl⟩
  | cons item rest => exact ⟨_, loose.line depth, rfl⟩

theorem render_obj (loose : spacing.Loose) (depth : Nat) (fields : Fields) (tail : List Char) :
    ∃ gaps, Blank gaps ∧ (obj fields).render spacing depth tail
      = '{' :: renderFields spacing (depth + 1) true fields (gaps ++ '}' :: tail) := by
  cases fields with
  | nil => exact ⟨[], blank_nil, rfl⟩
  | cons member rest => exact ⟨_, loose.line depth, rfl⟩

/-- Is a value read as it should be?  Only if it is read strictly. -/
def Restored (strict : Bool) (v x : Json) : Prop := strict = true → x = v

variable {strict : Bool} {fuel : Nat}

theorem scalar_number (strict : Bool) {c : Char} (h : c = '-' ∨ c.isDigit = true) :
    scalar strict c = number strict := by
  obtain ⟨-, -, -, -, quote, n, t, f⟩ := number_head h
  rw [scalar, if_pos h] <;> assumption

theorem int_takes {n : Int} (range : strict = true → InRange n) :
    (value strict (fuel + 1)).Takes spacing bound (.int n) (Restored strict (.int n)) := by
  intro depth gaps tail blank apart _
  obtain ⟨c, cs, eq, head⟩ := intText_eq_cons n
  obtain ⟨gap, -, bracket, brace, -⟩ := number_head head
  rw [value, render, eq, List.cons_append, run_bind_ok (token_blank_cons blank gap)]
  split
  · next h => cases h
  · next h => exact absurd (Option.some.inj h) bracket
  · next h => exact absurd (Option.some.inj h) brace
  · next h =>
    cases h
    rw [scalar_number strict head, ← List.cons_append, ← eq]
    cases strict with
    | true => exact ⟨_, number_intText (range rfl) apart, fun _ => rfl⟩
    | false => exact ⟨_, number_lenient_intText n apart, fun h => nomatch h⟩

theorem str_takes (text : String) :
    (value strict (fuel + 1)).Takes spacing bound (.str text) (Restored strict (.str text)) := by
  intro depth gaps tail blank apart _
  rw [value, render, stringText_append, run_bind_ok (token_blank_cons blank rfl)]
  refine ⟨.str text, ?_, fun _ => rfl⟩
  show StateT.run (skip >>= fun _ => string strict >>= _) _ = _
  rw [run_skip_bind, run_bind_ok (string_stringText strict text)]
  rfl

theorem arr_takes (loose : spacing.Loose) {items : List Json}
    (each : ∀ item ∈ items, item.NotFloat
      ∧ (value strict fuel).Takes spacing fuel item (Restored strict item.arranged)) :
    (value strict (fuel + 1)).Takes spacing (fuel + 1) (.arr items)
      (Restored strict (arr items).arranged) := by
  intro depth gaps tail blank apart below
  obtain ⟨gaps', blank', eq⟩ := render_arr loose depth items tail
  rw [eq, List.length_cons] at below
  obtain ⟨xs, run_xs, restored⟩ :=
    elements_takes (s := tail) loose each blank' (depth + 1) fuel true (by omega)
  rw [value, eq, run_bind_ok (token_blank_cons blank rfl)]
  refine ⟨.arr xs, ?_, fun h => ?_⟩
  · show StateT.run (skip >>= fun _ => elements (value strict fuel) fuel true >>= _) _ = _
    rw [run_skip_bind, run_bind_ok run_xs]
    rfl
  · have same : List.Forall₂ (· = ·) (items.map arranged) xs :=
      List.forall₂_map_left_iff.2 (restored.imp fun _ _ x => (x h).symm)
    rw [List.forall₂_eq_eq_eq] at same
    rw [arranged_arr, same]

/-- A reader that gives the value of a member puts it in its place. -/
theorem insert_takes (loose : spacing.Loose) {reader : Reader Json} {fields : Fields} {key : String}
    {v : Json} (taken : reader.Takes spacing bound v (Restored strict v.arranged)) :
    (do colon; return Fields.insert key (← reader) fields : Reader Fields).TakesMember spacing
      bound v fun fields' => strict = true → fields' = fields.insert key v.arranged :=
  takesMember_colon loose (taken.imp fun _ restored h => by rw [restored h])

theorem obj_takes (loose : spacing.Loose) {fields : Fields}
    (each : ∀ member ∈ fields,
      (value strict fuel).Takes spacing fuel member.2 (Restored strict member.2.arranged)) :
    (value strict (fuel + 1)).Takes spacing (fuel + 1) (.obj fields)
      (Restored strict (obj fields).arranged) := by
  intro depth gaps tail blank apart below
  obtain ⟨gaps', blank', eq⟩ := render_obj loose depth fields tail
  rw [eq, List.length_cons] at below
  -- What has been read becomes the whole object when the members to come are put into it.
  let Q (x rest : Fields) : Prop := rest <:+ fields ∧ (strict = true →
    rest.foldl (fun x member => Fields.insert member.1 member.2.arranged x) x
      = fields.foldl (fun x member => Fields.insert member.1 member.2.arranged x) [])
  have step : ∀ x key v rest, Q x ((key, v) :: rest) →
      (do colon; return Fields.insert key (← value strict fuel) x : Reader Fields).TakesMember
        spacing fuel v fun x' => Q x' rest := by
    rintro x key v rest ⟨suffix, whole⟩ depth tail apart below
    have taken := each (key, v) (suffix.subset List.mem_cons_self)
    obtain ⟨x', run_x', hx'⟩ := insert_takes loose taken depth tail apart below
    exact ⟨x', run_x', (List.suffix_cons _ _).trans suffix, fun h => by rw [hx' h]; exact whole h⟩
  obtain ⟨xs, run_xs, -, all⟩ := members_takes (s := tail) (x := []) (Q := Q) loose strict
    step blank' (depth + 1) fuel true (by omega) ⟨List.suffix_refl _, fun _ => rfl⟩
  rw [value, eq, run_bind_ok (token_blank_cons blank rfl)]
  refine ⟨.obj xs, ?_, fun h => ?_⟩
  · show StateT.run (skip >>= fun _ => members strict _ fuel true [] >>= _) _ = _
    rw [run_skip_bind, run_bind_ok run_xs]
    rfl
  · have whole : xs = _ := all h
    rw [arranged_obj, Fields.arranged, Fields.ofList, List.foldl_map, whole]

/-- **Reading a printed value gives the value with its members in order.**  Read loosely it is taken
as well; only the strict reader minds the range of numbers. -/
theorem value_takes_arranged (loose : spacing.Loose) (strict : Bool) (fuel : Nat) (v : Json)
    (float_free : v.FloatFree) (sized : strict = true → v.Every Sizable) :
    (value strict fuel).Takes spacing fuel v (Restored strict v.arranged) := by
  induction fuel generalizing v with
  | zero => exact fun _ _ _ _ _ below => absurd below (Nat.not_lt_zero _)
  | succ fuel ih =>
    match v with
    | .null | .bool true | .bool false =>
      intro depth gaps tail blank apart _
      rw [value, render, run_bind_ok (token_blank_cons blank rfl)]
      exact ⟨_, rfl, fun _ => rfl⟩
    | .float _ => exact float_free.elim
    | .int n => exact int_takes fun h => (sized h).self
    | .str text => exact str_takes text
    | .arr items =>
      have free := (every_arr.1 float_free).2
      exact arr_takes loose fun item hi =>
        ⟨(free item hi).self, ih item (free item hi) fun h => (every_arr.1 (sized h)).2 item hi⟩
    | .obj fields =>
      exact obj_takes loose fun member hm => ih member.2 ((every_obj.1 float_free).2 member hm)
        fun h => (every_obj.1 (sized h)).2 member hm

/-- **Reading a printed value gives the value**, if its members are in order. -/
theorem value_takes (loose : spacing.Loose) (strict : Bool) (fuel : Nat) (v : Json)
    (float_free : v.FloatFree) (canonical : strict = true → v.Canonical) :
    (value strict fuel).Takes spacing fuel v (Restored strict v) := by
  have arranged := value_takes_arranged loose strict fuel v float_free fun h =>
    sized_of_canonical (canonical h)
  exact arranged.imp fun x restored h => (restored h).trans (arranged_of_canonical (canonical h))

/-! ## Whole texts -/

/-- Blanks may stand behind a whole text. -/
theorem runAll_takes_blank (spacing : Spacing) {reader : Nat → Reader α} {v : Json} {x : α}
    (h : ∀ fuel, (reader fuel).Takes spacing fuel v (· = x)) (blank : Blank gaps) :
    runAll reader (String.ofList (v.render spacing 0 gaps)) = .ok x := by
  have apart : Apart gaps := List.append_nil gaps ▸ apart_blank blank (by rintro c ⟨⟩)
  obtain ⟨_, run_x, rfl⟩ := h ((v.render spacing 0 gaps).length + 1) 0 [] gaps blank_nil apart
    (Nat.lt_succ_self _)
  have run_finish : finish.run gaps = .ok ((), []) := by
    have run_token := token_blank (s := []) blank
    rw [List.append_nil] at run_token
    rw [finish, run_bind_ok run_token]
    rfl
  rw [List.nil_append] at run_x
  rw [runAll, String.toList_ofList, StateT.run'_eq, run_bind_ok run_x, run_bind_ok run_finish]
  rfl

theorem runAll_takes (spacing : Spacing) {reader : Nat → Reader α} {v : Json} {x : α}
    (h : ∀ fuel, (reader fuel).Takes spacing fuel v (· = x)) :
    runAll reader (String.ofList (v.render spacing 0 [])) = .ok x :=
  runAll_takes_blank spacing h blank_nil

end Reader

/-- **The text of a value is parsed as the value with its members in order**, whatever blanks stand
behind it. -/
theorem parse_render_arranged {spacing : Spacing} (loose : spacing.Loose) {v : Json}
    (legible : v.Legible) {gaps : List Char} (blank : Reader.Blank gaps) :
    parse (String.ofList (v.render spacing 0 gaps)) = .ok v.arranged :=
  Reader.runAll_takes_blank spacing (fun fuel =>
    (Reader.value_takes_arranged loose true fuel v legible.float_free fun _ => legible.sized).imp
      fun _ h => h rfl) blank

/-- **The text of a value is parsed as the value**, if its members are in order. -/
theorem parse_render {spacing : Spacing} (loose : spacing.Loose) {v : Json}
    (canonical : v.Canonical) (float_free : v.FloatFree) :
    parse (String.ofList (v.render spacing 0 [])) = .ok v := by
  have arranged := parse_render_arranged loose (Printable.legible ⟨canonical, float_free⟩)
    Reader.blank_nil
  rwa [arranged_of_canonical canonical] at arranged

/-- A text on several lines with the end of a line behind it. -/
theorem pretty_line (v : Json) : v.pretty ++ "\n" = String.ofList (v.render .wide 0 ['\n']) := by
  rw [← List.nil_append ['\n'], render_append, String.ofList_append, pretty]

end TreeRewrite.Json
