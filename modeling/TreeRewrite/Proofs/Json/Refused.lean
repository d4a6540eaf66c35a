import TreeRewrite.Proofs.Json.Parsed
import TreeRewrite.Proofs.Json.Printed

/-!
# Printed values that are refused

A reader of data takes the printed values of one shape and has to refuse all others.  It may find
out late: whatever stands in front of the first wrong part is taken.  So what is said here goes
together with what is said about printed values that are taken.

## What is here

* `Json.render_opens` — the first character of a printed value tells strings, arrays and objects
  from all else.
* `Reader.Fails` — a reader gives no result on a text, with the rules for readers that run one after
  the other.
* `Reader.Refuses` — a reader fails on a printed value, wherever it stands.
* `Reader.Follows` — a reader takes a printed value as what a decoder makes of the value, and
  refuses it if the decoder does.
* `Reader.elements_refuses`, `Reader.members_refuses` — the loops over an array and an object, for
  any reader of the parts.
* `Reader.runAll_refuses` — whole texts.
-/

set_option autoImplicit false

namespace TreeRewrite.Json

/-- The first character of a printed value is no blank, and it tells which values are strings,
arrays and objects. -/
theorem render_opens {spacing : Spacing} (loose : spacing.Loose) {v : Json} (h : v.NotFloat)
    (depth : Nat) (tail : List Char) : ∃ c cs, v.render spacing depth tail = c :: cs
      ∧ Reader.isGap c = false ∧ (c = '"' → ∃ s, v = .str s) ∧ (c = '[' → ∃ items, v = .arr items)
      ∧ (c = '{' → ∃ fields, v = .obj fields) := by
  match v with
  | .float _ => exact h.elim
  | .int n =>
    obtain ⟨c, cs, eq, head⟩ := Reader.intText_eq_cons n
    obtain ⟨gap, -, bracket, brace, quote, -⟩ := number_head head
    exact ⟨c, cs ++ tail, by rw [render, eq, List.cons_append], gap,
      fun h => absurd h quote, fun h => absurd h bracket, fun h => absurd h brace⟩
  | .null | .bool true | .bool false =>
    exact ⟨_, _, rfl, rfl, fun h => absurd h (by decide), fun h => absurd h (by decide),
      fun h => absurd h (by decide)⟩
  | .str s =>
    exact ⟨_, _, Reader.stringText_append s, rfl, fun _ => ⟨s, rfl⟩, fun h => absurd h (by decide),
      fun h => absurd h (by decide)⟩
  | .arr items =>
    obtain ⟨_, -, eq⟩ := Reader.render_arr loose depth items tail
    exact ⟨_, _, eq, rfl, fun h => absurd h (by decide), fun _ => ⟨items, rfl⟩,
      fun h => absurd h (by decide)⟩
  | .obj fields =>
    obtain ⟨_, -, eq⟩ := Reader.render_obj loose depth fields tail
    exact ⟨_, _, eq, rfl, fun h => absurd h (by decide), fun h => absurd h (by decide),
      fun _ => ⟨fields, rfl⟩⟩

namespace Reader

variable {α β σ : Type} {reader : Reader α} {s rest : List Char}

/-! ## Readers that fail -/

/-- Gives the reader no result on the text? -/
def Fails (reader : Reader α) (s : List Char) : Prop := ∀ result, reader.run s ≠ .ok result

theorem fails_throw (fault : Fault) (s : List Char) : (throw fault : Reader α).Fails s := nofun

/-- What fails first, fails. -/
theorem Fails.bind (h : reader.Fails s) (next : α → Reader β) : (reader >>= next).Fails s := by
  intro result ok
  rw [StateT.run_bind] at ok
  obtain ⟨p, run_p, -⟩ := bind_eq_ok.1 ok
  exact h p run_p

theorem fails_bind_ok {x : α} {next : α → Reader β} (h : reader.run s = .ok (x, rest))
    (later : (next x).Fails rest) : (reader >>= next).Fails s := by
  intro result ok
  rw [run_bind_ok h] at ok
  exact later result ok

theorem fails_skip_bind {next : Unit → Reader β} (h : (next ()).Fails s) (c : Char) :
    (skip >>= next).Fails (c :: s) := h

theorem Fails.exists_fault (h : reader.Fails s) : ∃ fault, reader.run s = .error fault := by
  cases run : reader.run s with
  | ok result => exact absurd run (h result)
  | error fault => exact ⟨fault, rfl⟩

/-- What stands where something else is expected is refused, whatever it is. -/
theorem mismatch_fails (expected : String) (s : List Char) :
    (mismatch expected : Reader α).Fails s := fun (x, rest) run =>
  mismatch_yields (P := fun _ => False) expected s x rest run

/-- A reader that looks for a character first fails where another one stands. -/
theorem fails_unless {taken : Reader α} {c opening : Char} {gaps : List Char} (blank : Blank gaps)
    (gap : isGap c = false) (other : c ≠ opening) (expected : String) :
    (do if (← token) = some opening then taken else mismatch expected : Reader α).Fails
      (gaps ++ c :: s) := by
  refine fails_bind_ok (token_blank_cons blank gap) ?_
  rw [if_neg fun h => other (Option.some.inj h)]
  exact mismatch_fails expected _

/-! ## Refusing printed values -/

/-- A reader fails on every text with the printed value in front. -/
def Refuses (reader : Reader α) (spacing : Spacing) (bound : Nat) (v : Json) : Prop :=
  ∀ (depth : Nat) (gaps tail : List Char), Blank gaps → Apart tail →
    (v.render spacing depth tail).length < bound →
    reader.Fails (gaps ++ v.render spacing depth tail)

variable {spacing : Spacing} {bound : Nat} {gaps : List Char}

/-- A reader does with the printed value what a decoder does with the value. -/
structure Follows (reader : Reader α) (decode : Json → Except Mismatch α) (spacing : Spacing)
    (bound : Nat) (v : Json) : Prop where
  takes : ∀ x, decode v = .ok x → reader.Takes spacing bound v (· = x)
  refuses : ∀ m, decode v = .error m → reader.Refuses spacing bound v

/-- One item of an array: there is one, and if the reader that goes on with it follows a decoder,
then all fails as long as what comes behind the item fails if the decoder accepts it. -/
theorem item_fails (loose : spacing.Loose) {item : Reader α} {decode : Json → Except Mismatch α}
    {v : Json} (follows : item.Follows decode spacing bound v) (not_float : v.NotFloat)
    (blank : Blank gaps) (depth : Nat) (first : Bool) (rest : List Json)
    (h : (renderItems spacing depth first (v :: rest) (gaps ++ ']' :: s)).length < bound)
    {next : α → Reader β} {onward : Bool → Reader β} (goes_on : onward true = item >>= next)
    (later : ∀ x, decode v = .ok x →
      (next x).Fails (renderItems spacing depth false rest (gaps ++ ']' :: s))) :
    (moreItems first >>= onward).Fails
      (renderItems spacing depth first (v :: rest) (gaps ++ ']' :: s)) := by
  have shorter := length_render_le_renderItems spacing v depth first rest (gaps ++ ']' :: s)
  have apart := apart_close (s := s) spacing blank depth rest
  refine fails_bind_ok (moreItems_cons loose not_float depth first rest _) ?_
  rw [goes_on]
  cases decoded : decode v with
  | error m => exact (follows.refuses m decoded depth [] _ blank_nil apart (by omega)).bind _
  | ok x =>
    obtain ⟨_, run_x, rfl⟩ := follows.takes x decoded depth [] _ blank_nil apart (by omega)
    exact fails_bind_ok run_x (later _ decoded)

/-- **Arrays.**  If a reader refuses one of the items and takes those that it does not refuse, the
loop over the array fails. -/
theorem elements_refuses (loose : spacing.Loose) {item : Reader α} {items : List Json}
    (each : ∀ v ∈ items, v.NotFloat ∧ ((item.Takes spacing bound v fun _ => True)
      ∨ item.Refuses spacing bound v))
    (one : ∃ v ∈ items, item.Refuses spacing bound v) (blank : Blank gaps) (depth fuel : Nat)
    (first : Bool)
    (h : (renderItems spacing depth first items (gaps ++ ']' :: s)).length < min fuel bound) :
    (elements item fuel first).Fails
      (renderItems spacing depth first items (gaps ++ ']' :: s)) := by
  induction items generalizing fuel first with
  | nil => exact nomatch one
  | cons v rest ih =>
    obtain ⟨fuel, rfl⟩ : ∃ n, fuel = n + 1 := ⟨fuel - 1, by omega⟩
    obtain ⟨⟨not_float, here⟩, each⟩ := List.forall_mem_cons.1 each
    have shorter := length_renderItems_lt spacing v not_float depth first rest (gaps ++ ']' :: s)
    have shorter' := length_render_le_renderItems spacing v depth first rest (gaps ++ ']' :: s)
    have apart := apart_close (s := s) spacing blank depth rest
    rw [elements]
    refine fails_bind_ok (moreItems_cons loose not_float depth first rest _) ?_
    by_cases refuses : item.Refuses spacing bound v
    · exact (refuses depth [] _ blank_nil apart (by omega)).bind _
    · -- The item is taken, so that the one which is refused comes later.
      have later : ∃ v ∈ rest, item.Refuses spacing bound v := by
        obtain ⟨w, mem, hw⟩ := one
        rcases List.mem_cons.1 mem with rfl | mem
        · exact absurd hw refuses
        · exact ⟨w, mem, hw⟩
      obtain ⟨x, run_x, -⟩ := here.resolve_right refuses depth [] _ blank_nil apart (by omega)
      exact fails_bind_ok run_x ((ih each later fuel false (by omega)).bind _)

/-- A reader fails on every text with the colon and the printed value in front. -/
def RefusesMember (reader : Reader α) (spacing : Spacing) (bound : Nat) (v : Json) : Prop :=
  ∀ (depth : Nat) (tail : List Char), Apart tail → (v.render spacing depth tail).length < bound →
    reader.Fails (spacing.colon ++ v.render spacing depth tail)

/-- **Objects.**  If a relation between what has been made of the members so far and the members to
come never holds when no more are to come, and is kept by the reader of members unless this refuses
the member, the loop over the object fails. -/
theorem members_refuses (loose : spacing.Loose) {member : σ → String → Reader σ} (strict : Bool)
    {Q : σ → Fields → Prop} (unfinished : ∀ x, ¬ Q x [])
    (step : ∀ x key v rest, Q x ((key, v) :: rest) →
      (member x key).RefusesMember spacing bound v
        ∨ (member x key).TakesMember spacing bound v fun x' => Q x' rest)
    (blank : Blank gaps) (depth fuel : Nat) (first : Bool) {x : σ} {fields : Fields}
    (h : (renderFields spacing depth first fields (gaps ++ '}' :: s)).length < min fuel bound)
    (start : Q x fields) :
    (members strict member fuel first x).Fails
      (renderFields spacing depth first fields (gaps ++ '}' :: s)) := by
  induction fields generalizing fuel first x with
  | nil => exact absurd start (unfinished x)
  | cons entry rest ih =>
    obtain ⟨fuel, rfl⟩ : ∃ n, fuel = n + 1 := ⟨fuel - 1, by omega⟩
    obtain ⟨key, v⟩ := entry
    have shorter := length_render_lt_renderFields spacing key v depth first rest (gaps ++ '}' :: s)
    have shorter' := length_le_render spacing v depth
      (renderFields spacing depth false rest (gaps ++ '}' :: s))
    have apart := apart_brace (s := s) spacing blank depth rest
    rw [Fails, run_members_cons loose]
    obtain refuses | takes := step x key v rest start
    · exact (refuses depth _ apart (by omega)).bind _
    · obtain ⟨x₁, run_x₁, hx₁⟩ := takes depth _ apart (by omega)
      exact fails_bind_ok run_x₁ (ih fuel false (by omega) hx₁)

theorem refusesMember_colon (loose : spacing.Loose) {f : α → β} {v : Json}
    (h : reader.Refuses spacing bound v) :
    (do colon; return f (← reader) : Reader β).RefusesMember spacing bound v := by
  intro depth tail apart below
  obtain ⟨gap, blank, eq⟩ := loose.colon
  rw [eq, List.cons_append]
  exact fails_bind_ok run_colon ((h depth gap tail blank apart below).bind _)

/-- A whole text is refused if the value that it is the text of is refused. -/
theorem runAll_refuses {reader : Nat → Reader α} {v : Json}
    (h : ∀ fuel, (reader fuel).Refuses spacing fuel v) :
    ∃ fault, runAll reader (String.ofList (v.render spacing 0 [])) = .error fault := by
  obtain ⟨fault, run⟩ := (h ((v.render spacing 0 []).length + 1) 0 [] [] blank_nil (by rintro c ⟨⟩)
    (Nat.lt_succ_self _)).exists_fault
  rw [List.nil_append] at run
  rw [runAll, String.toList_ofList, StateT.run'_eq, StateT.run_bind, run]
  exact ⟨fault, rfl⟩

end Reader

end TreeRewrite.Json
