import TreeRewrite.Json.Reader
import TreeRewrite.Proofs.Json.Canonical

/-!
# Printed tokens are read back

The reader takes a printed number or string off the front of a text and gives what was printed,
whatever follows.  Behind a number something must follow that cannot belong to it.

## What is here

* `Reader.run_bind_ok` — readers are run one after the other.
* `Reader.Blank`, `Reader.Apart` — texts of blanks alone, and texts which no number goes on into.
* `Reader.numeral_intText`, `Reader.number_intText` — whole numbers.
* `Reader.string_stringText` — strings; `Reader.characters_escapeChar` is the case of one character.
-/

set_option autoImplicit false

namespace TreeRewrite.Json.Reader

variable {α β : Type} {s rest : List Char}

/-! ## Running readers -/

theorem run_bind_ok {reader : Reader α} {x : α} (h : reader.run s = .ok (x, rest))
    (next : α → Reader β) : (reader >>= next).run s = (next x).run rest := by
  rw [StateT.run_bind, h]
  rfl

theorem run_skip_bind (c : Char) (next : Unit → Reader β) :
    (skip >>= next).run (c :: s) = (next ()).run s := rfl

/-! ## Blanks -/

theorem eq_of_isGap {c : Char} (h : isGap c = true) : c = ' ' ∨ c = '\n' ∨ c = '\t' ∨ c = '\r' := by
  simpa only [isGap, Bool.or_eq_true, beq_iff_eq, or_assoc] using h

/-- Are there only blanks? -/
def Blank (gaps : List Char) : Prop := ∀ c ∈ gaps, isGap c = true

theorem blank_nil : Blank [] := fun _ h => nomatch h

theorem run_token : token.run s = .ok ((s.dropWhile isGap).head?, s.dropWhile isGap) := rfl

theorem token_blank {gaps : List Char} (h : Blank gaps) : token.run (gaps ++ s) = token.run s := by
  rw [run_token, List.dropWhile_append_of_pos h, run_token]

/-- A character that is no blank starts the next token. -/
theorem token_cons {c : Char} (h : isGap c = false) :
    token.run (c :: s) = .ok (some c, c :: s) := by
  rw [run_token, List.dropWhile_cons_of_neg (by simp [h])]
  rfl

theorem token_blank_cons {gaps : List Char} (blank : Blank gaps) {c : Char} (h : isGap c = false) :
    token.run (gaps ++ c :: s) = .ok (some c, c :: s) := by
  rw [token_blank blank, token_cons h]

/-! ## Numbers -/

/-- Does nothing stand in front that could belong to a number? -/
def Apart (s : List Char) : Prop :=
  ∀ c, s.head? = some c → c.isDigit = false ∧ c ≠ '.' ∧ c ≠ 'e' ∧ c ≠ 'E'

theorem apart_blank {gaps : List Char} (blank : Blank gaps) (h : Apart s) : Apart (gaps ++ s) := by
  cases gaps with
  | nil => exact h
  | cons c rest =>
    intro c' hc
    cases hc
    rcases eq_of_isGap (blank c List.mem_cons_self) with rfl | rfl | rfl | rfl <;> decide

theorem accept_none {cs : List Char} (h : ∀ c, s.head? = some c → c ∉ cs) :
    (accept cs).run s = .ok (none, s) := by
  cases s with
  | nil => rfl
  | cons c s =>
    show ((if cs.contains c then do set s; return some c else return none :
      Reader (Option Char))).run _ = _
    rw [if_neg (by simpa using h c rfl)]
    rfl

theorem digits_append {ds : List Char} (nonempty : ds ≠ []) (digit : ∀ c ∈ ds, c.isDigit = true)
    (apart : Apart s) (atEnd : Fault) : (digits atEnd).run (ds ++ s) = .ok (ds, s) := by
  have take : (ds ++ s).takeWhile Char.isDigit = ds := by
    rw [List.takeWhile_append_of_pos digit]
    cases s with
    | nil => simp
    | cons c s => rw [List.takeWhile_cons_of_neg (by simp [(apart c rfl).1]), List.append_nil]
  have drop : (ds ++ s).dropWhile Char.isDigit = s := by
    rw [List.dropWhile_append_of_pos digit]
    cases s with
    | nil => rfl
    | cons c s => rw [List.dropWhile_cons_of_neg (by simp [(apart c rfl).1])]
  obtain ⟨d, ds', rfl⟩ := List.exists_cons_of_ne_nil nonempty
  simp only [digits, StateT.run_bind, StateT.run_get, pure_bind, take, drop]
  rfl

theorem toDigits_eq_cons (n : Nat) :
    ∃ d ds, Nat.toDigits 10 n = d :: ds ∧ d.isDigit = true := by
  obtain ⟨d, ds, eq⟩ := List.exists_cons_of_ne_nil (Nat.toDigits_ne_nil (b := 10) (n := n))
  exact ⟨d, ds, eq, Nat.isDigit_of_mem_toDigits (by decide) (by decide) (eq ▸ List.mem_cons_self)⟩

/-- The text of a whole number starts with its sign or a digit. -/
theorem intText_eq_cons (n : Int) :
    ∃ c cs, intText n = c :: cs ∧ (c = '-' ∨ c.isDigit = true) := by
  rw [intText]
  split
  · exact ⟨_, _, rfl, .inl rfl⟩
  · obtain ⟨d, ds, eq, digit⟩ := toDigits_eq_cons n.natAbs
    exact ⟨d, ds, eq, .inr digit⟩

/-- A number above zero is not written with a zero in front. -/
theorem head?_toDigits_ne_zero {n : Nat} (h : n ≠ 0) : (Nat.toDigits 10 n).head? ≠ some '0' := by
  induction n using Nat.strongRecOn with
  | ind n ih =>
    rcases Nat.lt_or_ge n 10 with lt | le
    · rw [Nat.toDigits_of_lt_base lt]
      simpa using h
    · have front := ih (n / 10) (by omega) (by omega)
      obtain ⟨d, ds, eq, -⟩ := toDigits_eq_cons (n / 10)
      rw [Nat.toDigits_of_base_le (by decide) le, List.head?_append, eq]
      rwa [eq] at front

theorem no_zero_in_front (n : Nat) :
    ¬((Nat.toDigits 10 n).length ≠ 1 ∧ (Nat.toDigits 10 n).head? = some '0') := by
  rintro ⟨long, zero⟩
  rcases Nat.eq_zero_or_pos n with rfl | pos
  · exact long rfl
  · exact head?_toDigits_ne_zero (Nat.ne_of_gt pos) zero

theorem accept_sign (n : Int) :
    ∃ taken, (accept ['-']).run (intText n ++ s) = .ok (taken, Nat.toDigits 10 n.natAbs ++ s)
      ∧ taken.isSome = decide (n < 0) := by
  rw [intText]
  split
  · next negative => exact ⟨some '-', rfl, (decide_eq_true negative).symm⟩
  · next nonnegative =>
    refine ⟨none, accept_none fun c hc minus => ?_, (decide_eq_false nonnegative).symm⟩
    obtain ⟨d, ds, eq, digit⟩ := toDigits_eq_cons n.natAbs
    rw [eq] at hc
    cases hc
    rw [List.mem_singleton.1 minus] at digit
    exact absurd digit (by decide)

/-- The digits of a whole number are read as a numeral without fraction and exponent. -/
theorem numeral_intText (n : Int) (apart : Apart s) (atEnd : Fault) :
    (numeral atEnd).run (intText n ++ s)
      = .ok (⟨decide (n < 0), Nat.toDigits 10 n.natAbs, [], none⟩, s) := by
  obtain ⟨taken, sign, negative⟩ := accept_sign (s := s) n
  have whole : (digits atEnd).run (Nat.toDigits 10 n.natAbs ++ s)
      = .ok (Nat.toDigits 10 n.natAbs, s) :=
    digits_append Nat.toDigits_ne_nil
      (fun c hc => Nat.isDigit_of_mem_toDigits (by decide) (by decide) hc) apart atEnd
  have no_point : (accept ['.']).run s = .ok (none, s) :=
    accept_none fun c hc => by simpa using (apart c hc).2.1
  have no_exponent : (accept ['e', 'E']).run s = .ok (none, s) :=
    accept_none fun c hc => by simpa using (apart c hc).2.2
  rw [numeral, run_bind_ok sign, run_bind_ok whole]
  simp only [if_neg (no_zero_in_front n.natAbs)]
  rw [pure_bind, run_bind_ok no_point, run_bind_ok no_exponent, negative]
  rfl

/-- The digits of a number give the number back. -/
theorem digitsValue_toDigits (n : Nat) : digitsValue (Nat.toDigits 10 n) = n :=
  Nat.ofDigitChars_ten_toDigits

theorem int?_toDigits {n : Int} (range : InRange n) :
    Numeral.int? ⟨decide (n < 0), Nat.toDigits 10 n.natAbs, [], none⟩ = some n := by
  simp only [InRange, UInt64.size] at range
  simp only [Numeral.int?, digitsValue_toDigits, UInt64.size]
  by_cases negative : n < 0
  · simp only [negative, decide_true, if_true]
    rw [if_neg (by decide), if_pos (by omega)]
    congr 1
    omega
  · simp only [negative, decide_false, Bool.false_eq_true, if_false]
    rw [if_neg (by decide), if_pos (by omega)]
    congr 1
    omega

theorem number_intText {n : Int} (range : InRange n) (apart : Apart s) :
    (number true).run (intText n ++ s) = .ok (.int n, s) := by
  rw [number, if_pos rfl, run_bind_ok (numeral_intText n apart _), Numeral.value?,
    int?_toDigits range]
  rfl

theorem number_lenient_intText (n : Int) (apart : Apart s) :
    (number false).run (intText n ++ s) = .ok (.null, s) := by
  rw [number, if_neg Bool.false_ne_true, run_bind_ok (numeral_intText n apart _)]
  rfl

/-! ## Strings -/

theorem hexValue?_hexDigit : ∀ n < 16, hexValue? (hexDigit n) = some n := by decide

theorem hexFour_hexDigit {n : Nat} (h : n < 256) :
    hexFour ('0' :: '0' :: hexDigit (n / 16) :: hexDigit (n % 16) :: s) = .ok (n, s) := by
  have zero : hexValue? '0' = some 0 := by decide
  simp only [hexFour, zero, hexValue?_hexDigit (n / 16) (by omega),
    hexValue?_hexDigit (n % 16) (by omega), Except.ok.injEq, Prod.mk.injEq, and_true]
  omega

theorem characters_backslash {strict : Bool} {read : List Char} {c : Char} {escaped : List Char}
    (h : escape strict escaped = .ok (c, rest)) :
    characters strict read ('\\' :: escaped) = characters strict (c :: read) rest := by
  rw [characters, if_neg (by decide), if_pos rfl]
  split <;> simp_all

/-- The escape of a character is read as the character. -/
theorem characters_escapeChar (strict : Bool) (read : List Char) (c : Char) :
    characters strict read (escapeChar c ++ s) = characters strict (c :: read) s := by
  unfold escapeChar
  split
  case h_8 c quote backslash _ _ _ _ _ =>
    split
    · next control =>
      refine characters_backslash ?_
      show escape strict ('u' :: '0' :: '0' :: _ :: _ :: s) = _
      rw [escape, hexFour_hexDigit (by omega)]
      simp only [Char.ofNat_toNat]
      rw [if_pos (.inr (.inl (by omega)))]
    · next plain =>
      rw [List.singleton_append, characters, if_neg quote, if_neg backslash, if_neg plain]
  all_goals exact characters_backslash rfl

theorem characters_flatMap (strict : Bool) (read cs : List Char) :
    characters strict read (cs.flatMap escapeChar ++ '"' :: s) = .ok (read.reverse ++ cs, s) := by
  induction cs generalizing read with
  | nil => rw [List.flatMap_nil, List.nil_append, characters, if_pos rfl, List.append_nil]
  | cons c cs ih =>
    rw [List.flatMap_cons, List.append_assoc, characters_escapeChar, ih, List.reverse_cons,
      List.append_assoc, List.singleton_append]

theorem stringText_append (text : String) :
    stringText text ++ s = '"' :: (text.toList.flatMap escapeChar ++ '"' :: s) := by
  rw [stringText, List.cons_append, List.cons_append, List.append_assoc, List.singleton_append]

/-- A string is read from what stands behind its opening quote. -/
theorem string_stringText (strict : Bool) (text : String) :
    (string strict).run (text.toList.flatMap escapeChar ++ '"' :: s) = .ok (text, s) := by
  simp only [string, StateT.run_bind, StateT.run_get, pure_bind, characters_flatMap]
  show Except.ok (String.ofList (List.nil.reverse ++ text.toList), s) = _
  rw [List.reverse_nil, List.nil_append, String.ofList_toList]

end TreeRewrite.Json.Reader
