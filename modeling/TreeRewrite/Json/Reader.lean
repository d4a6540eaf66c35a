import TreeRewrite.Json.Fault

/-!
# Reading JSON text

A `Reader` takes characters from the front of a text and stops at the first fault, so of two faults
the one that comes first in the text is reported.

* `number`, `string`, `value` — the grammar.  A number without fraction and exponent is an integer
  if it lies in `-2 ^ 63 … 2 ^ 64 - 1`; every other number, and `-0`, is a float.
* `elements`, `members` — the loops over an array and over an object, for any reader of the parts.
* `mismatch` — reads the scalar that stands where something else is expected, and refuses it.

Text whose value is not wanted is read by the same grammar with `strict := false`: it must be well
formed, but the range of its numbers and the pairing of its surrogates do not matter.

The readers that recurse on nested text are bounded by a number that the length of the text always
covers, for every step takes a character.
-/

set_option autoImplicit false

namespace TreeRewrite.Json

/-- A reader of the front of a text. -/
abbrev Reader := StateT (List Char) (Except Fault)

namespace Reader

/-- Drops the next character. -/
def skip : Reader Unit := modify List.tail

/-- Is the character a blank between tokens? -/
def isGap (c : Char) : Bool := c == ' ' || c == '\n' || c == '\t' || c == '\r'

/-- The first character of the next token, which stays in place. -/
def token : Reader (Option Char) := do
  modify (·.dropWhile isGap)
  return (← get).head?

/-- Nothing but blanks may follow. -/
def finish : Reader Unit := do
  if (← token).isSome then throw .malformed

/-- The rest of one of the words `null`, `true` and `false`. -/
def word : List Char → Reader Unit
  | [] => return
  | expected :: rest => do
    match ← get with
    | [] => throw .truncated
    | c :: _ => if c = expected then do skip; word rest else throw .malformed

/-! ## Numbers -/

/-- A number as it is written. -/
structure Numeral where
  negative : Bool
  whole : List Char
  fraction : List Char
  /-- The power of ten, if one is written. -/
  exponent : Option Int

/-- The value of decimal digits. -/
def digitsValue (digits : List Char) : Nat :=
  digits.foldl (fun n c => 10 * n + (c.toNat - '0'.toNat)) 0

/-- Continues `kept` by digits as long as it fits into 64 bits; also counts the digits left over. -/
def keepDigits (kept : Nat) : List Char → Nat × Nat
  | [] => (kept, 0)
  | c :: rest =>
    let more := 10 * kept + (c.toNat - '0'.toNat)
    if more < UInt64.size then keepDigits more rest else (kept, rest.length + 1)

/-- The float that a numeral is read as, from those leading digits that fit into 64 bits. -/
def Numeral.float? (n : Numeral) : Option Binary64 :=
  let (whole, dropped) := keepDigits 0 n.whole
  let (digits, unread) := keepDigits whole n.fraction
  let fraction := n.fraction.length - unread
  Binary64.ofDecimal n.negative digits (dropped - fraction + n.exponent.getD 0)

/-- The integer that a numeral is read as, if it is one. -/
def Numeral.int? (n : Numeral) : Option Int :=
  let size := digitsValue n.whole
  if !n.fraction.isEmpty || n.exponent.isSome then none
  else if n.negative then if 0 < size ∧ size ≤ UInt64.size / 2 then some (-size) else none
  else if size < UInt64.size then some size else none

/-- The value of a numeral; none if it is too large for a float. -/
def Numeral.value? (n : Numeral) : Option Json :=
  match n.int? with
  | some i => some (.int i)
  | none => n.float?.map .float

/-- The digits in front, at least one.  `atEnd` says what is wrong where the text ends instead. -/
def digits (atEnd : Fault) : Reader (List Char) := do
  let s ← get
  match s.takeWhile Char.isDigit with
  | [] => throw (if s.isEmpty then atEnd else .malformed)
  | ds => set (s.dropWhile Char.isDigit); return ds

/-- Takes the next character if it is among those given. -/
def accept (cs : List Char) : Reader (Option Char) := do
  match ← get with
  | c :: rest => if cs.contains c then do set rest; return some c else return none
  | [] => return none

/-- A number: no zero in front of other digits, and digits on both sides of the point. -/
def numeral (atEnd : Fault) : Reader Numeral := do
  let negative := (← accept ['-']).isSome
  let whole ← digits atEnd
  if whole.length ≠ 1 ∧ whole.head? = some '0' then throw .malformed
  let fraction ← match ← accept ['.'] with
    | some _ => digits atEnd
    | none => pure []
  let exponent ← match ← accept ['e', 'E'] with
    | some _ => do
      let below := (← accept ['+', '-']) == some '-'
      let size := digitsValue (← digits atEnd)
      pure (some (if below then -(size : Int) else size))
    | none => pure none
  return { negative, whole, fraction, exponent }

/-- The value of a number. -/
def number (strict : Bool) : Reader Json := do
  if strict then
    match (← numeral .truncated).value? with
    | some v => return v
    | none => throw .malformed
  else
    let _ ← numeral .malformed
    return .null

/-! ## Strings -/

/-- The value of a hexadecimal digit of either case. -/
def hexValue? (c : Char) : Option Nat :=
  if c.isDigit then some (c.toNat - '0'.toNat)
  else if 'a' ≤ c ∧ c ≤ 'f' then some (c.toNat - 'a'.toNat + 10)
  else if 'A' ≤ c ∧ c ≤ 'F' then some (c.toNat - 'A'.toNat + 10)
  else none

/-- Four hexadecimal digits.  The text has ended too early if fewer than four bytes are left. -/
def hexFour : List Char → Except Fault (Nat × List Char)
  | a :: b :: c :: d :: rest =>
    match hexValue? a, hexValue? b, hexValue? c, hexValue? d with
    | some a, some b, some c, some d => .ok (((a * 16 + b) * 16 + c) * 16 + d, rest)
    | _, _, _, _ => .error .malformed
  | short => .error (if (String.ofList short).utf8ByteSize < 4 then .truncated else .malformed)

/-- The character that a letter behind a backslash stands for. -/
def escapeLetter? : Char → Option Char
  | '"' => some '"'
  | '\\' => some '\\'
  | '/' => some '/'
  | 'b' => some '\x08'
  | 'f' => some '\x0c'
  | 'n' => some '\n'
  | 'r' => some '\r'
  | 't' => some '\t'
  | _ => none

/-- The character behind the first half `high` of a surrogate pair: the other half must follow. -/
def lowSurrogate (high : Nat) : List Char → Except Fault (Char × List Char)
  | [] => .error .truncated
  | ['\\'] => .error .truncated
  | '\\' :: 'u' :: rest =>
    match hexFour rest with
    | .error fault => .error fault
    | .ok (low, rest) =>
      if 0xdc00 ≤ low ∧ low ≤ 0xdfff then
        .ok (Char.ofNat (0x10000 + (high - 0xd800) * 0x400 + (low - 0xdc00)), rest)
      else .error .malformed
  | _ => .error .malformed

/-- The character behind a backslash. -/
def escape (strict : Bool) : List Char → Except Fault (Char × List Char)
  | [] => .error .truncated
  | 'u' :: rest =>
    match hexFour rest with
    | .error fault => .error fault
    | .ok (n, rest) =>
      if !strict ∨ n < 0xd800 ∨ 0xdfff < n then .ok (Char.ofNat n, rest)
      else if 0xdc00 ≤ n then .error .malformed
      else lowSurrogate n rest
  | c :: rest =>
    match escapeLetter? c with
    | some d => .ok (d, rest)
    | none => .error .malformed

theorem hexFour_length {s rest : List Char} {n : Nat} (h : hexFour s = .ok (n, rest)) :
    rest.length < s.length := by
  unfold hexFour at h
  split at h
  · split at h
    · cases h; simp only [List.length_cons]; omega
    · cases h
  · cases h

theorem lowSurrogate_length {high : Nat} {s rest : List Char} {c : Char}
    (h : lowSurrogate high s = .ok (c, rest)) : rest.length < s.length := by
  unfold lowSurrogate at h
  split at h
  · cases h
  · cases h
  · split at h
    · cases h
    · next eq =>
      have := hexFour_length eq
      split at h
      · simp only [Except.ok.injEq, Prod.mk.injEq] at h
        simp only [List.length_cons, ← h.2]; omega
      · cases h
  · cases h

/-- An escape takes at least one character. -/
theorem escape_length {strict : Bool} {s rest : List Char} {c : Char}
    (h : escape strict s = .ok (c, rest)) : rest.length < s.length := by
  unfold escape at h
  split at h
  · cases h
  · split at h
    · cases h
    · next eq =>
      have := hexFour_length eq
      split at h
      · cases h; simp only [List.length_cons]; omega
      · split at h
        · cases h
        · have := lowSurrogate_length h
          simp only [List.length_cons]; omega
  · split at h
    · cases h; simp
    · cases h

/-- The characters of a string up to its closing quote, behind those already read, which stand in
reverse.  Control characters must be escaped. -/
def characters (strict : Bool) (read : List Char) :
    List Char → Except Fault (List Char × List Char)
  | [] => .error .truncated
  | c :: rest =>
    if c = '"' then .ok (read.reverse, rest)
    else if c = '\\' then
      match _h : escape strict rest with
      | .error fault => .error fault
      | .ok (d, rest') => characters strict (d :: read) rest'
    else if c.toNat < 0x20 then .error .malformed
    else characters strict (c :: read) rest
termination_by s => s.length
decreasing_by
  · have := escape_length _h
    simp only [List.length_cons]; omega
  · simp

/-- A string whose opening quote has been read. -/
def string (strict : Bool) : Reader String := do
  let (cs, rest) ← (characters strict [] (← get) : Except Fault _)
  set rest
  return String.ofList cs

/-! ## Arrays and objects -/

/-- Stands another item before the end of the array?  Takes the comma in front of it. -/
def moreItems (first : Bool) : Reader Bool := do
  match ← token with
  | none => throw .truncated
  | some ']' => return false
  | some c =>
    if first then return true
    else if c = ',' then do
      skip
      match ← token with
      | none => throw .truncated
      | some ']' => throw .malformed
      | some _ => return true
    else throw .malformed

/-- The items of an array whose bracket has been read, up to and with its end. -/
def elements {α : Type} (item : Reader α) : Nat → Bool → Reader (List α)
  | 0, _ => throw .truncated
  | fuel + 1, first => do
    if ← moreItems first then do
      let x ← item
      let rest ← elements item fuel false
      return x :: rest
    else do
      skip
      return []

/-- Stands another member before the end of the object?  Takes the comma and the quote in front of
its key. -/
def moreMembers (first : Bool) : Reader Bool := do
  match ← token with
  | none => throw .truncated
  | some '}' => return false
  | some c =>
    if first then openKey (some c)
    else if c = ',' then do
      skip
      openKey (← token)
    else throw .malformed
where
  /-- A key starts with a quote. -/
  openKey : Option Char → Reader Bool
    | none => throw .truncated
    | some '"' => do
      skip
      return true
    | some _ => throw .malformed

/-- The colon between a key and its value. -/
def colon : Reader Unit := do
  match ← token with
  | none => throw .truncated
  | some ':' => skip
  | some _ => throw .malformed

/-- The members of an object whose brace has been read, up to and with its end.  `member` reads
what follows a key, from the colon on. -/
def members {σ : Type} (strict : Bool) (member : σ → String → Reader σ) :
    Nat → Bool → σ → Reader σ
  | 0, _, _ => throw .truncated
  | fuel + 1, first, s => do
    if ← moreMembers first then do
      let key ← string strict
      let s' ← member s key
      members strict member fuel false s'
    else do
      skip
      return s

/-! ## Values -/

/-- A value other than an array or object, which starts with `c`. -/
def scalar (strict : Bool) (c : Char) : Reader Json :=
  match c with
  | '"' => do
    skip
    return .str (← string strict)
  | 'n' => do
    word ['n', 'u', 'l', 'l']
    return .null
  | 't' => do
    word ['t', 'r', 'u', 'e']
    return .bool true
  | 'f' => do
    word ['f', 'a', 'l', 's', 'e']
    return .bool false
  | c => if c = '-' ∨ c.isDigit then number strict else throw .malformed

/-- A value. -/
def value (strict : Bool) : Nat → Reader Json
  | 0 => throw .truncated
  | fuel + 1 => do
    match ← token with
    | none => throw .truncated
    | some '[' => do
      skip
      return .arr (← elements (value strict fuel) fuel true)
    | some '{' => do
      skip
      let member (fields : Fields) (key : String) : Reader Fields := do
        colon
        return fields.insert key (← value strict fuel)
      return .obj (← members strict member fuel true [])
    | some c => scalar strict c

/-- Refuses what stands where something else is expected; a scalar is read first, and a fault in
it wins. -/
def mismatch {α : Type} (expected : String) : Reader α := do
  match ← token with
  | none => throw .truncated
  | some '[' => throw (.mismatch (.wrongType .sequence expected))
  | some '{' => throw (.mismatch (.wrongType .map expected))
  | some c => do
    let v ← scalar true c
    throw (.mismatch (.wrongType v.found expected))

/-- Applies a reader that may recurse as deep as the text is long to a whole text. -/
def runAll {α : Type} (reader : Nat → Reader α) (s : String) : Except Fault α :=
  let cs := s.toList
  (do
    let x ← reader (cs.length + 1)
    finish
    return x : Reader α).run' cs

end Reader

/-- The value of a JSON text. -/
def parse (s : String) : Except Fault Json := Reader.runAll (Reader.value true) s

end TreeRewrite.Json
