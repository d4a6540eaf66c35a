import TreeRewrite.Number.Binary64

/-!
# The shortest decimal that reads back

A float stands for all the reals that round to it, an interval around its value.  `shortest` gives
the decimal in that interval that needs the fewest digits, and of several the one nearest to the
value.  It tries the powers of ten downwards: if a multiple of `10 ^ k` lies in the interval, so
does one of the two multiples next to the value.

`FloatLayout.text` writes this decimal.  Which exponents are written without a power of ten is the
layout's choice.
-/

set_option autoImplicit false

namespace TreeRewrite

/-- A decimal `digits * 10 ^ exponent`. -/
structure Decimal where
  digits : Nat
  exponent : Int
deriving DecidableEq, Repr

namespace Magnitude

/-- The number of quarter steps from the lower end of the interval to the value: the step below a
power of two is half as long as the step above it. -/
def quartersBelow (m : Magnitude) : Nat :=
  if m.significand = significandBound / 2 ∧ leastExponent < m.exponent then 1 else 2

/-- `10 ^ k`, measured in quarter steps, as a ratio of natural numbers. -/
def powTenInQuarters (m : Magnitude) (k : Int) : Nat × Nat :=
  let e := m.exponent - 2
  ((power 10 k).1 * (power 2 e).2, (power 10 k).2 * (power 2 e).1)

/-- The multiple of `10 ^ k` nearest to the value among those that round to it. -/
def nearestMultiple? (m : Magnitude) (k : Int) : Option Nat :=
  let (a, b) := m.powTenInQuarters k
  let value := 4 * m.significand * b
  let low := value - m.quartersBelow * b
  let high := value + 2 * b
  let inside (c : Nat) : Bool :=
    if m.significand % 2 = 0 then low ≤ c * a && c * a ≤ high else low < c * a && c * a < high
  let down := value / a
  match inside down, inside (down + 1) with
  | true, true =>
    let below := value - down * a
    let above := (down + 1) * a - value
    some (if below < above then down else if above < below then down + 1 else down + down % 2)
  | true, false => some down
  | false, true => some (down + 1)
  | false, false => none

/-- A power of ten above the value, by its exponent. -/
def startPower (m : Magnitude) : Int :=
  ((m.significand.log2 : Int) + m.exponent + 1) * 30103 / 100000 + 1

/-- The shortest decimal that reads back as the magnitude. -/
def shortest (m : Magnitude) : Decimal :=
  let hit (i : Nat) : Option Decimal :=
    (m.nearestMultiple? (m.startPower - i)).map (⟨·, m.startPower - i⟩)
  ((List.range 20).findSome? hit).getD ⟨0, 0⟩

end Magnitude

/-! ## Laying out a float -/

/-- The range of decimal exponents whose numbers are written positionally; all others have one
digit before the point and a power of ten with a sign. -/
structure FloatLayout where
  lowest : Int
  highest : Int

namespace FloatLayout

/-- Digits with the point behind the one that counts `10 ^ 0`; at least one digit follows it. -/
def positional (digits : List Char) (exponent : Int) : List Char :=
  if exponent < 0 then '0' :: '.' :: (List.replicate (-exponent - 1).toNat '0' ++ digits)
  else
    let n := exponent.toNat + 1
    let fraction := digits.drop n
    digits.take n ++ List.replicate (n - digits.length) '0' ++
      '.' :: (if fraction.isEmpty then ['0'] else fraction)

/-- Digits with the point behind the first, times a power of ten. -/
def scientific (digits : List Char) (exponent : Int) : List Char :=
  let fraction := digits.drop 1
  digits.take 1 ++ (if fraction.isEmpty then [] else '.' :: fraction) ++
    'e' :: (if exponent < 0 then '-' else '+') :: Nat.toDigits 10 exponent.natAbs

/-- The text of a float. -/
def text (layout : FloatLayout) (x : Binary64) : List Char :=
  let sign := if x.negative then ['-'] else []
  if x.isZero then sign ++ ['0', '.', '0']
  else
    let d := x.size.shortest
    let digits := Nat.toDigits 10 d.digits
    let exponent := d.exponent + digits.length - 1
    sign ++ (if layout.lowest ≤ exponent ∧ exponent ≤ layout.highest
      then positional digits exponent else scientific digits exponent)

end FloatLayout

end TreeRewrite
