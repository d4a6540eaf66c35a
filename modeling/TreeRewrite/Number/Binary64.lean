/-!
# Binary floating-point numbers, exactly

A finite 64-bit float is a sign and a magnitude `significand * 2 ^ exponent` with a significand
below `2 ^ 53`.  Everything here is arithmetic on `Nat` and `Int`: no machine float is involved, so
equality of floats is equality of data and every function can be computed with in a proof.

* `Magnitude.ofRatio` rounds a positive ratio to the nearest magnitude, a half to the even
  neighbour, and refuses what is too large.
* `Binary64.ofDecimal` is how a decimal `digits * 10 ^ exponent` is read: digits and power of ten
  are each rounded, and so is their product or quotient.  For digits up to `2 ^ 53` and powers up to
  `10 ^ 22` this is the nearest float; beyond that it may be its neighbour.
-/

set_option autoImplicit false

namespace TreeRewrite

/-- The size of a finite float, `significand * 2 ^ exponent`.  Those that `ofRatio` gives have a
significand of exactly 53 bits or else the least exponent. -/
structure Magnitude where
  significand : Nat
  exponent : Int
deriving DecidableEq, Repr

namespace Magnitude

/-- The exponent of the smallest steps, those between the subnormal numbers. -/
def leastExponent : Int := -1074

/-- The exponent of the largest steps. -/
def greatestExponent : Int := 971

/-- The size of the number zero. -/
def zero : Magnitude := ⟨0, leastExponent⟩

/-- What all significands are below, `2 ^ 53`. -/
def significandBound : Nat := Nat.pow 2 53

/-- The power `base ^ e` as a ratio of natural numbers. -/
def power (base : Nat) (e : Int) : Nat × Nat := (base.pow e.toNat, base.pow (-e).toNat)

/-- The value as a ratio of natural numbers. -/
def ratio (m : Magnitude) : Nat × Nat :=
  (m.significand * (power 2 m.exponent).1, (power 2 m.exponent).2)

/-- The natural number nearest to `num / den`, the even one of two that are equally near. -/
def nearest (num den : Nat) : Nat :=
  let down := num / den
  let twice := 2 * (num % den)
  if twice < den then down else if den < twice then down + 1 else down + down % 2

/-- Rounds `num / den` to a multiple of `2 ^ e`, provided that it is below `2 ^ (e + 53)`. -/
def roundAt (num den : Nat) (e : Int) : Option Magnitude :=
  let n := nearest (num * (power 2 (-e)).1) (den * (power 2 (-e)).2)
  let m : Magnitude := if n < significandBound then ⟨n, e⟩ else ⟨significandBound / 2, e + 1⟩
  if m.exponent ≤ greatestExponent then some m else none

/-- The magnitude nearest to `num / den`; none if that is too large. -/
def ofRatio (num den : Nat) : Option Magnitude :=
  if num = 0 then some zero
  else
    let e := max leastExponent ((num.log2 : Int) - den.log2 - 53)
    let n := num * (power 2 (-e)).1 / (den * (power 2 (-e)).2)
    roundAt num den (if n < significandBound then e else e + 1)

/-- The magnitude of a natural number. -/
def ofNat (n : Nat) : Option Magnitude := ofRatio n 1

/-- The rounded product. -/
def mul (x y : Magnitude) : Option Magnitude :=
  ofRatio (x.ratio.1 * y.ratio.1) (x.ratio.2 * y.ratio.2)

/-- The rounded quotient. -/
def div (x y : Magnitude) : Option Magnitude :=
  ofRatio (x.ratio.1 * y.ratio.2) (x.ratio.2 * y.ratio.1)

/-- The largest power of ten that is a magnitude, as an exponent. -/
def maxPowTen : Nat := 308

/-- The rounded product with `10 ^ k`; powers below the range are divided by in several steps. -/
def scale (m : Magnitude) (k : Int) : Option Magnitude :=
  if k.natAbs ≤ maxPowTen then do
    let p ← ofNat (Nat.pow 10 k.natAbs)
    if 0 ≤ k then m.mul p else m.div p
  else if m.significand = 0 then some m
  else if 0 < k then none
  else do
    let m' ← m.div (← ofNat (Nat.pow 10 maxPowTen))
    m'.scale (k + maxPowTen)
termination_by k.natAbs
decreasing_by simp only [maxPowTen] at *; omega

end Magnitude

/-- A finite binary64 number.  Zero has both signs. -/
structure Binary64 where
  negative : Bool
  size : Magnitude
deriving DecidableEq, Repr

namespace Binary64

/-- The float that the decimal `digits * 10 ^ exponent` is read as; none if it is too large. -/
def ofDecimal (negative : Bool) (digits : Nat) (exponent : Int) : Option Binary64 := do
  let m ← Magnitude.ofNat digits
  return ⟨negative, ← m.scale exponent⟩

/-- Is the number zero, of either sign? -/
def isZero (x : Binary64) : Bool := x.size.significand == 0

/-- Equality of the numbers, for which the two zeros are one. -/
def same (x y : Binary64) : Bool := x == y || (x.isZero && y.isZero)

end Binary64

end TreeRewrite
