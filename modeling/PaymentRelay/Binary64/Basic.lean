/-!
# Finite binary64 numbers

A finite double is `significand * 2 ^ exponent` with a sign. The significand has at most 53 bits
and the exponent lies between -1074 and 971; of the pairs that denote one number the one with the
larger significand is meant, so a significand below 2^52 occurs only with the least exponent.
A zero has a sign of its own.

`ofQuotient?` rounds an exact quotient to the nearest double, a tie to the even significand, and
has no answer where the quotient is too large. All other arithmetic is exact arithmetic on the
natural numbers followed by this one rounding.
-/

namespace PaymentRelay

/-- A finite double: `significand * 2 ^ exponent`, negated if `negative`. -/
structure Binary64 where
  negative : Bool
  significand : Nat
  exponent : Int
deriving DecidableEq, Repr

namespace Binary64

/-- The exponent of the subnormal numbers. -/
def minExponent : Int := -1074

/-- The exponent of the largest numbers. -/
def maxExponent : Int := 971

/-- The first number a significand cannot be. -/
def significandBound : Nat := 0x20000000000000

/-- The least significand of a number that has all its bits. -/
def leastNormal : Nat := 0x10000000000000

/-- The zero of a sign. -/
def zero (negative : Bool) : Binary64 := ⟨negative, 0, minExponent⟩

/-- The magnitude as a quotient of natural numbers. -/
def toQuotient (x : Binary64) : Nat × Nat :=
  if 0 ≤ x.exponent then (x.significand * Nat.pow 2 x.exponent.toNat, 1)
  else (x.significand, Nat.pow 2 (-x.exponent).toNat)

/-- The quotient `num / den` in units of `2 ^ e`, again as a quotient. -/
def inUnits (num den : Nat) (e : Int) : Nat × Nat :=
  if 0 ≤ e then (num, den * Nat.pow 2 e.toNat) else (num * Nat.pow 2 (-e).toNat, den)

/-- The integer nearest to `num / den`; a tie goes to the even one. -/
def nearestEven (num den : Nat) : Nat :=
  let q := num / den
  let r := num % den
  if den < 2 * r ∨ (2 * r = den ∧ q % 2 = 1) then q + 1 else q

/-- The exponent at which `num / den` fills 53 bits, or the least one. The first guess, from the
lengths of the two numbers, is one too small at most. -/
def exponentOf (num den : Nat) : Int :=
  let guess : Int := max minExponent ((num.log2 : Int) - den.log2 - 53)
  let (n, d) := inUnits num den guess
  if n < significandBound * d then guess else guess + 1

/-- The double nearest to `num / den`, and nothing when every double is too small. -/
def ofQuotient? (negative : Bool) (num den : Nat) : Option Binary64 :=
  if num = 0 ∨ den = 0 then some (zero negative)
  else
    let e := exponentOf num den
    let (n, d) := inUnits num den e
    let s := nearestEven n d
    let x : Binary64 :=
      if s = significandBound then ⟨negative, leastNormal, e + 1⟩ else ⟨negative, s, e⟩
    if x.exponent ≤ maxExponent then some x else none

/-- The double nearest to a natural number. -/
def ofNat? (negative : Bool) (n : Nat) : Option Binary64 :=
  ofQuotient? negative n 1

/-- The product with a positive double, rounded. The sign is kept. -/
def mul? (x y : Binary64) : Option Binary64 :=
  let (a, b) := x.toQuotient
  let (c, d) := y.toQuotient
  ofQuotient? x.negative (a * c) (b * d)

/-- The quotient by a positive double, rounded. The sign is kept. -/
def div? (x y : Binary64) : Option Binary64 :=
  let (a, b) := x.toQuotient
  let (c, d) := y.toQuotient
  ofQuotient? x.negative (a * d) (b * c)

/-- The power of ten up to which a double is near. -/
def maxPowerOfTen : Nat := 308

/-- The number `significand * 10 ^ exponent`, read in rounded steps: the significand, the power of
ten, and the product or quotient of the two. A power of ten that no double is near is taken in two
steps when it divides, and is out of range when it multiplies anything but zero. -/
def ofScientific? (negative : Bool) (significand : Nat) (exponent : Int) : Option Binary64 := do
  let x ← ofNat? negative significand
  let power (n : Nat) : Option Binary64 := ofNat? false (Nat.pow 10 n)
  if significand = 0 then return x
  if 0 ≤ exponent then
    if exponent.toNat ≤ maxPowerOfTen then x.mul? (← power exponent.toNat) else none
  else
    let n := exponent.natAbs
    if n ≤ maxPowerOfTen then x.div? (← power n)
    else if n ≤ 2 * maxPowerOfTen then
      (← x.div? (← power maxPowerOfTen)).div? (← power (n - maxPowerOfTen))
    else return zero negative

end Binary64

end PaymentRelay
