import PaymentRelay.Binary64.Basic

/-!
# The shortest digits of a double

The fewest decimal digits that read back as the same double, and of those the digits nearest to
it. Two that are equally near happen, and which of them is taken is up to the printer (`Tie`). A
decimal reads back when it lies in the interval of numbers that round to the double; the two ends
belong to the interval when the significand is even.

The search goes through the decimal grids of one to seventeen digits. If any point of a grid lies
in the interval, then one of the two neighbours of the double on that grid does, so only those two
are tried; the first grid with a hit wins.

Two layouts of the digits are used: `positional` for every magnitude, with ties upwards
(`plainChars`), and scientific notation for magnitudes outside a range of decimal exponents
(`Layout`).
-/

namespace PaymentRelay.Binary64

/-- Which of two digits is taken if a double lies halfway between them. -/
inductive Tie where
  /-- The even one. -/
  | even
  /-- The one away from zero. -/
  | up
deriving DecidableEq, Repr

/-- Whether a number halfway above `below` goes up. -/
def Tie.goesUp (t : Tie) (below : Nat) : Bool :=
  match t with
  | even => below % 2 == 1
  | up => true

/-- The number `digits * 10 ^ exponent`. -/
structure Scientific where
  digits : Nat
  exponent : Int
deriving DecidableEq, Repr

/-- The exponent of the first digit of `num / den`: the `p` with
`10 ^ p ≤ num / den < 10 ^ (p + 1)`. -/
def leadingExponent (num den : Nat) : Int :=
  let guess : Int := ((Nat.toDigits 10 num).length : Int) - (Nat.toDigits 10 den).length
  let reached := if 0 ≤ guess then den * Nat.pow 10 guess.toNat ≤ num
    else den ≤ num * Nat.pow 10 (-guess).toNat
  if reached then guess else guess - 1

/-- Whether `n * 10 ^ k` lies between `low` and `high`, both in units of `2 ^ e`. -/
def liesBetween (inclusive : Bool) (low high : Nat) (e : Int) (n : Nat) (k : Int) : Bool :=
  let ten := if 0 ≤ k then Nat.pow 10 k.toNat else 1
  let tenth := if 0 ≤ k then 1 else Nat.pow 10 (-k).toNat
  let two := if 0 ≤ e then Nat.pow 2 e.toNat else 1
  let half := if 0 ≤ e then 1 else Nat.pow 2 (-e).toNat
  let point := n * ten * half
  let low := low * two * tenth
  let high := high * two * tenth
  if inclusive then low ≤ point && point ≤ high else low < point && point < high

/-- The digits without the zeros at their end. -/
def Scientific.trimZeros : Nat → Scientific → Scientific
  | 0, x => x
  | fuel + 1, x =>
    if x.digits ≠ 0 ∧ x.digits % 10 = 0 then trimZeros fuel ⟨x.digits / 10, x.exponent + 1⟩ else x

/-- The neighbour of a double on the grid of `count` digits that reads back, if there is one, and the
nearer of two. -/
def onGrid (x : Binary64) (tie : Tie) (count : Nat) : Option Scientific :=
  let (num, den) := x.toQuotient
  let k := leadingExponent num den + 1 - count
  let (n, d) :=
    if 0 ≤ k then (num, den * Nat.pow 10 k.toNat) else (num * Nat.pow 10 (-k).toNat, den)
  let below := n / d
  let above := below + 1
  -- in quarters of the last bit, so that the two ends of the interval are whole numbers
  let lowerGap := if x.significand = leastNormal ∧ minExponent < x.exponent then 1 else 2
  let low := 4 * x.significand - lowerGap
  let high := 4 * x.significand + 2
  let hits := liesBetween (x.significand % 2 == 0) low high (x.exponent - 2)
  let aboveNearer := d < 2 * (n % d) || (2 * (n % d) == d && tie.goesUp below)
  let order := if aboveNearer then [above, below] else [below, above]
  (order.find? (hits · k)).map fun m => Scientific.trimZeros 17 ⟨m, k⟩

/-- The shortest digits of a double, with no sign. Zero has the digit zero. -/
def shortest (x : Binary64) (tie : Tie) : Scientific :=
  if x.significand = 0 then ⟨0, 0⟩
  else ((List.range' 1 17).findSome? (onGrid x tie)).getD ⟨x.significand, 0⟩

/-! ## Layout -/

/-- The digits with the point where the exponent puts it, and at least `minFraction` digits behind
it. -/
def positional (minFraction : Nat) (x : Scientific) : List Char :=
  let ds := Nat.toDigits 10 x.digits
  if 0 ≤ x.exponent then
    let whole := ds ++ List.replicate x.exponent.toNat '0'
    if minFraction = 0 then whole else whole ++ '.' :: List.replicate minFraction '0'
  else
    let places := (-x.exponent).toNat
    let ds := List.replicate (places + 1 - ds.length) '0' ++ ds
    let split := ds.length - places
    let fraction := ds.drop split
    ds.take split ++ '.' :: fraction ++ List.replicate (minFraction - fraction.length) '0'

/-- How a printer lays out the digits of a double. -/
structure Layout where
  /-- The least decimal exponent that is written without an exponent. -/
  leastPositional : Int
  /-- The greatest one. -/
  greatestPositional : Int
  /-- Digits that always follow the point in positional notation. -/
  minFraction : Nat
  tie : Tie

/-- The digits behind the first one, with their point. -/
def scientificTail (ds : List Char) : List Char :=
  if ds.isEmpty then [] else '.' :: ds

/-- The text of a double in a layout: a sign if it has one, then the shortest digits, positional or
with an exponent that always shows its sign. -/
def Layout.chars (l : Layout) (x : Binary64) : List Char :=
  let s := x.shortest l.tie
  let ds := Nat.toDigits 10 s.digits
  let e : Int := s.exponent + ds.length - 1
  let magnitude :=
    if l.leastPositional ≤ e ∧ e ≤ l.greatestPositional then positional l.minFraction s
    else
      ds.take 1 ++ scientificTail (ds.drop 1) ++
        'e' :: (if e < 0 then '-' else '+') :: Nat.toDigits 10 e.natAbs
  if x.negative then '-' :: magnitude else magnitude

/-- The text of a double with every digit in its place, however many zeros that takes. A tie goes
up. -/
def plainChars (x : Binary64) : List Char :=
  let magnitude := positional 0 (x.shortest .up)
  if x.negative then '-' :: magnitude else magnitude

end PaymentRelay.Binary64
