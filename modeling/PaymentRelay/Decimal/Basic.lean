import PaymentRelay.Text.Numeral
import PaymentRelay.Width

/-!
# Decimal numbers of 96 bits

A decimal is a signed mantissa of at most 96 bits, divided by a power of ten that is at most the
28th. The scale is part of the value: `1.5` and `1.50` are different decimals of the same number,
and printing shows exactly `scale` digits after the point. A zero is made without a sign (`make?`),
but a negative number that is rounded to zero keeps its own.

The bounds stand in the type, so `Decimal.make?` is the one place where a mantissa can turn out too
large; everything else carries its proof along.

* `normalize` takes trailing zeros off the fraction and nothing else.
* `rescale` moves to a wanted scale. Downwards the first digit dropped decides, and a five rounds
  up; upwards zeros are appended for as long as the mantissa fits.
* `compareNat` compares with a natural number exactly, by cross-multiplication.
-/

namespace PaymentRelay

/-- Ten to the power `n`. -/
def tenTo (n : Nat) : Nat := Nat.pow 10 n

@[simp]
theorem tenTo_zero : tenTo 0 = 1 := rfl

theorem tenTo_succ (n : Nat) : tenTo (n + 1) = tenTo n * 10 := rfl

theorem tenTo_add (m n : Nat) : tenTo (m + n) = tenTo m * tenTo n := Nat.pow_add 10 m n

theorem tenTo_pos (n : Nat) : 0 < tenTo n := Nat.pow_pos (by decide)

/-- The first number a mantissa cannot hold. -/
def Decimal.mantissaBound : Nat := Width.bits96

/-- The largest scale. -/
def Decimal.maxScale : Nat := 28

/-- The number `mantissa / 10 ^ scale`, negated if `negative`. A zero may have a sign, which shows in
its text and nowhere else. -/
structure Decimal where
  negative : Bool
  mantissa : Nat
  scale : Nat
  mantissa_lt : mantissa < Decimal.mantissaBound
  scale_le : scale ≤ Decimal.maxScale
deriving DecidableEq, Repr

namespace Decimal

/-- The decimal of a sign, a mantissa and a scale that fit; the sign of a zero is dropped. -/
def make? (negative : Bool) (mantissa scale : Nat) : Option Decimal :=
  if h : mantissa < mantissaBound ∧ scale ≤ maxScale then
    some ⟨negative && mantissa != 0, mantissa, scale, h.1, h.2⟩
  else none

/-- Whether a decimal is greater than zero. -/
def isPositive (d : Decimal) : Bool :=
  !d.negative && d.mantissa != 0

/-- How a decimal compares with a natural number: `mantissa` against `n * 10 ^ scale`. -/
def compareNat (d : Decimal) (n : Nat) : Ordering :=
  if d.negative && d.mantissa != 0 then .lt else compare d.mantissa (n * tenTo d.scale)

/-! ## Trailing zeros -/

/-- Divides by ten while the number ends in a zero, at most `scale` times. The second part is the
scale that is left. -/
def stripZeros : Nat → Nat → Nat × Nat
  | m, 0 => (m, 0)
  | m, s + 1 => if m % 10 = 0 then stripZeros (m / 10) s else (m, s + 1)

theorem stripZeros_le (m s : Nat) : (stripZeros m s).1 ≤ m ∧ (stripZeros m s).2 ≤ s := by
  induction s generalizing m with
  | zero => exact ⟨Nat.le_refl _, Nat.le_refl _⟩
  | succ s ih =>
    rw [stripZeros]
    split
    · exact ⟨Nat.le_trans (ih _).1 (Nat.div_le_self _ _), Nat.le_succ_of_le (ih _).2⟩
    · exact ⟨Nat.le_refl _, Nat.le_refl _⟩

/-- What was stripped were zeros: the mantissa is the stripped one with them put back. -/
theorem stripZeros_mul (m s : Nat) :
    (stripZeros m s).1 * tenTo (s - (stripZeros m s).2) = m := by
  induction s generalizing m with
  | zero => simp [stripZeros]
  | succ s ih =>
    rw [stripZeros]
    split
    · rename_i hm
      have hs : s + 1 - (stripZeros (m / 10) s).2 = (s - (stripZeros (m / 10) s).2) + 1 := by
        have := (stripZeros_le (m / 10) s).2; omega
      rw [hs, tenTo_succ, ← Nat.mul_assoc, ih]
      omega
    · simp

/-- The same number with the shortest fraction. -/
def normalize (d : Decimal) : Decimal where
  negative := d.negative
  mantissa := (stripZeros d.mantissa d.scale).1
  scale := (stripZeros d.mantissa d.scale).2
  mantissa_lt := Nat.lt_of_le_of_lt (stripZeros_le _ _).1 d.mantissa_lt
  scale_le := Nat.le_trans (stripZeros_le _ _).2 d.scale_le

/-! ## Moving to another scale -/

/-- The number `m / 10 ^ k`, where the first digit dropped decides and a five rounds up. -/
def roundOff (m : Nat) : Nat → Nat
  | 0 => m
  | k + 1 => m / tenTo (k + 1) + if 5 ≤ m / tenTo k % 10 then 1 else 0

theorem roundOff_le (m k : Nat) : roundOff m k ≤ m := by
  cases k with
  | zero => exact Nat.le_refl _
  | succ k =>
    simp only [roundOff]
    have hq : m / tenTo (k + 1) = m / tenTo k / 10 := by
      rw [tenTo_succ, Nat.div_div_eq_div_mul]
    have hle : m / tenTo k ≤ m := Nat.div_le_self _ _
    rw [hq]
    split <;> omega

/-- Appends up to `k` zeros, as many as the mantissa holds. The second part is the scale reached. -/
def appendZeros (m s : Nat) : Nat → Nat × Nat
  | 0 => (m, s)
  | k + 1 => if m * 10 < mantissaBound then appendZeros (m * 10) (s + 1) k else (m, s)

theorem appendZeros_bounds {m s : Nat} (k : Nat) (hm : m < mantissaBound) :
    (appendZeros m s k).1 < mantissaBound ∧ (appendZeros m s k).2 ≤ s + k := by
  induction k generalizing m s with
  | zero => exact ⟨hm, Nat.le_refl _⟩
  | succ k ih =>
    rw [appendZeros]
    split
    · rename_i h
      have := ih (s := s + 1) h
      exact ⟨this.1, by omega⟩
    · exact ⟨hm, by omega⟩

/-- The decimal of scale `n` next to `d`: rounded when digits have to go, and with fewer zeros
than wanted when the mantissa has no room for them. The sign stays, so what is rounded to zero from
below is a zero with a sign. -/
def rescale (d : Decimal) (n : Nat) (hn : n ≤ maxScale) : Decimal :=
  if h : n ≤ d.scale then
    { negative := d.negative
      mantissa := roundOff d.mantissa (d.scale - n)
      scale := n
      mantissa_lt := Nat.lt_of_le_of_lt (roundOff_le _ _) d.mantissa_lt
      scale_le := hn }
  else
    let r := appendZeros d.mantissa d.scale (n - d.scale)
    { negative := d.negative
      mantissa := r.1
      scale := r.2
      mantissa_lt := (appendZeros_bounds _ d.mantissa_lt).1
      scale_le := by
        have hr := (appendZeros_bounds (s := d.scale) (n - d.scale) d.mantissa_lt).2
        exact Nat.le_trans hr (by omega) }

/-! ## Text -/

/-- The digits of a mantissa with a point before the last `scale` of them. A number below one has
a zero in front of the point. -/
def digitsText (mantissa scale : Nat) : List Char :=
  let digits := Text.padded (scale + 1) mantissa
  let whole := digits.length - scale
  if scale = 0 then digits else digits.take whole ++ '.' :: digits.drop whole

/-- The characters of a decimal: a sign below zero, the whole part, and `scale` fractional
digits. -/
def chars (d : Decimal) : List Char :=
  if d.negative then '-' :: digitsText d.mantissa d.scale else digitsText d.mantissa d.scale

/-- The text of a decimal. -/
def text (d : Decimal) : String :=
  String.ofList d.chars

instance : ToString Decimal := ⟨text⟩

end Decimal

end PaymentRelay
