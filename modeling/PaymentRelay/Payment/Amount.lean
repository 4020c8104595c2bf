import PaymentRelay.Payment.Error
import PaymentRelay.Json.Record

/-!
# Amounts of money

An amount is a positive whole number of cents below 10^12, and it is shown as a decimal of scale two.
`Amount.ofDecimal` takes a decimal of any scale and checks three things in this order: it is positive,
it has no more than two fractional digits that count, and it is below 10^10. What it accepts is exact:
the cents are the decimal times a hundred (`Amount.ofDecimal`'s proof obligations are discharged by
`rescale_two_mul`), so nothing is ever rounded here.
-/

namespace PaymentRelay

/-- The fractional digits of an amount. -/
def Amount.scale : Nat := 2

/-- The first number of units an amount cannot have. -/
def Amount.unitBound : Nat := 10000000000

/-- The first number of cents an amount cannot have. -/
def Amount.centBound : Nat := unitBound * tenTo scale

/-- A positive whole number of cents. -/
structure Amount where
  cents : Nat
  cents_pos : 0 < cents
  cents_lt : cents < Amount.centBound
deriving DecidableEq, Repr

namespace Decimal

/-- A decimal whose fraction needs two digits at most is, at scale two, the same number: its cents are
the mantissa times a hundred divided by the power of ten. -/
theorem rescale_two_mul {d : Decimal} (hs : d.normalize.scale ≤ 2)
    (hb : d.mantissa < Amount.unitBound * tenTo d.scale) :
    (d.rescale Amount.scale (by decide)).mantissa * tenTo d.scale = d.mantissa * 100 := by
  unfold rescale
  split
  · rename_i hle
    simp only [Amount.scale] at hle ⊢
    have hm : (stripZeros d.mantissa d.scale).1
        * tenTo (d.scale - (stripZeros d.mantissa d.scale).2) = d.mantissa :=
      stripZeros_mul d.mantissa d.scale
    have hs' : (stripZeros d.mantissa d.scale).2 ≤ 2 := hs
    generalize (stripZeros d.mantissa d.scale).1 = m at hm
    generalize (stripZeros d.mantissa d.scale).2 = s at hm hs'
    -- the digits that go are zeros
    obtain ⟨k, hk⟩ : ∃ k, d.scale = k + 2 := ⟨d.scale - 2, by omega⟩
    have hq : d.mantissa = m * tenTo (2 - s) * tenTo k := by
      rw [← hm, Nat.mul_assoc, ← tenTo_add]
      congr 2
      omega
    have hr : roundOff d.mantissa (d.scale - 2) = m * tenTo (2 - s) := by
      rw [hk, Nat.add_sub_cancel, hq]
      cases k with
      | zero => simp [roundOff]
      | succ k =>
        simp only [roundOff]
        rw [Nat.mul_div_cancel _ (tenTo_pos _), tenTo_succ, ← Nat.mul_assoc,
          Nat.mul_right_comm, Nat.mul_div_cancel _ (tenTo_pos _)]
        simp
    rw [hr, hq, hk, tenTo_add]
    simp only [Nat.mul_assoc]
    rfl
  · rename_i hlt
    simp only [Amount.scale, Nat.not_le] at hlt ⊢
    have hb' := hb
    simp only [Amount.unitBound] at hb'
    have : d.scale = 0 ∨ d.scale = 1 := by omega
    rcases this with h0 | h1
    · rw [h0, tenTo_zero] at hb' ⊢
      have h1 : d.mantissa * 10 < mantissaBound := by unfold mantissaBound Width.bits96; omega
      have h2 : d.mantissa * 10 * 10 < mantissaBound := by unfold mantissaBound Width.bits96; omega
      simp only [appendZeros, if_pos h1, if_pos h2]
      omega
    · rw [h1, tenTo_succ, tenTo_zero] at hb' ⊢
      have h1 : d.mantissa * 10 < mantissaBound := by unfold mantissaBound Width.bits96; omega
      simp only [appendZeros, if_pos h1]
      omega

end Decimal

namespace Amount

/-- The amount of a decimal, or the first rule it breaks. -/
def ofDecimal (d : Decimal) : Except Refusal Amount :=
  if hp : d.isPositive = false then .error (.amountNotPositive d)
  else if hf : scale < d.normalize.scale then .error (.amountTooFine d)
  else if hl : d.compareNat unitBound ≠ .lt then .error (.amountTooLarge d)
  else
    .ok
      { cents := (d.rescale scale (by decide)).mantissa
        cents_pos := by
          simp only [Decimal.isPositive, Bool.not_eq_false, Bool.and_eq_true, Bool.not_eq_true',
            bne_iff_ne, ne_eq] at hp
          have hb : d.mantissa < unitBound * tenTo d.scale := by
            simpa [Decimal.compareNat, hp.1, Nat.compare_eq_lt] using hl
          have h := Decimal.rescale_two_mul (by simpa [scale] using hf) hb
          refine Nat.pos_of_ne_zero fun h0 => ?_
          rw [h0, Nat.zero_mul] at h
          omega
        cents_lt := by
          simp only [Decimal.isPositive, Bool.not_eq_false, Bool.and_eq_true, Bool.not_eq_true',
            bne_iff_ne, ne_eq] at hp
          have hb : d.mantissa < unitBound * tenTo d.scale := by
            simpa [Decimal.compareNat, hp.1, Nat.compare_eq_lt] using hl
          have h := Decimal.rescale_two_mul (by simpa [scale] using hf) hb
          have hpos : 0 < tenTo d.scale := tenTo_pos _
          refine Nat.lt_of_mul_lt_mul_right (a := tenTo d.scale) ?_
          rw [h]
          calc d.mantissa * 100 < unitBound * tenTo d.scale * 100 :=
                Nat.mul_lt_mul_of_pos_right hb (by decide)
            _ = centBound * tenTo d.scale := Nat.mul_right_comm _ _ _ }

/-- An amount as a decimal of scale two. -/
def toDecimal (a : Amount) : Decimal where
  negative := false
  mantissa := a.cents
  scale := scale
  mantissa_lt := Nat.lt_trans a.cents_lt (by decide)
  scale_le := by decide

/-- The text of an amount: its units, a point and two digits. -/
def text (a : Amount) : String := a.toDecimal.text

/-- How two amounts compare. -/
def compare (a b : Amount) : Ordering := Ord.compare a.cents b.cents

instance : Ord Amount := ⟨compare⟩

instance : Hashable Amount := ⟨fun a => hash a.cents⟩

/-- An amount in JSON: the text of the decimal. -/
def toJson (a : Amount) : Json := .text a.text

/-- The amount a JSON number or string holds. It is checked, and the reason for which it may be
refused is told. -/
def accept (h : Json.Head) : Except Json.Problem Amount := do
  let d ← Json.acceptDecimal h
  match ofDecimal d with
  | .ok a => .ok a
  | .error why => .error (.refused why.message)

end Amount

end PaymentRelay
