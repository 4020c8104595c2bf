import Mathlib.Data.List.TakeWhile
import PaymentRelay.Proofs.Decimal.Numerals

/-!
# Which numerals are read exactly

A scientific numeral is read in two steps: the plain numeral in front of the exponent mark, and then the power of
ten. **A numeral is read exactly if and only if there is room for both**: for the number in front of the mark and
for the whole (`ofChars?_exact_iff`). What is made of an exact decimal is exact: an amount is its decimal.
-/

namespace PaymentRelay.Decimal

section

variable {negative : Bool} {m s : Nat} {d : Decimal} {c : Char} {cs : List Char}

/-! ## The parts of a numeral -/

theorem isExponentMark_of_isDigit (h : Text.isDigit c = true) : isExponentMark c = false := by
  refine Bool.eq_false_iff.mpr fun hmark => ?_
  rcases Bool.or_eq_true_iff.mp hmark with hc | hc <;>
  · rw [beq_iff_eq.mp hc] at h
    exact absurd h (by decide)

theorem not_isExponentMark_of_isTail (h : isTail c = true) : isExponentMark c = false := by
  rcases Bool.or_eq_true_iff.mp h with hdigit | hseparator
  · exact isExponentMark_of_isDigit hdigit
  · rw [beq_iff_eq.mp hseparator]
    rfl

theorem not_isExponentMark_of_roundAt (hread : roundAt negative m s cs = some d) :
    ∀ c ∈ cs, isExponentMark c = false := by
  cases cs with
  | nil => exact fun c hc => absurd hc List.not_mem_nil
  | cons c cs =>
    rw [roundAt] at hread
    split at hread
    next htail =>
      obtain ⟨hc, hcs⟩ := Bool.and_eq_true_iff.mp htail
      exact List.forall_mem_cons.mpr ⟨not_isExponentMark_of_isTail hc, fun b hb =>
        not_isExponentMark_of_isTail (List.all_eq_true.mp hcs b hb)⟩
    next => cases hread

/-- What is read as a plain numeral has no exponent mark. -/
theorem not_isExponentMark_of_scan {point started : Bool} (hread : scan negative m s point started cs = some d) :
    ∀ c ∈ cs, isExponentMark c = false := by
  induction cs generalizing m s point started with
  | nil => exact fun c hc => absurd hc List.not_mem_nil
  | cons c cs ih =>
    cases scanStep_of_scan hread with
    | full _ _ _ hrest => exact not_isExponentMark_of_roundAt hrest
    | last hdigit _ _ hrest =>
      refine List.forall_mem_cons.mpr ⟨isExponentMark_of_isDigit hdigit, ?_⟩
      rcases hrest with hrest | hrest
      · exact not_isExponentMark_of_roundAt hrest
      · intro b hb
        rw [← List.takeWhile_append_dropWhile (p := (· == '_')) (l := cs)] at hb
        rcases List.mem_append.mp hb with hb | hb
        · rw [beq_iff_eq.mp (List.mem_takeWhile_imp (p := fun b => b == '_') hb)]
          rfl
        · exact not_isExponentMark_of_roundAt hrest b hb
    | digit hdigit hrest => exact List.forall_mem_cons.mpr ⟨isExponentMark_of_isDigit hdigit, ih hrest⟩
    | point hc _ hrest | separator hc hrest => exact List.forall_mem_cons.mpr ⟨hc ▸ rfl, ih hrest⟩

/-- A plain numeral has neither an exponent mark nor an exponent. -/
theorem parts_of_plain? (hread : plain? cs = some d) : basePart cs = cs ∧ exponentPart cs = [] := by
  have hall : ∀ c ∈ cs, (!isExponentMark c) = true := by
    intro c hc
    rw [Bool.not_eq_true']
    unfold plain? at hread
    split at hread
    next rest =>
      rcases List.mem_cons.mp hc with rfl | hc
      · rfl
      · exact not_isExponentMark_of_scan hread c hc
    next rest =>
      rcases List.mem_cons.mp hc with rfl | hc
      · rfl
      · exact not_isExponentMark_of_scan hread c hc
    next => exact not_isExponentMark_of_scan hread c hc
  refine ⟨List.takeWhile_eq_self_iff.mpr hall, ?_⟩
  rw [exponentPart, List.dropWhile_eq_nil_iff.mpr hall, List.drop_nil]

/-- An exponent that is read is its digits, of which no more than the largest scale are taken. -/
theorem exponent?_spec {n : Nat} (hread : exponent? cs = some n) : digitsNumber cs = n ∧ n ≤ maxScale := by
  obtain ⟨hunsigned, hle⟩ := Option.filter_eq_some_iff.mp hread
  refine ⟨?_, of_decide_eq_true hle⟩
  have hnatural {ds : List Char} (h : Text.natural? ds = some n) : digitsNumber ds = n := by
    unfold Text.natural? at h
    split at h
    next hds =>
      rw [digitsNumber, List.filter_eq_self.mpr (List.all_eq_true.mp hds.2)]
      exact Option.some.inj h
    next => cases h
  unfold Text.unsigned? at hunsigned
  obtain ⟨hdigits, -⟩ := Option.filter_eq_some_iff.mp hunsigned
  split at hdigits
  next rest =>
    rw [digitsNumber, List.filter_cons_of_neg (by decide)]
    exact hnatural hdigits
  next => exact hnatural hdigits

/-! ## Powers of ten -/

/-- Moving the point to the right changes no digit. -/
theorem shiftUp_spec {d' : Decimal} {n : Nat} (hshift : d.shiftUp n = some d') :
    d'.toRat = d.toRat * 10 ^ n := by
  have hmade {m' s' : Nat} (h : make? d.negative m' s' = some d') (hvalue : (m' : ℚ) / 10 ^ s' = d.magnitude * 10 ^ n) :
      d'.toRat = d.toRat * 10 ^ n := by
    obtain ⟨-, hmagnitude, hsign⟩ := make?_spec h
    rw [hsign, hmagnitude, hvalue, ← signed_mul, toRat]
  unfold shiftUp at hshift
  split at hshift
  next hle =>
    refine hmade hshift ?_
    obtain ⟨k, hk⟩ : ∃ k, d.scale = k + n := ⟨d.scale - n, by omega⟩
    rw [magnitude, hk, Nat.add_sub_cancel, pow_add]
    field_simp
  next hlt =>
    refine hmade hshift ?_
    obtain ⟨k, rfl⟩ : ∃ k, n = d.scale + k := ⟨n - d.scale, by omega⟩
    rw [magnitude, Nat.add_sub_cancel_left, pow_zero, div_one, Nat.cast_mul, cast_tenTo, pow_add]
    field_simp

/-- Zeros are dropped without rounding. -/
theorem roundOff_mul_tenTo (m k : Nat) : roundOff (m * tenTo k) k = m := by
  cases k with
  | zero => rw [roundOff, tenTo_zero, Nat.mul_one]
  | succ k =>
    have hnext : m * tenTo (k + 1) / tenTo k % 10 = 0 := by
      rw [tenTo_succ, Nat.mul_comm (tenTo k), ← Nat.mul_assoc, Nat.mul_div_cancel _ (tenTo_pos k), Nat.mul_mod_left]
    rw [roundOff, Nat.mul_div_cancel _ (tenTo_pos _), hnext, if_neg (by decide), Nat.add_zero]

/-- Moving the point to the left drops only zeros, if there is room for the result. -/
theorem shiftDown_spec {n : Nat} (hn : n ≤ maxScale) (hroom : HasRoomFor (d.toRat / 10 ^ n)) :
    (d.shiftDown n).toRat = d.toRat / 10 ^ n := by
  have hdiv : d.toRat / 10 ^ n = signed d.negative (d.magnitude / 10 ^ n) := by
    rw [toRat, div_eq_mul_inv, signed_mul, div_eq_mul_inv]
  unfold shiftDown
  split
  next hfits =>
    rw [hdiv, toRat, magnitude, magnitude, pow_add, div_div]
  next hover =>
    obtain ⟨p, j, -, hj, hp⟩ := (hdiv ▸ hroom).exists_mantissa (div_nonneg d.magnitude_nonneg (by positivity))
    -- the digits that go are those behind the largest scale
    obtain ⟨k, hk⟩ : ∃ k, d.scale + n = maxScale + k := ⟨d.scale + n - maxScale, by omega⟩
    obtain ⟨i, hi⟩ : ∃ i, maxScale = j + i := ⟨maxScale - j, by omega⟩
    have hmantissa : d.mantissa = p * 10 ^ i * tenTo k := by
      have hcast : (d.mantissa : ℚ) = p * 10 ^ i * 10 ^ k := by
        rw [← hp, magnitude, div_div, ← pow_add, hk, hi, pow_add, pow_add]
        field_simp
      rw [← cast_tenTo] at hcast
      exact_mod_cast hcast
    have hscale : maxScale - n ≤ d.scale := by omega
    have hdropped : d.scale - (maxScale - n) = k := by omega
    have hmagnitude : d.magnitude / 10 ^ n = (p * 10 ^ i : ℕ) / 10 ^ maxScale := by
      rw [magnitude, div_div, ← pow_add, hk, hmantissa, Nat.cast_mul, cast_tenTo, pow_add]
      field_simp
    rw [hdiv, hmagnitude]
    simp only [toRat, magnitude, rescale, dif_pos hscale, hdropped, hmantissa, roundOff_mul_tenTo]

/-- A decimal has room to move its point back over its own digits. -/
theorem hasRoomFor_mul {n : Nat} (h : n ≤ d.scale) : HasRoomFor (d.toRat * 10 ^ n) := by
  have hmade : d.shiftUp n = some ⟨d.negative && d.mantissa != 0, d.mantissa, d.scale - n, d.mantissa_lt,
      (Nat.sub_le _ _).trans d.scale_le⟩ := by
    rw [shiftUp, if_pos h, make?, dif_pos ⟨d.mantissa_lt, (Nat.sub_le _ _).trans d.scale_le⟩]
  exact ⟨_, shiftUp_spec hmade⟩

theorem le_scale_shiftDown {n : Nat} (hn : n ≤ maxScale) : n ≤ (d.shiftDown n).scale := by
  unfold shiftDown
  split
  next => exact Nat.le_add_left _ _
  next => exact hn

/-! ## Exact reading -/

/-- A decimal has room for a numeral: for what is in front of its exponent mark, which is read first, and for
the whole. -/
structure HasRoom (cs : List Char) : Prop where
  base : HasRoomFor (plainValue (basePart cs))
  whole : HasRoomFor (numeralValue cs)

/-- A numeral is plain, or it is read in two steps. -/
theorem ofChars?_cases (hread : ofChars? cs = some d) :
    plain? (basePart cs) = some d ∧ numeralValue cs = plainValue (basePart cs) ∨
      ∃ base n, plain? (basePart cs) = some base ∧ n ≤ maxScale ∧
        (d = base.shiftDown n ∧ numeralValue cs = plainValue (basePart cs) / 10 ^ n ∨
          base.shiftUp n = some d ∧ numeralValue cs = plainValue (basePart cs) * 10 ^ n) := by
  unfold ofChars? at hread
  cases hplain : plain? cs with
  | some base =>
    rw [hplain] at hread
    cases hread
    obtain ⟨hall, hnone⟩ := parts_of_plain? hplain
    refine .inl ⟨by rw [hall]; exact hplain, ?_⟩
    rw [numeralValue, hnone]
    exact mul_one _
  | none =>
    rw [hplain] at hread
    change scientific? cs = some d at hread
    unfold scientific? at hread
    split at hread
    next => cases hread
    next mark exponent hmark =>
      obtain ⟨base, hbase, hshift⟩ := Option.bind_eq_some_iff.mp hread
      have hbehind : exponentPart cs = exponent := by rw [exponentPart, hmark, List.drop_one, List.tail_cons]
      rw [numeralValue, hbehind]
      split at hshift
      next digits =>
        obtain ⟨n, hn, hshift⟩ := Option.bind_eq_some_iff.mp hshift
        obtain ⟨hdigits, hle⟩ := exponent?_spec hn
        cases hshift
        have hminus : isNegative ('-' :: digits) = true := rfl
        refine .inr ⟨base, n, hbase, hle, .inl ⟨rfl, ?_⟩⟩
        rw [exponentValue, if_pos hminus, digitsNumber, List.filter_cons_of_neg (by decide), ← digitsNumber, hdigits,
          zpow_neg, zpow_natCast, div_eq_mul_inv]
      next hminus =>
        obtain ⟨n, hn, hshift⟩ := Option.bind_eq_some_iff.mp hshift
        obtain ⟨hdigits, hle⟩ := exponent?_spec hn
        refine .inr ⟨base, n, hbase, hle, .inr ⟨hshift, ?_⟩⟩
        rw [exponentValue, isNegative_eq_false hminus, if_neg Bool.false_ne_true, hdigits, zpow_natCast]

/-- **A numeral is read exactly if and only if a decimal has room for it.** -/
theorem ofChars?_exact_iff (hread : ofChars? cs = some d) : d.toRat = numeralValue cs ↔ HasRoom cs := by
  have hten (n : Nat) : (10 : ℚ) ^ n ≠ 0 := by positivity
  rcases ofChars?_cases hread with ⟨hplain, hvalue⟩ | ⟨base, n, hplain, hn, ⟨rfl, hvalue⟩ | ⟨hshift, hvalue⟩⟩
  · refine ⟨fun h => ⟨⟨d, h.trans hvalue⟩, ⟨d, h⟩⟩, fun hroom => ?_⟩
    rw [hvalue, plain?_exact hplain hroom.base]
  · refine ⟨fun h => ⟨?_, ⟨_, h⟩⟩, fun hroom => ?_⟩
    · -- the decimal has all the digits that the power of ten moved
      have hbase : plainValue (basePart cs) = (base.shiftDown n).toRat * 10 ^ n := by
        rw [h, hvalue, div_mul_cancel₀ _ (hten n)]
      rw [hbase]
      exact hasRoomFor_mul (le_scale_shiftDown hn)
    · have hwhole := hroom.whole
      rw [hvalue, ← plain?_exact hplain hroom.base] at hwhole ⊢
      exact shiftDown_spec hn hwhole
  · have hshifted := shiftUp_spec hshift
    refine ⟨fun h => ⟨⟨base, ?_⟩, ⟨d, h⟩⟩, fun hroom => ?_⟩
    · rw [h, hvalue] at hshifted
      exact (mul_right_cancel₀ (hten n) hshifted).symm
    · rw [hvalue, hshifted, plain?_exact hplain hroom.base]

end

end PaymentRelay.Decimal

namespace PaymentRelay.Amount

open Decimal

/-- **An amount is the decimal it was made of**: its cents are a hundred times the number, with nothing
rounded. -/
theorem toRat_of_ofDecimal {d : Decimal} {a : Amount} (h : ofDecimal d = .ok a) : d.toRat = a.cents / 100 := by
  unfold ofDecimal at h
  split at h
  next => cases h
  next hpositive =>
    split at h
    next => cases h
    next hfine =>
      split at h
      next => cases h
      next hsmall =>
        cases h
        simp only [isPositive, Bool.not_eq_false, Bool.and_eq_true, Bool.not_eq_true', bne_iff_ne, ne_eq] at hpositive
        have hbound : d.mantissa < unitBound * tenTo d.scale := by
          simpa only [compareNat, hpositive.1, Bool.false_and, Bool.false_eq_true, if_false, not_not,
            Nat.compare_eq_lt] using hsmall
        have hcents := rescale_two_mul (Nat.le_of_not_lt hfine) hbound
        have hcast : ((d.rescale scale (by decide)).mantissa : ℚ) * 10 ^ d.scale = d.mantissa * 100 := by
          rw [← cast_tenTo]
          exact_mod_cast hcents
        have hpos : (0 : ℚ) < 10 ^ d.scale := by positivity
        rw [toRat, hpositive.1, signed, if_neg Bool.false_ne_true, magnitude, div_eq_div_iff hpos.ne' (by norm_num)]
        exact hcast.symm

end PaymentRelay.Amount
