import PaymentRelay.Proofs.Binary64.Shortest
import PaymentRelay.Proofs.Decimal.Exactness
import PaymentRelay.Proofs.Json.NumberTexts

/-!
# Numbers that end as amounts

The decimal of a number that is no integer is that of the shortest digits of its double. Reading the double and
printing it together move a number by less than one part in 2^50. **So a number that ends as an amount is that amount
exactly if and only if it has fifteen significant digits**, or is an integer that is kept as it is: two numbers of so
few digits are never that close to each other, and an amount has no more than twelve.
-/

namespace PaymentRelay

/-! ## Shortest digits in plain notation -/

namespace Decimal

variable {as bs : List Char}

theorem digitsNumber_of_digits (h : ∀ c ∈ as, c.isDigit = true) : digitsNumber as = Nat.ofDigitChars 10 as 0 := by
  rw [digitsNumber, List.filter_eq_self.mpr fun c hc => isDigit_of_isDigit (h c hc)]

/-- Digits without a point denote a whole number. -/
theorem plainMagnitude_whole (h : ∀ c ∈ as, c.isDigit = true) : plainMagnitude as = Nat.ofDigitChars 10 as 0 := by
  have hnone : fractionDigits as = 0 := by
    rw [fractionDigits, List.dropWhile_eq_nil_iff.mpr fun c hc => ne_point_of_isDigit (isDigit_of_isDigit (h c hc)),
      List.countP_nil]
  rw [plainMagnitude, hnone, pow_zero, div_one, digitsNumber_of_digits h]

/-- Digits with a point denote their number divided by ten for every digit behind it. -/
theorem plainMagnitude_point (ha : ∀ c ∈ as, c.isDigit = true) (hb : ∀ c ∈ bs, c.isDigit = true) :
    plainMagnitude (as ++ '.' :: bs) = Nat.ofDigitChars 10 (as ++ bs) 0 / 10 ^ bs.length := by
  have hnumber : digitsNumber (as ++ '.' :: bs) = Nat.ofDigitChars 10 (as ++ bs) 0 := by
    rw [digitsNumber, List.filter_append, List.filter_cons_of_neg (by decide), ← List.filter_append,
      List.filter_eq_self.mpr fun c hc => isDigit_of_isDigit (List.forall_mem_append.mpr ⟨ha, hb⟩ c hc)]
  have hfraction : fractionDigits (as ++ '.' :: bs) = bs.length := by
    rw [fractionDigits, List.dropWhile_append_of_pos fun c hc => ne_point_of_isDigit (isDigit_of_isDigit (ha c hc)),
      List.dropWhile_cons_of_neg (by decide), List.countP_cons_of_neg (by decide),
      List.countP_eq_length.mpr fun c hc => isDigit_of_isDigit (hb c hc)]
  rw [plainMagnitude, hnumber, hfraction]

end Decimal

namespace Binary64

open Decimal

/-- The plain text of digits and an exponent denotes their number. -/
theorem plainMagnitude_positional (s : Scientific) : plainMagnitude (positional 0 s) = s.value := by
  unfold positional Scientific.value
  dsimp only
  split
  next he =>
    have hall : ∀ c ∈ Nat.toDigits 10 s.digits ++ List.replicate s.exponent.toNat '0', c.isDigit = true := by
      refine List.forall_mem_append.mpr ⟨fun c hc => Nat.isDigit_of_mem_toDigits (by decide) (by decide) hc, ?_⟩
      intro c hc
      rw [(List.mem_replicate.mp hc).2]
      rfl
    rw [if_pos rfl, plainMagnitude_whole hall, Nat.ofDigitChars_append, Nat.ofDigitChars_replicate_zero,
      Nat.ofDigitChars_ten_toDigits, ← cast_pow_ten he, Nat.pow_eq, ← Nat.cast_mul, Nat.mul_comm]
  next he =>
    obtain ⟨places, hplaces⟩ : ∃ n : ℕ, s.exponent = -(n : ℤ) := ⟨(-s.exponent).toNat, by omega⟩
    rw [hplaces, neg_neg, Int.toNat_natCast]
    obtain ⟨hall, hlength, hnumber⟩ := padded_spec (places + 1) s.digits
    unfold Text.padded at hall hlength hnumber
    dsimp only at hall hlength hnumber
    generalize List.replicate (places + 1 - (Nat.toDigits 10 s.digits).length) '0' ++ Nat.toDigits 10 s.digits = ds
      at hall hlength hnumber ⊢
    have hfraction : (ds.drop (ds.length - places)).length = places := by
      rw [List.length_drop]
      omega
    have htake : ∀ c ∈ ds.take (ds.length - places), c.isDigit = true := fun c hc => hall c (List.mem_of_mem_take hc)
    have hdrop : ∀ c ∈ ds.drop (ds.length - places), c.isDigit = true := fun c hc => hall c (List.mem_of_mem_drop hc)
    rw [Nat.zero_sub, List.replicate_zero, List.append_nil, plainMagnitude_point htake hdrop, List.take_append_drop,
      hnumber, hfraction, zpow_neg, zpow_natCast, div_eq_mul_inv]

/-- The plain text of a double denotes its shortest digits, and has a sign if the double has one. -/
theorem plainChars_spec (x : Binary64) :
    plainMagnitude x.plainChars = (x.shortest .up).value ∧ (x.negative = true → isNegative x.plainChars = true) := by
  unfold plainChars
  dsimp only
  split
  next hnegative =>
    refine ⟨?_, fun _ => rfl⟩
    rw [plainMagnitude_eq, denoted_skip (by decide) (by decide), ← plainMagnitude_eq, plainMagnitude_positional]
  next hnot => exact ⟨plainMagnitude_positional _, fun h => absurd h hnot⟩

end Binary64

/-! ## Doubles that end as amounts -/

namespace Decimal

open Binary64 (Scientific)

variable {cents : ℕ}

/-- Seventeen digits that end as an amount are the amount. -/
theorem Reads.eq_amount {d : Decimal} {s : Scientific} (h : Reads s.value d) (hs : s.digits ≤ 10 ^ 17)
    (hd : d.magnitude = cents / 100) (hpos : 0 < cents) (hlt : cents < Amount.centBound) :
    s.value = cents / 100 := by
  have hlow : (1 / 100 : ℚ) ≤ cents / 100 := by
    have : (1 : ℚ) ≤ cents := by exact_mod_cast hpos
    gcongr
  have hhigh : (cents / 100 : ℚ) < 10 ^ 10 := by
    have : (cents : ℚ) < 1000000000000 := by exact_mod_cast hlt
    linarith
  have hdigits : (s.digits : ℚ) ≤ 10 ^ 17 := by exact_mod_cast hs
  have hnear := abs_lt.mp h.near
  rw [hd] at hnear
  rw [← hd, eq_comm]
  rcases le_total 0 s.exponent with he | he
  · -- a whole number, and one that has room since the amount is near
    obtain ⟨k, hk⟩ : ∃ k : ℕ, s.exponent = k := ⟨s.exponent.toNat, by omega⟩
    have hwhole : s.value * 10 ^ 0 = (s.digits * 10 ^ k : ℕ) := by
      rw [Scientific.value, hk, zpow_natCast]
      push_cast
      ring
    refine h.exact (lt_of_not_ge fun hge => ?_) (Nat.zero_le _) hwhole
    have hone : (1 : ℚ) / 10 ^ d.scale ≤ 1 := by
      rw [div_le_one (by positivity)]
      exact one_le_pow₀ (by norm_num)
    have hlarge : (10 ^ 11 : ℚ) ≤ s.value := by
      rw [pow_zero, mul_one] at hwhole
      rw [hwhole]
      exact_mod_cast le_trans (by decide) hge
    linarith
  · obtain ⟨j, hj⟩ : ∃ j : ℕ, s.exponent = -(j : ℤ) := ⟨(-s.exponent).toNat, by omega⟩
    have hscaled : s.value * 10 ^ j = s.digits := by
      rw [Scientific.value, hj, zpow_neg, zpow_natCast]
      field_simp
    rcases Nat.lt_or_ge maxScale j with hfine | hcoarse
    · rcases h.exact_or_full with hexact | hscale | hfull
      · exact hexact
      · -- so far behind the point that no cent could come of it
        exfalso
        rw [hscale] at hnear
        have hsmall : s.value ≤ 1 / 10 ^ 12 := by
          rw [← mul_le_mul_iff_left₀ (by positivity : (0 : ℚ) < 10 ^ j), hscaled]
          calc (s.digits : ℚ) ≤ 1 / 10 ^ 12 * 10 ^ 29 := by linarith
            _ ≤ 1 / 10 ^ 12 * 10 ^ j := by
              gcongr
              · norm_num
              · exact hfine
        have hunit : (1 : ℚ) / 10 ^ maxScale ≤ 1 / 10 ^ 12 := by
          unfold maxScale
          norm_num
        linarith
      · exfalso
        have hover := hfull s.digits j (lt_of_le_of_lt d.scale_le hfine) hscaled
        exact absurd (hover.trans hs) (by decide)
    · exact h.exact (lt_of_le_of_lt hs (by decide)) hcoarse hscaled

end Decimal

namespace Binary64

open Decimal

/-- A double whose shortest digits are an amount is as near to it as its bits allow. -/
theorem within_of_amount {x : Binary64} {cents : ℕ} (hx : 0 < x.significand) (hcanonical : x.Canonical)
    (h : (x.shortest .up).value = cents / 100) (hpos : 0 < cents) :
    Within (1 / 2 ^ 53) (cents / 100) x.magnitude := by
  have hnear := (shortest_spec hx hcanonical .up).1
  rw [h] at hnear
  refine le_trans hnear ?_
  have hbit : (0 : ℚ) < 2 ^ x.exponent := by positivity
  have hhalf : (2 : ℚ) ^ (x.exponent - 1) = 2 ^ x.exponent / 2 := by
    rw [zpow_sub_one₀ (by norm_num), div_eq_mul_inv]
  rcases hcanonical.least_or_full with hleast | hfull
  · -- the smallest doubles are no cents
    exfalso
    have hone : (1 : ℚ) ≤ cents := by exact_mod_cast hpos
    have hsmall : (2 : ℚ) ^ x.exponent ≤ 1 / 2 ^ 64 := by
      calc (2 : ℚ) ^ x.exponent ≤ 2 ^ (-64 : ℤ) := by
            rw [hleast]
            exact zpow_le_zpow_right₀ (by norm_num) (by decide)
        _ = 1 / 2 ^ 64 := by norm_num
    have hsignificand : (x.significand : ℚ) ≤ 9007199254740992 := by exact_mod_cast hcanonical.significand_lt.le
    have hmagnitude : x.magnitude ≤ 9007199254740992 * (1 / 2 ^ 64) := by
      unfold magnitude
      gcongr
    have := (abs_le.mp hnear).2
    rw [hhalf] at this
    linarith
  · have hfull' : (4503599627370496 : ℚ) ≤ x.significand := by exact_mod_cast hfull
    rw [hhalf, magnitude]
    have := mul_le_mul_of_nonneg_right hfull' hbit.le
    linarith

end Binary64

/-! ## Numbers that end as amounts -/

namespace Json

open Binary64 Decimal

/-- A number of fifteen significant digits. -/
def IsFifteenDigits (q : ℚ) : Prop :=
  ∃ (n : ℕ) (e : ℤ), n < 10 ^ 15 ∧ q = n * 10 ^ e

/-- Two whole numbers of fifty bits are equal if they are near. -/
theorem eq_of_within {a b : ℕ} (h : Within (1 / 2 ^ 50) a b) (hb : b < 2 ^ 50) : a = b := by
  have hb' : (b : ℚ) < 2 ^ 50 := by exact_mod_cast hb
  have hclose : |(a : ℚ) - b| < 1 := lt_of_le_of_lt h (by linarith)
  have hzero : (a : ℤ) - b = 0 := Int.abs_lt_one_iff.mp (by exact_mod_cast hclose)
  omega

/-- **A number of fifteen significant digits is the amount it is near to.** -/
theorem eq_amount_of_within {q : ℚ} {cents : ℕ} (h : Within (1 / 2 ^ 50) (cents / 100) q) (hq : IsFifteenDigits q)
    (hlt : cents < Amount.centBound) : q = cents / 100 := by
  obtain ⟨n, e, hn, rfl⟩ := hq
  rcases le_total (-2) e with he | he
  · -- a whole number of cents
    obtain ⟨k, hk⟩ : ∃ k : ℕ, e = k - 2 := ⟨(e + 2).toNat, by omega⟩
    have hhundred : (n : ℚ) * 10 ^ e * 100 = (n * 10 ^ k : ℕ) := by
      rw [hk, zpow_sub₀ (by norm_num), zpow_natCast]
      push_cast
      ring
    have hcents := h.mul_right (by norm_num : (0 : ℚ) ≤ 100)
    rw [hhundred, div_mul_cancel₀ _ (by norm_num)] at hcents
    have hsmall : n * 10 ^ k < 2 ^ 50 := by
      have hge := hcents.ge
      have hcast : (cents : ℚ) < 1000000000000 := by exact_mod_cast hlt
      have : ((n * 10 ^ k : ℕ) : ℚ) < (2 ^ 50 : ℕ) := by
        push_cast at hge ⊢
        linarith
      exact_mod_cast this
    rw [eq_div_iff (by norm_num), hhundred, eq_of_within hcents hsmall]
  · -- more digits behind the point than cents have
    obtain ⟨k, hk⟩ : ∃ k : ℕ, e = -(k + 2 : ℕ) := ⟨(-e - 2).toNat, by omega⟩
    have hscaled : (n : ℚ) * 10 ^ e * 10 ^ (k + 2) = n := by
      rw [hk, zpow_neg, zpow_natCast]
      field_simp
    have hcents : (cents / 100 : ℚ) * 10 ^ (k + 2) = (cents * 10 ^ k : ℕ) := by
      push_cast
      rw [pow_add]
      ring
    have hunits := h.mul_right (by positivity : (0 : ℚ) ≤ 10 ^ (k + 2))
    rw [hscaled, hcents] at hunits
    have hsame := eq_of_within hunits (hn.trans (by decide))
    rw [← mul_left_inj' (by positivity : (10 : ℚ) ^ (k + 2) ≠ 0), hscaled, hcents, hsame]

/-- A decimal has room for a number: it is an integer that is kept as it is, or has fifteen significant digits. -/
def NumberText.HasRoom (t : NumberText) : Prop :=
  t.integer?.isSome = true ∨ IsFifteenDigits t.magnitude

/-- The decimal of an integer is the integer. -/
theorem toRat_of_integer {i : ℤ} {d : Decimal} (h : (Number.integer i).toDecimal? = some d) : d.toRat = i := by
  obtain ⟨-, hmagnitude, hsign⟩ := make?_spec (show make? (i < 0) i.natAbs 0 = some d from h)
  rw [hsign, hmagnitude, pow_zero, div_one, signed]
  split
  next hneg =>
    have hi : (i.natAbs : ℤ) = -i := by
      have := of_decide_eq_true hneg
      omega
    rw [← Int.cast_natCast, hi, Int.cast_neg, neg_neg]
  next hpos =>
    have hi : (i.natAbs : ℤ) = i := by
      have : ¬i < 0 := fun h => hpos (decide_eq_true h)
      omega
    rw [← Int.cast_natCast, hi]

/-- A double that ends as an amount is as near to it as its bits allow, and has no sign. -/
theorem within_of_double {x : Binary64} {d : Decimal} {cents : ℕ} (hcanonical : x.Canonical)
    (hd : (Number.double x).toDecimal? = some d) (hamount : d.toRat = cents / 100) (hpos : 0 < cents)
    (hlt : cents < Amount.centBound) : x.negative = false ∧ Within (1 / 2 ^ 53) (cents / 100) x.magnitude := by
  have hcents : (0 : ℚ) < cents / 100 := by
    have : (0 : ℚ) < cents := by exact_mod_cast hpos
    positivity
  obtain ⟨hsign, hreads⟩ := plain?_spec (show plain? x.plainChars = some d from hd)
  obtain ⟨hvalue, hnegative⟩ := plainChars_spec x
  rw [hvalue] at hreads
  have hplus : isNegative x.plainChars = false := by
    refine Bool.eq_false_iff.mpr fun hminus => ?_
    rw [hminus, signed, if_pos rfl, hamount] at hsign
    linarith [d.magnitude_nonneg]
  rw [hplus, signed, if_neg Bool.false_ne_true, hamount] at hsign
  refine ⟨Bool.eq_false_iff.mpr fun h => ?_, ?_⟩
  · rw [hnegative h] at hplus
    cases hplus
  · have hx : 0 < x.significand := by
      refine Nat.pos_of_ne_zero fun hzero => hcents.ne ?_
      rw [hsign, hreads.exact (n := 0) (j := 0) (by decide) (Nat.zero_le _)]
      all_goals
        rw [shortest, if_pos hzero, Scientific.value]
        simp only [Nat.cast_zero, zero_mul]
    have hdigits := (shortest_spec hx hcanonical .up).2
    exact within_of_amount hx hcanonical (hreads.eq_amount hdigits hsign.symm hpos hlt) hpos

/-- A number with room that ends as an amount is the amount. -/
theorem NumberText.toRat_of_amount {t : NumberText} {n : Number} {d : Decimal} {cents : ℕ} (ht : t.IsFormed)
    (hroom : t.HasRoom) (hvalue : t.value = .ok n) (hd : n.toDecimal? = some d) (hamount : d.toRat = cents / 100)
    (hpos : 0 < cents) (hlt : cents < Amount.centBound) : t.toRat = cents / 100 := by
  unfold value at hvalue
  cases hinteger : t.integer? with
  | some i =>
    rw [hinteger] at hvalue
    cases hvalue
    rw [toRat_of_integer? hinteger, ← toRat_of_integer hd, hamount]
  | none =>
    rw [hinteger] at hvalue
    dsimp only at hvalue
    split at hvalue
    next x hx =>
      cases hvalue
      obtain ⟨hcanonical, hsign, hnear⟩ := double?_spec ht hx
      obtain ⟨hplus, hwithin⟩ := within_of_double hcanonical hd hamount hpos hlt
      have hlarge : 1 / 1000 ≤ x.magnitude := by
        have hone : (1 : ℚ) ≤ cents := by exact_mod_cast hpos
        have := hwithin.le
        linarith
      have hfifteen : IsFifteenDigits t.magnitude := by
        rcases hroom with hsome | hfifteen
        · rw [hinteger] at hsome
          cases hsome
        · exact hfifteen
      have hclose : Within (1 / 2 ^ 50) (cents / 100) t.magnitude :=
        (hwithin.trans (hnear hlarge) (by norm_num)).mono (by norm_num) t.magnitude_nonneg
      rw [toRat, ← hsign, hplus, signed, if_neg Bool.false_ne_true]
      exact eq_amount_of_within hclose hfifteen hlt
    next => cases hvalue

/-- What is an amount has fifteen significant digits. -/
theorem NumberText.hasRoom_of_toRat {t : NumberText} {cents : ℕ} (h : t.toRat = cents / 100)
    (hlt : cents < Amount.centBound) : t.HasRoom := by
  have hmagnitude : t.magnitude = cents / 100 := by
    rw [← abs_of_nonneg t.magnitude_nonneg, ← abs_signed t.negative]
    exact (congrArg abs h).trans (abs_of_nonneg (by positivity))
  refine .inr ⟨cents, -2, hlt.trans (by decide), ?_⟩
  rw [hmagnitude]
  norm_num
  ring

/-- **A number that ends as an amount is the amount if and only if there is room for it.** -/
theorem NumberText.toRat_eq_iff {t : NumberText} {n : Number} {d : Decimal} {cents : ℕ} (ht : t.IsFormed)
    (hvalue : t.value = .ok n) (hd : n.toDecimal? = some d) (hamount : d.toRat = cents / 100) (hpos : 0 < cents)
    (hlt : cents < Amount.centBound) : t.toRat = cents / 100 ↔ t.HasRoom :=
  ⟨fun h => t.hasRoom_of_toRat h hlt, fun hroom => t.toRat_of_amount ht hroom hvalue hd hamount hpos hlt⟩

end Json

end PaymentRelay
