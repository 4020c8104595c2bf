import PaymentRelay.Proofs.Decimal.Exactness

/-!
# Amounts are whole numbers of cents

Three rules make an amount of a decimal: it is above zero, it is a whole number of cents, and it is below 10^10
(`Amount.Rule.IsKeptBy`, said of the number alone). The checks look at something else: at a sign and a mantissa, at the
scale that is left when trailing zeros are gone, and at a mantissa against a power of ten. Each check is its rule,
whatever the scale (`Decimal.isPositive_iff`, `Decimal.normalize_scale_le_iff`, `Decimal.compareNat_eq_lt_iff`).

So **a decimal makes an amount exactly if it is a number of cents from 1 to 10^12 - 1**, and the decimal that is kept
of it has these cents for its mantissa and two for its scale (`Amount.exact_cents`).
-/

namespace PaymentRelay.Decimal

variable {d : Decimal}

/-! ## The checks and the numbers -/

/-- A number is zero exactly if its mantissa is. -/
theorem magnitude_pos_iff : 0 < d.magnitude ↔ d.mantissa ≠ 0 := by
  have hten : (0 : ℚ) < 10 ^ d.scale := by positivity
  rw [magnitude, div_pos_iff_of_pos_right hten, Nat.cast_pos, Nat.pos_iff_ne_zero]

/-- A number above zero has no sign. -/
theorem negative_eq_false (h : 0 < d.toRat) : d.negative = false := by
  refine Bool.eq_false_iff.mpr fun hnegative => ?_
  rw [toRat, hnegative] at h
  exact absurd h (not_lt.mpr (neg_nonpos.mpr d.magnitude_nonneg))

theorem isPositive_iff : d.isPositive = true ↔ 0 < d.toRat := by
  rw [isPositive, Bool.and_eq_true, Bool.not_eq_true', bne_iff_ne, ← magnitude_pos_iff, toRat]
  cases d.negative with
  | false => exact and_iff_right rfl
  | true => exact iff_of_false (fun h => Bool.noConfusion h.1) (not_lt.mpr (neg_nonpos.mpr d.magnitude_nonneg))

/-- **A decimal is compared with a natural number as the number it is.** -/
theorem compareNat_eq_lt_iff {n : Nat} : d.compareNat n = .lt ↔ d.toRat < n := by
  have hten : (0 : ℚ) < 10 ^ d.scale := by positivity
  have hmagnitude : compare d.mantissa (n * tenTo d.scale) = .lt ↔ d.magnitude < n := by
    rw [Nat.compare_eq_lt, magnitude, div_lt_iff₀ hten, ← cast_tenTo, ← Nat.cast_mul, Nat.cast_lt]
  have hn : (0 : ℚ) ≤ n := Nat.cast_nonneg n
  unfold compareNat
  split
  next hbelow =>
    obtain ⟨hnegative, hmantissa⟩ := Bool.and_eq_true_iff.mp hbelow
    have hpos := magnitude_pos_iff.mpr (bne_iff_ne.mp hmantissa)
    rw [toRat, hnegative]
    exact iff_of_true rfl (lt_of_lt_of_le (neg_lt_zero.mpr hpos) hn)
  next habove =>
    rw [hmagnitude, toRat]
    cases hnegative : d.negative with
    | false => rfl
    | true =>
      -- a zero with a sign is the zero
      have hzero : d.magnitude = 0 := by
        have hmantissa : d.mantissa = 0 := by simpa [hnegative] using habove
        rw [magnitude, hmantissa, Nat.cast_zero, zero_div]
      rw [hzero, signed, if_pos rfl, neg_zero]

/-! ## Trailing zeros -/

/-- Zeros at the end of a mantissa are stripped, as many as there are. -/
theorem stripZeros_le_of_dvd {m s k : Nat} (hk : k ≤ s) (h : tenTo k ∣ m) : (stripZeros m s).2 ≤ s - k := by
  induction k generalizing m s with
  | zero => exact (stripZeros_le m s).2
  | succ k ih =>
    obtain ⟨s, rfl⟩ : ∃ j, s = j + 1 := ⟨s - 1, by omega⟩
    obtain ⟨q, rfl⟩ := h
    have hten : tenTo (k + 1) * q = tenTo k * q * 10 := by rw [tenTo_succ, Nat.mul_right_comm]
    rw [hten, stripZeros, if_pos (Nat.mul_mod_left _ _), Nat.mul_div_cancel _ (by decide), Nat.add_sub_add_right]
    exact ih (Nat.le_of_succ_le_succ hk) (Nat.dvd_mul_right _ _)

/-- **Two digits of the fraction count at most exactly if the number is a whole number of cents.** -/
theorem normalize_scale_le_iff : d.normalize.scale ≤ Amount.scale ↔ ∃ k : ℤ, d.toRat * 100 = k := by
  have hten (n : Nat) : (10 : ℚ) ^ n ≠ 0 := by positivity
  constructor
  · intro hscale
    replace hscale : (stripZeros d.mantissa d.scale).2 ≤ 2 := hscale
    have hmantissa := stripZeros_mul d.mantissa d.scale
    have hle := (stripZeros_le d.mantissa d.scale).2
    generalize (stripZeros d.mantissa d.scale).1 = m at hmantissa
    generalize (stripZeros d.mantissa d.scale).2 = s at hscale hmantissa hle
    -- the number is the stripped mantissa at the scale that is left
    have hmagnitude : d.magnitude * 100 = ((m * tenTo (2 - s) : ℕ) : ℤ) := by
      have hsplit : (10 : ℚ) ^ d.scale = 10 ^ s * 10 ^ (d.scale - s) := by
        rw [← pow_add, Nat.add_sub_of_le hle]
      have hhundred : (100 : ℚ) = 10 ^ s * 10 ^ (2 - s) := by
        rw [← pow_add, Nat.add_sub_of_le hscale]
        norm_num
      rw [magnitude, ← hmantissa, hsplit, hhundred, Int.cast_natCast, Nat.cast_mul, Nat.cast_mul, cast_tenTo,
        cast_tenTo]
      field_simp
    rw [toRat, signed_mul, hmagnitude]
    cases d.negative with
    | false => exact ⟨_, rfl⟩
    | true => exact ⟨-_, (Int.cast_neg _).symm⟩
  · rintro ⟨k, hk⟩
    show (stripZeros d.mantissa d.scale).2 ≤ 2
    by_cases hscale : d.scale ≤ 2
    · exact (stripZeros_le d.mantissa d.scale).2.trans hscale
    · obtain ⟨j, hj⟩ : ∃ j, d.scale = j + 2 := ⟨d.scale - 2, by omega⟩
      -- the digits behind the cents are zeros
      have hmagnitude : d.magnitude * 100 = k.natAbs := by
        rw [← abs_of_nonneg d.magnitude_nonneg, ← abs_signed d.negative, ← toRat, Nat.cast_natAbs, Int.cast_abs, ← hk,
          abs_mul, abs_of_pos (by norm_num : (0 : ℚ) < 100)]
      have hmantissa : d.mantissa = tenTo j * k.natAbs := by
        have hcast : (d.mantissa : ℚ) = 10 ^ j * k.natAbs := by
          rw [← hmagnitude, magnitude, hj, pow_add]
          field_simp
          norm_num
        rw [← cast_tenTo] at hcast
        exact_mod_cast hcast
      refine (stripZeros_le_of_dvd (by omega) ⟨_, hmantissa⟩).trans ?_
      omega

/-! ## Moving to two places -/

/-- Zeros are appended as wanted if the mantissa has room for them. -/
theorem appendZeros_eq {m s k : Nat} (h : m * tenTo k < mantissaBound) :
    appendZeros m s k = (m * tenTo k, s + k) := by
  induction k generalizing m s with
  | zero => rw [appendZeros, tenTo_zero, Nat.mul_one, Nat.add_zero]
  | succ k ih =>
    have hnext : m * 10 * tenTo k = m * tenTo (k + 1) := by rw [tenTo_succ, Nat.mul_assoc, Nat.mul_comm 10]
    have hroom : m * 10 < mantissaBound :=
      Nat.lt_of_le_of_lt (Nat.le_mul_of_pos_right _ (tenTo_pos k)) (hnext ▸ h)
    rw [appendZeros, if_pos hroom, ih (hnext ▸ h), hnext, Nat.add_assoc, Nat.add_comm 1]

/-- Two places are reached by every number that an amount may be. -/
theorem scale_rescale (hpos : 0 < d.toRat) (h : d.toRat < Amount.unitBound) :
    (d.rescale Amount.scale (by decide)).scale = Amount.scale := by
  unfold rescale
  split
  next => rfl
  next hlt =>
    have hmantissa : d.mantissa < Amount.unitBound * tenTo d.scale := by
      have hcompare := compareNat_eq_lt_iff.mpr h
      rw [compareNat, negative_eq_false hpos, Bool.false_and, if_neg Bool.false_ne_true] at hcompare
      exact Nat.compare_eq_lt.mp hcompare
    have hroom : d.mantissa * tenTo (Amount.scale - d.scale) < mantissaBound := by
      have hscale : tenTo d.scale * tenTo (Amount.scale - d.scale) = tenTo Amount.scale := by
        rw [← tenTo_add, Nat.add_sub_of_le (Nat.le_of_not_le hlt)]
      calc d.mantissa * tenTo (Amount.scale - d.scale)
          < Amount.unitBound * tenTo d.scale * tenTo (Amount.scale - d.scale) :=
            Nat.mul_lt_mul_of_pos_right hmantissa (tenTo_pos _)
        _ = Amount.unitBound * tenTo Amount.scale := by rw [Nat.mul_assoc, hscale]
        _ < mantissaBound := by decide
    simp only [appendZeros_eq hroom]
    exact Nat.add_sub_of_le (Nat.le_of_not_le hlt)

end PaymentRelay.Decimal

namespace PaymentRelay.Amount

open Decimal

/-! ## The rules -/

/-- What a decimal has to be to make an amount. -/
inductive Rule where
  | positive
  | wholeCents
  | capacity
deriving DecidableEq, Repr

namespace Rule

/-- The place of a rule in the order in which they are looked at. -/
def place : Rule → Nat
  | positive => 0
  | wholeCents => 1
  | capacity => 2

/-- A number keeps a rule. -/
def IsKeptBy (q : ℚ) : Rule → Prop
  | positive => 0 < q
  | wholeCents => ∃ k : ℤ, q * 100 = k
  | capacity => q < 10 ^ 10

/-- A number breaks a rule, and none that is looked at before. -/
def IsFirstBrokenBy (q : ℚ) (r : Rule) : Prop :=
  ¬ r.IsKeptBy q ∧ ∀ other : Rule, other.place < r.place → other.IsKeptBy q

/-- With what a decimal that breaks a rule is turned away. -/
def refusal (d : Decimal) : Rule → Refusal
  | positive => .amountNotPositive d
  | wholeCents => .amountTooFine d
  | capacity => .amountTooLarge d

/-- How a rule that is broken is named. -/
def wording : Rule → String
  | positive => "amount must be positive, got: "
  | wholeCents => "amount has more than 2 fractional digits: "
  | capacity => "amount exceeds storage capacity: "

/-- A refusal names the rule and quotes the decimal. -/
theorem message_refusal (d : Decimal) (r : Rule) : (r.refusal d).message = r.wording ++ d.text := by
  cases r <;> rfl

/-- A number keeps every rule, or there is a first one that it breaks. -/
theorem all_kept_or_exists_broken (q : ℚ) : (∀ r : Rule, r.IsKeptBy q) ∨ ∃ r : Rule, r.IsFirstBrokenBy q := by
  by_cases hkept : ∀ r : Rule, r.IsKeptBy q
  · exact .inl hkept
  · obtain ⟨r, hr, hleast⟩ :=
      (measure place).wf.has_min {r | ¬ r.IsKeptBy q} (not_forall.mp hkept)
    exact .inr ⟨r, hr, fun other hother => not_not.mp fun hbroken => hleast other hbroken hother⟩

/-- The numbers that keep every rule are those of a whole number of cents from 1 to 10^12 - 1. -/
theorem all_kept_iff {q : ℚ} : (∀ r : Rule, r.IsKeptBy q) ↔ ∃ k : ℤ, 1 ≤ k ∧ k ≤ 10 ^ 12 - 1 ∧ q = k / 100 := by
  constructor
  · intro hkept
    obtain ⟨k, hk⟩ := hkept wholeCents
    have hpositive : 0 < q := hkept positive
    have hcapacity : q < 10 ^ 10 := hkept capacity
    have hlower : (0 : ℚ) < k := by rw [← hk]; positivity
    have hupper : (k : ℚ) < (10 ^ 12 : ℤ) := by
      rw [← hk]
      push_cast
      linarith
    refine ⟨k, Int.cast_pos.mp hlower, Int.le_sub_one_of_lt (Int.cast_lt.mp hupper), ?_⟩
    rw [← hk, mul_div_cancel_right₀ _ (by norm_num)]
  · rintro ⟨k, hlower, hupper, rfl⟩ r
    have hlower' : (1 : ℚ) ≤ k := by exact_mod_cast hlower
    have hupper' : (k : ℚ) ≤ 10 ^ 12 - 1 := by exact_mod_cast hupper
    cases r with
    | positive => exact div_pos (by linarith) (by norm_num)
    | wholeCents => exact ⟨k, div_mul_cancel₀ _ (by norm_num)⟩
    | capacity =>
      show (k : ℚ) / 100 < 10 ^ 10
      linarith

end Rule

/-! ## What an amount is made of -/

variable {d : Decimal} {a a' : Amount}

theorem not_isPositive_iff : d.isPositive = false ↔ ¬ Rule.positive.IsKeptBy d.toRat := by
  rw [← Bool.not_eq_true, isPositive_iff]
  rfl

theorem scale_lt_normalize_iff : scale < d.normalize.scale ↔ ¬ Rule.wholeCents.IsKeptBy d.toRat := by
  rw [← Nat.not_le, normalize_scale_le_iff]
  rfl

theorem compareNat_unitBound_iff : d.compareNat unitBound ≠ .lt ↔ ¬ Rule.capacity.IsKeptBy d.toRat := by
  have hbound : ((unitBound : ℕ) : ℚ) = 10 ^ 10 := by norm_num [unitBound]
  rw [ne_eq, compareNat_eq_lt_iff, hbound]
  rfl

/-- Of the rules that a decimal breaks the first is told. -/
theorem ofDecimal_of_broken {r : Rule} (h : r.IsFirstBrokenBy d.toRat) : ofDecimal d = .error (r.refusal d) := by
  obtain ⟨hbroken, hbefore⟩ := h
  have hpositive (hlater : 0 < r.place) : ¬ d.isPositive = false := fun hcheck =>
    not_isPositive_iff.mp hcheck (hbefore .positive hlater)
  have hcents (hlater : 1 < r.place) : ¬ scale < d.normalize.scale := fun hcheck =>
    scale_lt_normalize_iff.mp hcheck (hbefore .wholeCents hlater)
  unfold ofDecimal
  cases r with
  | positive => rw [dif_pos (not_isPositive_iff.mpr hbroken)]; rfl
  | wholeCents =>
    rw [dif_neg (hpositive (by decide)), dif_pos (scale_lt_normalize_iff.mpr hbroken)]
    rfl
  | capacity =>
    rw [dif_neg (hpositive (by decide)), dif_neg (hcents (by decide)), dif_pos (compareNat_unitBound_iff.mpr hbroken)]
    rfl

/-- A decimal that keeps every rule makes an amount, with the cents that it has at two places. -/
theorem ofDecimal_of_kept (h : ∀ r : Rule, r.IsKeptBy d.toRat) :
    ∃ a, ofDecimal d = .ok a ∧ a.cents = (d.rescale scale (by decide)).mantissa := by
  unfold ofDecimal
  rw [dif_neg fun hcheck => not_isPositive_iff.mp hcheck (h _),
    dif_neg fun hcheck => scale_lt_normalize_iff.mp hcheck (h _),
    dif_neg fun hcheck => compareNat_unitBound_iff.mp hcheck (h _)]
  exact ⟨_, rfl, rfl⟩

/-- **A decimal makes an amount exactly if it keeps every rule.** -/
theorem exists_ofDecimal_iff : (∃ a, ofDecimal d = .ok a) ↔ ∀ r : Rule, r.IsKeptBy d.toRat := by
  refine ⟨?_, fun hkept => (ofDecimal_of_kept hkept).imp fun _ => And.left⟩
  rintro ⟨a, ha⟩
  rcases Rule.all_kept_or_exists_broken d.toRat with hkept | ⟨r, hr⟩
  · exact hkept
  · rw [ofDecimal_of_broken hr] at ha
    cases ha

/-- **A decimal is turned away for the first rule that it breaks.** -/
theorem ofDecimal_eq_error_iff {why : Refusal} :
    ofDecimal d = .error why ↔ ∃ r : Rule, r.IsFirstBrokenBy d.toRat ∧ why = r.refusal d := by
  constructor
  · intro hwhy
    rcases Rule.all_kept_or_exists_broken d.toRat with hkept | ⟨r, hr⟩
    · obtain ⟨a, ha, -⟩ := ofDecimal_of_kept hkept
      rw [ha] at hwhy
      cases hwhy
    · rw [ofDecimal_of_broken hr] at hwhy
      exact ⟨r, hr, (Except.error.inj hwhy).symm⟩
  · rintro ⟨r, hr, rfl⟩
    exact ofDecimal_of_broken hr

/-- **What is kept of a decimal is the decimal at two places**: nothing is rounded, and no place is missing. -/
theorem toDecimal_of_ofDecimal (h : ofDecimal d = .ok a) : a.toDecimal = d.rescale scale (by decide) := by
  have hkept := exists_ofDecimal_iff.mp ⟨a, h⟩
  have hpositive : 0 < d.toRat := hkept .positive
  have hsmall : d.compareNat unitBound = .lt := by
    by_contra hcheck
    exact compareNat_unitBound_iff.mp hcheck (hkept _)
  have hscale : (d.rescale scale (by decide)).scale = scale :=
    scale_rescale hpositive (compareNat_eq_lt_iff.mp hsmall)
  have hsign : (d.rescale scale (by decide)).negative = false := by
    rw [← negative_eq_false hpositive, rescale]
    split <;> rfl
  obtain ⟨a', ha', hcents⟩ := ofDecimal_of_kept hkept
  obtain rfl : a = a' := Except.ok.inj (h.symm.trans ha')
  generalize d.rescale scale (by decide) = kept at hscale hsign hcents ⊢
  obtain ⟨negative, mantissa, places, hfits, hplaces⟩ := kept
  cases hscale
  cases hsign
  cases hcents
  rfl

/-- The cents are a hundred times the number. -/
theorem cents_eq_of_toRat {k : ℤ} (h : ofDecimal d = .ok a) (hk : d.toRat = k / 100) : (a.cents : ℤ) = k := by
  have hhundred : (100 : ℚ) ≠ 0 := by norm_num
  have hcast : (a.cents : ℚ) = k := (div_left_inj' hhundred).mp ((toRat_of_ofDecimal h).symm.trans hk)
  exact_mod_cast hcast

/-- Two amounts are the same exactly if they were made of the same number. -/
theorem eq_iff_toRat_eq {d' : Decimal} (h : ofDecimal d = .ok a) (h' : ofDecimal d' = .ok a') :
    a = a' ↔ d.toRat = d'.toRat := by
  have hhundred : (100 : ℚ) ≠ 0 := by norm_num
  rw [toRat_of_ofDecimal h, toRat_of_ofDecimal h', div_left_inj' hhundred, Nat.cast_inj]
  obtain ⟨cents, hpos, hlt⟩ := a
  obtain ⟨cents', hpos', hlt'⟩ := a'
  exact mk.injEq .. ▸ Iff.rfl

/-- An amount has one text, and a text has one amount. -/
theorem text_inj : a.text = a'.text ↔ a = a' := by
  refine ⟨fun htext => ?_, congrArg text⟩
  have hread := a.accept_text
  rw [htext, accept_text] at hread
  exact (Except.ok.inj hread).symm

/-- Amounts are in the order of their cents. -/
theorem compare_eq : a.compare a' = Ord.compare (a.cents : ℤ) (a'.cents : ℤ) := by
  change compareOfLessAndEq a.cents a'.cents = compareOfLessAndEq (a.cents : ℤ) (a'.cents : ℤ)
  simp only [compareOfLessAndEq, Nat.cast_lt, Nat.cast_inj]

/-! ## The law -/

/-- **An amount is an exact, canonical number of cents.** For every decimal:

* it makes an amount exactly if it is `k / 100` for a whole `k` from 1 to 10^12 - 1;
* what is kept of it then is the decimal at two places, without a sign and with the mantissa `k`;
* otherwise it is turned away for the first rule that it breaks, of being above zero, a whole number of cents and
  below 10^10 in this order, and the reason names this rule and quotes the decimal.

Of any two decimals that make amounts these are the same, and have the same text, exactly if the decimals are the same
number, and they are in the order of their `k`. -/
theorem exact_cents (d : Decimal) :
    ((∃ a, ofDecimal d = .ok a) ↔ ∃ k : ℤ, 1 ≤ k ∧ k ≤ 10 ^ 12 - 1 ∧ d.toRat = k / 100) ∧
    (∀ (a : Amount) (k : ℤ), ofDecimal d = .ok a → d.toRat = k / 100 →
      let kept := d.rescale scale (by decide)
      a.toDecimal = kept ∧ kept.negative = false ∧ kept.scale = 2 ∧ (kept.mantissa : ℤ) = k ∧ kept.toRat = d.toRat) ∧
    (∀ why, ofDecimal d = .error why ↔
      ∃ r : Rule, r.IsFirstBrokenBy d.toRat ∧ why = r.refusal d ∧ why.message = r.wording ++ d.text) ∧
    ∀ (d' : Decimal) (a a' : Amount), ofDecimal d = .ok a → ofDecimal d' = .ok a' →
      (a = a' ↔ d.toRat = d'.toRat) ∧ (a.text = a'.text ↔ d.toRat = d'.toRat) ∧
      ∀ k k' : ℤ, d.toRat = k / 100 → d'.toRat = k' / 100 → a.compare a' = Ord.compare k k' := by
  refine ⟨exists_ofDecimal_iff.trans Rule.all_kept_iff, ?kept, fun why => ?refused, ?compared⟩
  case kept =>
    intro a k ha hk kept
    have hkept : a.toDecimal = kept := toDecimal_of_ofDecimal ha
    rw [← hkept]
    refine ⟨rfl, rfl, rfl, cents_eq_of_toRat ha hk, ?_⟩
    rw [toRat_of_ofDecimal ha]
    exact toRat_of_ofDecimal a.ofDecimal_toDecimal
  case refused =>
    rw [ofDecimal_eq_error_iff]
    refine exists_congr fun r => and_congr_right fun _ => ⟨?_, And.left⟩
    rintro rfl
    exact ⟨rfl, r.message_refusal d⟩
  case compared =>
    intro d' a a' ha ha'
    have heq := eq_iff_toRat_eq ha ha'
    refine ⟨heq, text_inj.trans heq, fun k k' hk hk' => ?_⟩
    rw [← cents_eq_of_toRat ha hk, ← cents_eq_of_toRat ha' hk', compare_eq]

/-- The largest amount with as many zeros behind it as a mantissa has room for. -/
def manyZeros : Decimal := ⟨false, 9999999999990000000000000000, 18, by decide, by decide⟩

/-- A tenth, with fewer places than an amount has. -/
def oneTenth : Decimal := ⟨false, 1, 1, by decide, by decide⟩

/-- Both make amounts, with places dropped and with a place added, and the larger one comes last. -/
theorem exact_cents_of_manyZeros :
    ∃ a a' : Amount, ofDecimal manyZeros = .ok a ∧ ofDecimal oneTenth = .ok a' ∧
      (manyZeros.rescale scale (by decide)).mantissa = 999999999999 ∧
      (oneTenth.rescale scale (by decide)).mantissa = 10 ∧ a.text ≠ a'.text ∧ a.compare a' = .gt := by
  have hmany : manyZeros.toRat = ((999999999999 : ℤ) : ℚ) / 100 := by decide +kernel
  have htenth : oneTenth.toRat = ((10 : ℤ) : ℚ) / 100 := by decide +kernel
  obtain ⟨a, ha⟩ := (exact_cents manyZeros).1.mpr ⟨_, by decide, by decide, hmany⟩
  obtain ⟨a', ha'⟩ := (exact_cents oneTenth).1.mpr ⟨_, by decide, by decide, htenth⟩
  obtain ⟨-, -, -, hcents, -⟩ := (exact_cents manyZeros).2.1 a _ ha hmany
  obtain ⟨-, -, -, hcents', -⟩ := (exact_cents oneTenth).2.1 a' _ ha' htenth
  obtain ⟨-, htext, hcompare⟩ := (exact_cents manyZeros).2.2.2 oneTenth a a' ha ha'
  refine ⟨a, a', ha, ha', Int.ofNat.inj hcents, Int.ofNat.inj hcents', ?_, hcompare _ _ hmany htenth⟩
  rw [ne_eq, htext, hmany, htenth]
  decide +kernel

end PaymentRelay.Amount
