import Mathlib.Data.List.TakeWhile
import PaymentRelay.Proofs.Binary64.Rounding
import PaymentRelay.Proofs.Decimal.Numerals
import PaymentRelay.Proofs.Json.Numbers
import PaymentRelay.Proofs.Json.Readings

/-!
# What numbers denote

A number denotes its digits at their places, times its power of ten. An integer that fits 64 bits is kept as it is.
Of any other number the digits that 64 bits hold are read, which are sixty bits at least if any are left off
(`Appends`), and the double is made of these in rounded steps. So the double is off by six parts in 2^53 at most,
unless it is so small that no amount comes of it (`NumberText.double?_spec`).
-/

namespace PaymentRelay.Json

open Binary64 Decimal

/-- A number followed by further digits. -/
def digitsFrom (n : ℕ) (ds : Octets) : ℕ :=
  ds.foldl (fun n d => n * 10 + digitValue d) n

namespace NumberText

/-- The digits behind the point. -/
def fractionOctets (t : NumberText) : Octets :=
  t.fraction.getD []

/-- What a number denotes, without its sign. -/
def magnitude (t : NumberText) : ℚ :=
  digitsValue (t.whole ++ t.fractionOctets) / 10 ^ t.fractionOctets.length * 10 ^ t.exponent.getD 0

/-- **What a number denotes.** -/
def toRat (t : NumberText) : ℚ :=
  signed t.negative t.magnitude

/-- The parts of a number hold digits only. -/
structure IsFormed (t : NumberText) : Prop where
  whole : ∀ b ∈ t.whole, isDigit b = true
  fraction : ∀ b ∈ t.fractionOctets, isDigit b = true

end NumberText

/-! ## Parts of a number -/

theorem takeDigits_spec {s ds rest : Octets} (h : takeDigits s = .ok (ds, rest)) : ∀ b ∈ ds, isDigit b = true := by
  unfold takeDigits at h
  split at h
  next => cases h
  next =>
    cases h
    exact fun b hb => List.mem_takeWhile_imp (p := isDigit) hb

theorem takeFraction_spec {s rest : Octets} {fraction : Option Octets} (h : takeFraction s = .ok (fraction, rest)) :
    ∀ b ∈ fraction.getD [], isDigit b = true := by
  unfold takeFraction at h
  split at h
  next =>
    split at h
    next =>
      obtain ⟨⟨ds, rest'⟩, hdigits, hfound⟩ := map_eq_ok.mp h
      cases hfound
      exact takeDigits_spec hdigits
    next => cases h; exact fun b hb => absurd hb List.not_mem_nil
  next => cases h; exact fun b hb => absurd hb List.not_mem_nil

/-- Behind its sign, if it has one, a number has no sign. -/
theorem exists_takeUnsigned (s : Octets) : ∃ negative s', takeNumber s = takeUnsigned negative s' := by
  cases s with
  | nil => exact ⟨false, [], rfl⟩
  | cons b rest =>
    unfold takeNumber
    cases hb : b == octet '-' with
    | true => exact ⟨true, rest, by simp only [hb, if_true]; rfl⟩
    | false => exact ⟨false, b :: rest, by simp only [hb, Bool.false_eq_true, if_false]; rfl⟩

/-- What is taken for a number has digits for its parts. -/
theorem takeNumber_isFormed {s rest : Octets} {t : NumberText} (h : takeNumber s = .ok (t, rest)) : t.IsFormed := by
  obtain ⟨negative, s', hunsigned⟩ := exists_takeUnsigned s
  rw [hunsigned] at h
  obtain ⟨⟨whole, s₁⟩, hwhole, h⟩ := bind_eq_ok.mp h
  dsimp only at h
  split at h
  next => cases h
  next =>
    obtain ⟨⟨fraction, s₂⟩, hfraction, h⟩ := bind_eq_ok.mp h
    obtain ⟨⟨exponent, s₃⟩, hexponent, h⟩ := bind_eq_ok.mp h
    cases h
    exact ⟨takeDigits_spec hwhole, takeFraction_spec hfraction⟩

theorem NumberText.magnitude_nonneg (t : NumberText) : 0 ≤ t.magnitude := by
  unfold magnitude
  positivity

/-- An integer that is kept is what the number denotes. -/
theorem NumberText.toRat_of_integer? {t : NumberText} {i : ℤ} (h : t.integer? = some i) : t.toRat = i := by
  unfold integer? at h
  split at h
  next => cases h
  next hparts =>
    obtain ⟨hfraction, hexponent⟩ := Bool.or_eq_false_iff.mp (Bool.eq_false_iff.mpr hparts)
    have hmagnitude : t.magnitude = digitsValue t.whole := by
      rw [magnitude, fractionOctets, Option.not_isSome_iff_eq_none.mp (Bool.eq_false_iff.mp hfraction),
        Option.not_isSome_iff_eq_none.mp (Bool.eq_false_iff.mp hexponent)]
      simp only [Option.getD_none, List.append_nil, List.length_nil, pow_zero, div_one, zpow_zero, mul_one]
    rw [toRat, hmagnitude]
    dsimp only at h
    split at h
    next hnegative =>
      split at h
      next => cases h; rw [hnegative, signed, if_pos rfl, Int.cast_neg, Int.cast_natCast]
      next => cases h
    next hpositive =>
      split at h
      next => cases h; rw [signed, if_neg hpositive, Int.cast_natCast]
      next => cases h

/-! ## Digits that 64 bits hold -/

section

variable {n : ℕ} {ds : Octets}

theorem digitValue_le {b : UInt8} (h : isDigit b = true) : digitValue b ≤ 9 := by
  simp only [isDigit, Bool.and_eq_true, decide_eq_true_eq] at h
  have hle : b.toNat ≤ 57 := h.2
  exact Nat.sub_le_of_le_add hle

theorem digitsFrom_append (n : ℕ) (ds es : Octets) : digitsFrom n (ds ++ es) = digitsFrom (digitsFrom n ds) es :=
  List.foldl_append

/-- Further digits stay below the next number with as many places. -/
theorem digitsFrom_bounds (h : ∀ b ∈ ds, isDigit b = true) :
    n * 10 ^ ds.length ≤ digitsFrom n ds ∧ digitsFrom n ds < (n + 1) * 10 ^ ds.length := by
  induction ds generalizing n with
  | nil =>
    rw [List.length_nil, pow_zero, mul_one, mul_one]
    exact ⟨le_refl n, n.lt_succ_self⟩
  | cons d ds ih =>
    have hnine := digitValue_le (h d List.mem_cons_self)
    obtain ⟨hlow, hhigh⟩ := ih (n := n * 10 + digitValue d) fun b hb => h b (List.mem_cons_of_mem d hb)
    rw [List.length_cons, pow_succ']
    have hstep : digitsFrom n (d :: ds) = digitsFrom (n * 10 + digitValue d) ds := rfl
    rw [hstep]
    refine ⟨le_trans ?_ hlow, lt_of_lt_of_le hhigh ?_⟩
    · rw [← mul_assoc]
      exact Nat.mul_le_mul_right _ (Nat.le_add_right _ _)
    · rw [← mul_assoc]
      exact Nat.mul_le_mul_right _ (by omega)

/-- How far digits are appended: `r` of them are left off, because 64 bits are full. -/
structure Appends (n : ℕ) (ds : Octets) (n' j r : ℕ) : Prop where
  length_eq : ds.length = j + r
  fits : n' < Width.bits64
  /-- What was appended. -/
  low : n * 10 ^ j ≤ n'
  high : n' < (n + 1) * 10 ^ j
  /-- What was left off. -/
  whole_low : n' * 10 ^ r ≤ digitsFrom n ds
  whole_high : digitsFrom n ds < (n' + 1) * 10 ^ r
  full : r = 0 ∨ 2 ^ 60 ≤ n'

theorem exists_appends (h : ∀ b ∈ ds, isDigit b = true) (hn : n < Width.bits64) (count : ℕ) :
    ∃ n' j r, appendDigits n count ds = (n', count + j) ∧ Appends n ds n' j r := by
  induction ds generalizing n count with
  | nil =>
    refine ⟨n, 0, 0, rfl, rfl, hn, ?_, ?_, ?_, ?_, .inl rfl⟩
    all_goals
      simp only [pow_zero, mul_one, digitsFrom, List.foldl_nil]
      omega
  | cons d ds ih =>
    have hnine := digitValue_le (h d List.mem_cons_self)
    rw [appendDigits]
    split
    next hfits =>
      obtain ⟨n', j, r, happend, hrest⟩ := ih (fun b hb => h b (List.mem_cons_of_mem d hb)) hfits (count + 1)
      refine ⟨n', j + 1, r, ?_, ?_, hrest.fits, ?_, ?_, hrest.whole_low, hrest.whole_high, hrest.full⟩
      · rw [happend, Nat.add_right_comm, Nat.add_assoc]
      · rw [List.length_cons, hrest.length_eq, Nat.add_right_comm]
      · refine le_trans ?_ hrest.low
        rw [pow_succ', ← mul_assoc]
        exact Nat.mul_le_mul_right _ (Nat.le_add_right _ _)
      · refine lt_of_lt_of_le hrest.high ?_
        rw [pow_succ', ← mul_assoc]
        exact Nat.mul_le_mul_right _ (by omega)
    next hfull =>
      obtain ⟨hlow, hhigh⟩ := digitsFrom_bounds (n := n) h
      refine ⟨n, 0, (d :: ds).length, rfl, (Nat.zero_add _).symm, hn, ?_, ?_, hlow, hhigh, .inr ?_⟩
      · rw [pow_zero, mul_one]
      · rw [pow_zero, mul_one]
        exact n.lt_succ_self
      · unfold Width.bits64 at hfull
        omega

end

/-- Two numbers between the same neighbours of sixty bits are near. -/
theorem within_of_bounds {n : ℕ} {unit a b : ℚ} (hn : 2 ^ 60 ≤ n) (hunit : 0 < unit)
    (ha : n * unit ≤ a ∧ a < (n + 1) * unit) (hb : n * unit ≤ b ∧ b < (n + 1) * unit) : Within (1 / 2 ^ 60) a b := by
  have hn' : (2 : ℚ) ^ 60 ≤ n := by exact_mod_cast hn
  have hlarge : 2 ^ 60 * unit ≤ n * unit := mul_le_mul_of_nonneg_right hn' hunit.le
  rw [Within, abs_le]
  constructor <;> linarith

/-- The digits that are read stand for all digits, to sixty bits. -/
theorem Appends.within {whole fraction : Octets} {n n' j j' r r' : ℕ} (h : Appends 0 whole n j r)
    (h' : Appends n fraction n' j' r') (hfraction : ∀ b ∈ fraction, isDigit b = true) :
    Within (1 / 2 ^ 60) (n' * 10 ^ ((r : ℤ) - j')) (digitsValue (whole ++ fraction) / 10 ^ fraction.length) := by
  have hvalue : digitsValue (whole ++ fraction) = digitsFrom (digitsFrom 0 whole) fraction := digitsFrom_append 0 _ _
  have hpower : (0 : ℚ) < 10 ^ j' := by positivity
  have hpower' : (0 : ℚ) < 10 ^ r' := by positivity
  have hscale : (n' : ℚ) * 10 ^ ((r : ℤ) - j') = n' * 10 ^ r / 10 ^ j' := by
    rw [zpow_sub₀ (by norm_num), zpow_natCast, zpow_natCast, mul_div_assoc]
  have hall : (10 : ℚ) ^ fraction.length = 10 ^ j' * 10 ^ r' := by rw [h'.length_eq, pow_add]
  rw [hvalue, hscale, hall]
  rcases h.full with hr | hfull
  · -- the whole part was read to the end
    have hwhole : digitsFrom 0 whole = n := by
      have hlow := h.whole_low
      have hhigh := h.whole_high
      rw [hr, pow_zero, mul_one] at hlow hhigh
      omega
    rw [hwhole, hr, pow_zero, mul_one]
    have hlow : (n' : ℚ) * 10 ^ r' ≤ digitsFrom n fraction := by exact_mod_cast h'.whole_low
    have hhigh : (digitsFrom n fraction : ℚ) < (n' + 1) * 10 ^ r' := by exact_mod_cast h'.whole_high
    have hvalueLow : (n' : ℚ) / 10 ^ j' ≤ digitsFrom n fraction / (10 ^ j' * 10 ^ r') := by
      rw [div_le_div_iff₀ hpower (by positivity)]
      linarith [mul_le_mul_of_nonneg_right hlow hpower.le]
    rcases h'.full with hr' | hfull'
    · -- and so was the fraction
      rw [hr', pow_zero, mul_one] at hlow hhigh
      have hsame : n' = digitsFrom n fraction :=
        le_antisymm (by exact_mod_cast hlow) (Nat.lt_succ_iff.mp (by exact_mod_cast hhigh))
      rw [hr', pow_zero, mul_one, ← hsame, Within, sub_self, abs_zero]
      positivity
    · refine within_of_bounds hfull' (one_div_pos.mpr hpower) ⟨?_, ?_⟩ ⟨?_, ?_⟩
      · rw [mul_one_div]
      · rw [mul_one_div]
        gcongr
        linarith
      · rwa [mul_one_div]
      · rw [mul_one_div, div_lt_div_iff₀ (by positivity) hpower]
        linarith [mul_lt_mul_of_pos_right hhigh hpower]
  · -- the first digits that are left off stand in the whole part
    have hunit : (0 : ℚ) < 10 ^ r := by positivity
    obtain ⟨hfractionLow, hfractionHigh⟩ := digitsFrom_bounds (n := digitsFrom 0 whole) hfraction
    rw [h'.length_eq, pow_add] at hfractionLow hfractionHigh
    have hlow : (n : ℚ) * 10 ^ j' ≤ n' := by exact_mod_cast h'.low
    have hhigh : (n' : ℚ) < (n + 1) * 10 ^ j' := by exact_mod_cast h'.high
    have hwholeLow : (n : ℚ) * 10 ^ r ≤ digitsFrom 0 whole := by exact_mod_cast h.whole_low
    have hwholeHigh : (digitsFrom 0 whole : ℚ) + 1 ≤ (n + 1) * 10 ^ r := by exact_mod_cast h.whole_high
    refine within_of_bounds hfull hunit ⟨?_, ?_⟩ ⟨?_, ?_⟩
    · rw [le_div_iff₀ hpower]
      linarith [mul_le_mul_of_nonneg_right hlow hunit.le]
    · rw [div_lt_iff₀ hpower]
      linarith [mul_lt_mul_of_pos_right hhigh hunit]
    · rw [le_div_iff₀ (by positivity)]
      refine le_trans (mul_le_mul_of_nonneg_right hwholeLow (by positivity)) ?_
      exact_mod_cast hfractionLow
    · rw [div_lt_iff₀ (by positivity)]
      refine lt_of_lt_of_le ?_ (mul_le_mul_of_nonneg_right hwholeHigh (by positivity))
      exact_mod_cast hfractionHigh

/-- **The double of a number is near**, if it is not small. -/
theorem NumberText.double?_spec {t : NumberText} (ht : t.IsFormed) {x : Binary64} (h : t.double? = some x) :
    x.Canonical ∧ x.negative = t.negative ∧
      (1 / 1000 ≤ x.magnitude → Within (6 / 2 ^ 53) x.magnitude t.magnitude) := by
  obtain ⟨n, j, r, happend, hwhole⟩ := exists_appends ht.whole (by decide : 0 < Width.bits64) 0
  obtain ⟨n', j', r', happend', hfraction⟩ := exists_appends ht.fraction hwhole.fits 0
  have hleft : t.whole.length - (0 + j) = r := by
    rw [hwhole.length_eq]
    omega
  have hread : t.double? = ofScientific? t.negative n' ((r : ℤ) - j' + t.exponent.getD 0) := by
    have hsecond : appendDigits n 0 (t.fraction.getD []) = (n', 0 + j') := happend'
    unfold double?
    rw [happend]
    dsimp only
    rw [hsecond, hleft, Nat.zero_add]
  rw [hread] at h
  obtain ⟨hcanonical, hsign⟩ := ofScientific?_spec h
  refine ⟨hcanonical, hsign, fun hx => ?_⟩
  have hpower : (0 : ℚ) < 10 ^ t.exponent.getD 0 := by positivity
  have hdouble := ofScientific?_within h (by exact hfraction.fits) hx
  have hdigits := (hwhole.within hfraction ht.fraction).mul_right hpower.le
  rw [mul_assoc, ← zpow_add₀ (by norm_num)] at hdigits
  exact (hdouble.trans hdigits (by norm_num)).mono (by norm_num) t.magnitude_nonneg

end PaymentRelay.Json
