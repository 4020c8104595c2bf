import Mathlib.Algebra.Order.Field.Power
import Mathlib.Algebra.Order.Field.Rat
import Mathlib.Tactic.FieldSimp
import Mathlib.Tactic.Linarith
import Mathlib.Tactic.NormNum
import Mathlib.Tactic.Positivity
import Mathlib.Tactic.Ring
import PaymentRelay.Binary64.Basic

/-!
# How far rounding goes

Every result of double arithmetic is an exact quotient that was rounded once (`Rounds`): it has all its bits
unless it is one of the smallest doubles, and it is off by one part in 2^53, or by half the smallest double. For all
but the smallest this bounds the relative error (`Within`), and relative errors add up over products and quotients.
So a double that was read in rounded steps from a significand and a power of ten is off by five parts in 2^53 at
most, unless it is so small that no amount comes of it.
-/

namespace PaymentRelay

/-! ## Relative errors -/

/-- A number is off another one by so much of the latter at most. -/
def Within (ε a b : ℚ) : Prop :=
  |a - b| ≤ ε * b

namespace Within

variable {ε δ a b c d : ℚ}

theorem mono (h : Within ε a b) (hle : ε ≤ δ) (hb : 0 ≤ b) : Within δ a b :=
  le_trans h (mul_le_mul_of_nonneg_right hle hb)

theorem le (h : Within ε a b) : a ≤ (1 + ε) * b := by
  have := (abs_le.mp h).2
  linarith

theorem ge (h : Within ε a b) : (1 - ε) * b ≤ a := by
  have := (abs_le.mp h).1
  linarith

theorem mul_right (h : Within ε a b) (hc : 0 ≤ c) : Within ε (a * c) (b * c) := by
  rw [Within, ← sub_mul, abs_mul, abs_of_nonneg hc, ← mul_assoc]
  exact mul_le_mul_of_nonneg_right h hc

theorem trans (h : Within ε a b) (h' : Within δ b c) (hε : 0 ≤ ε) : Within (ε + δ + ε * δ) a c :=
  calc |a - c| ≤ |a - b| + |b - c| := abs_sub_le a b c
    _ ≤ ε * b + δ * c := add_le_add h h'
    _ ≤ ε * ((1 + δ) * c) + δ * c := by gcongr; exact h'.le
    _ = (ε + δ + ε * δ) * c := by ring

theorem mul (h : Within ε a b) (h' : Within δ c d) (hε : 0 ≤ ε) (hb : 0 ≤ b) (hd : 0 ≤ d) (hδ : δ ≤ 1) :
    Within (ε + δ + ε * δ) (a * c) (b * d) := by
  have hc : 0 ≤ c := le_trans (mul_nonneg (by linarith) hd) h'.ge
  calc |a * c - b * d| = |(a - b) * c + b * (c - d)| := by ring_nf
    _ ≤ |a - b| * c + b * |c - d| := by
      refine le_trans (abs_add_le _ _) (le_of_eq ?_)
      rw [abs_mul, abs_mul, abs_of_nonneg hc, abs_of_nonneg hb]
    _ ≤ ε * b * ((1 + δ) * d) + b * (δ * d) := by
      gcongr
      · exact h
      · exact h'.le
      · exact h'
    _ = (ε + δ + ε * δ) * (b * d) := by ring

theorem div (h : Within ε a b) (h' : Within δ c d) (hb : 0 ≤ b) (hd : 0 < d) (hδ : δ < 1) (hsum : 0 ≤ ε + δ) :
    Within ((ε + δ) / (1 - δ)) (a / c) (b / d) := by
  have hleast : 0 < (1 - δ) * d := mul_pos (by linarith) hd
  have hc : 0 < c := lt_of_lt_of_le hleast h'.ge
  have hcross : |a * d - c * b| ≤ (ε + δ) * (b * d) :=
    calc |a * d - c * b| = |(a - b) * d + b * (d - c)| := by ring_nf
      _ ≤ |a - b| * d + b * |c - d| := by
        refine le_trans (abs_add_le _ _) (le_of_eq ?_)
        rw [abs_mul, abs_mul, abs_of_pos hd, abs_of_nonneg hb, abs_sub_comm d c]
      _ ≤ ε * b * d + b * (δ * d) := by
        gcongr
        · exact h
        · exact h'
      _ = (ε + δ) * (b * d) := by ring
  calc |a / c - b / d| = |a * d - c * b| / (c * d) := by
        rw [div_sub_div _ _ hc.ne' hd.ne', abs_div, abs_of_pos (mul_pos hc hd)]
    _ ≤ (ε + δ) * (b * d) / ((1 - δ) * d * d) := by
      gcongr
      exact h'.ge
    _ = (ε + δ) / (1 - δ) * (b / d) := by
      have : (1 - δ) ≠ 0 := by linarith
      field_simp

end Within

namespace Binary64

/-! ## Numbers -/

/-- The number a double is, without its sign. -/
def magnitude (x : Binary64) : ℚ :=
  x.significand * 2 ^ x.exponent

/-- The significand fits, and it has all its bits unless the exponent is the least one. -/
structure Canonical (x : Binary64) : Prop where
  significand_lt : x.significand < significandBound
  least_or_full : x.exponent = minExponent ∨ leastNormal ≤ x.significand

/-- A double that is the number `q` rounded. -/
structure Rounds (q : ℚ) (x : Binary64) : Prop where
  canonical : x.Canonical
  near : |x.magnitude - q| ≤ max (2 ^ (minExponent - 1)) (q / 2 ^ 53)

theorem cast_pow (b : Nat) {e : ℤ} (he : 0 ≤ e) : ((Nat.pow b e.toNat : ℕ) : ℚ) = b ^ e := by
  rw [Nat.pow_eq, Nat.cast_pow, ← zpow_natCast, Int.toNat_of_nonneg he]

theorem toQuotient_spec (x : Binary64) :
    (x.toQuotient.1 : ℚ) / x.toQuotient.2 = x.magnitude ∧ 0 < x.toQuotient.2 := by
  unfold toQuotient magnitude
  split
  next he =>
    rw [Nat.cast_mul, cast_pow 2 he, Nat.cast_one, div_one]
    exact ⟨rfl, Nat.one_pos⟩
  next he =>
    rw [cast_pow 2 (by omega), zpow_neg, div_inv_eq_mul]
    exact ⟨rfl, Nat.pow_pos (by decide)⟩

/-! ## Quotients in other units -/

section

variable {b num den : Nat}

/-- A quotient in units of a power, again as a quotient. -/
def inPowers (b num den : Nat) (e : ℤ) : Nat × Nat :=
  if 0 ≤ e then (num, den * Nat.pow b e.toNat) else (num * Nat.pow b (-e).toNat, den)

theorem inUnits_eq (num den : Nat) (e : ℤ) : inUnits num den e = inPowers 2 num den e := rfl

theorem inPowers_spec (hb : 0 < b) (num den : Nat) (e : ℤ) :
    ((inPowers b num den e).1 : ℚ) / (inPowers b num den e).2 = num / den / b ^ e ∧
      (0 < den → 0 < (inPowers b num den e).2) := by
  unfold inPowers
  split
  next he =>
    rw [Nat.cast_mul, cast_pow b he, div_div]
    exact ⟨rfl, fun h => Nat.mul_pos h (Nat.pow_pos hb)⟩
  next he =>
    rw [Nat.cast_mul, cast_pow b (by omega), zpow_neg, div_div, mul_comm (den : ℚ), ← div_div, div_eq_mul_inv]
    exact ⟨rfl, id⟩

theorem inUnits_spec (num den : Nat) (e : ℤ) :
    ((inUnits num den e).1 : ℚ) / (inUnits num den e).2 = num / den / 2 ^ e ∧ (0 < den → 0 < (inUnits num den e).2) := by
  have h := inPowers_spec (b := 2) (by decide) num den e
  rwa [← inUnits_eq, Nat.cast_ofNat] at h

/-- A quotient lies between the powers that the lengths of its parts tell. -/
theorem quotient_bounds (hb : 0 < b) {i j : Nat} (hden : 0 < den) (hnumLow : b ^ i ≤ num)
    (hnumHigh : num < b ^ (i + 1)) (hdenLow : b ^ j ≤ den) (hdenHigh : den < b ^ (j + 1)) :
    (b : ℚ) ^ ((i : ℤ) - j - 1) ≤ num / den ∧ (num : ℚ) / den < b ^ ((i : ℤ) - j + 1) := by
  have hb' : (0 : ℚ) < b := by exact_mod_cast hb
  have hpos : (0 : ℚ) < den := by exact_mod_cast hden
  have hnumLow' : (b : ℚ) ^ i ≤ num := by exact_mod_cast hnumLow
  have hnumHigh' : (num : ℚ) < b ^ (i + 1) := by exact_mod_cast hnumHigh
  have hdenLow' : (b : ℚ) ^ j ≤ den := by exact_mod_cast hdenLow
  have hdenHigh' : (den : ℚ) < b ^ (j + 1) := by exact_mod_cast hdenHigh
  have hsplit (k l : Nat) : (b : ℚ) ^ ((k : ℤ) - l) = b ^ k / b ^ l := by
    rw [zpow_sub₀ hb'.ne', zpow_natCast, zpow_natCast]
  refine ⟨?_, ?_⟩
  · rw [show (i : ℤ) - j - 1 = (i : ℤ) - (j + 1 : ℕ) by push_cast; ring, hsplit]
    gcongr
  · rw [show (i : ℤ) - j + 1 = ((i + 1 : ℕ) : ℤ) - j by push_cast; ring, hsplit]
    gcongr

end

/-! ## One rounding -/

section

variable (num : Nat) {den : Nat}

theorem div_eq_add_mod (hden : 0 < den) :
    (num : ℚ) / den = (num / den : ℕ) + ((num % den : ℕ) : ℚ) / den := by
  have hpos : (0 : ℚ) < den := by exact_mod_cast hden
  rw [eq_comm, ← mul_div_cancel_left₀ ((num / den : ℕ) : ℚ) hpos.ne', ← add_div]
  congr 1
  exact_mod_cast Nat.div_add_mod num den

/-- From the middle on the integer above is half a unit away at most. -/
theorem near_above (hden : 0 < den) (h : den ≤ 2 * (num % den)) :
    |((num / den + 1 : ℕ) : ℚ) - num / den| ≤ 1 / 2 := by
  have hpos : (0 : ℚ) < den := by exact_mod_cast hden
  have hhalf : (den : ℚ) ≤ 2 * (num % den : ℕ) := by exact_mod_cast h
  have hle : ((num % den : ℕ) : ℚ) ≤ den := by exact_mod_cast (Nat.mod_lt num hden).le
  have hone : ((num % den : ℕ) : ℚ) / den ≤ 1 := (div_le_one hpos).mpr hle
  have hmiddle : 1 / 2 ≤ ((num % den : ℕ) : ℚ) / den := by
    rw [le_div_iff₀ hpos]
    linarith
  rw [div_eq_add_mod num hden, abs_le]
  push_cast
  constructor <;> linarith

/-- Up to the middle the integer below is. -/
theorem near_below (hden : 0 < den) (h : 2 * (num % den) ≤ den) : |((num / den : ℕ) : ℚ) - num / den| ≤ 1 / 2 := by
  have hpos : (0 : ℚ) < den := by exact_mod_cast hden
  have hhalf : 2 * ((num % den : ℕ) : ℚ) ≤ den := by exact_mod_cast h
  have hzero : 0 ≤ ((num % den : ℕ) : ℚ) / den := by positivity
  have hmiddle : ((num % den : ℕ) : ℚ) / den ≤ 1 / 2 := by
    rw [div_le_iff₀ hpos]
    linarith
  rw [div_eq_add_mod num hden, abs_le]
  constructor <;> linarith

/-- The nearest integer is half a unit away at most. -/
theorem nearestEven_spec (hden : 0 < den) : |(nearestEven num den : ℚ) - num / den| ≤ 1 / 2 := by
  unfold nearestEven
  dsimp only
  split
  next hup => exact near_above num hden (by omega)
  next hdown => exact near_below num hden (by omega)

end

/-- What is near in some unit is as near by the unit. -/
theorem near_mul {s q unit ε : ℚ} (hunit : 0 < unit) (h : |s - q / unit| ≤ ε) : |s * unit - q| ≤ ε * unit := by
  have hscaled : s * unit - q = (s - q / unit) * unit := by
    rw [sub_mul, div_mul_cancel₀ _ hunit.ne']
  rw [hscaled, abs_mul, abs_of_pos hunit]
  exact mul_le_mul_of_nonneg_right h hunit.le

/-- In units of the exponent that is taken a quotient fits the significand, and fills it unless the exponent
is the least one. -/
theorem exponentOf_spec {num den : Nat} (hnum : 0 < num) (hden : 0 < den) :
    (num : ℚ) / den < significandBound * 2 ^ exponentOf num den ∧
      (exponentOf num den = minExponent ∨ (leastNormal : ℚ) * 2 ^ exponentOf num den ≤ num / den) := by
  obtain ⟨hlow, hhigh⟩ := quotient_bounds (by decide) hden (Nat.log2_self_le hnum.ne') Nat.lt_log2_self
    (Nat.log2_self_le hden.ne') Nat.lt_log2_self
  rw [Nat.cast_ofNat] at hlow hhigh
  unfold exponentOf
  set guess : ℤ := max minExponent ((num.log2 : ℤ) - den.log2 - 53) with hguess
  obtain ⟨hunits, hpos⟩ := inUnits_spec num den guess
  have hpower : (0 : ℚ) < 2 ^ guess := by positivity
  have hfits : (inUnits num den guess).1 < significandBound * (inUnits num den guess).2 ↔
      (num : ℚ) / den < significandBound * 2 ^ guess := by
    have hden' : (0 : ℚ) < (inUnits num den guess).2 := by exact_mod_cast hpos hden
    rw [← div_lt_iff₀ hpower, ← hunits, div_lt_iff₀ hden']
    exact_mod_cast Iff.rfl
  dsimp only
  split
  next hlt =>
    refine ⟨hfits.mp hlt, ?_⟩
    rcases max_choice minExponent ((num.log2 : ℤ) - den.log2 - 53) with hmin | hlog
    · exact .inl (hguess.trans hmin)
    · refine .inr (le_trans (le_of_eq ?_) hlow)
      rw [hguess, hlog, show (num.log2 : ℤ) - den.log2 - 1 = 52 + ((num.log2 : ℤ) - den.log2 - 53) by ring,
        zpow_add₀ (by norm_num)]
      norm_num [leastNormal]
  next hge =>
    have hbound : (2 : ℚ) ^ guess * 2 ^ 53 = significandBound * 2 ^ guess := by
      rw [mul_comm]
      norm_num [significandBound]
    refine ⟨lt_of_lt_of_le hhigh ?_, .inr ?_⟩
    · have hle : (num.log2 : ℤ) - den.log2 + 1 ≤ guess + 54 := by
        have := le_max_right minExponent ((num.log2 : ℤ) - den.log2 - 53)
        omega
      calc (2 : ℚ) ^ ((num.log2 : ℤ) - den.log2 + 1) ≤ 2 ^ (guess + 54) := zpow_le_zpow_right₀ (by norm_num) hle
        _ = significandBound * 2 ^ (guess + 1) := by
          rw [zpow_add₀ (by norm_num), zpow_add₀ (by norm_num)]
          norm_num [significandBound]
          ring
    · have hge' := not_lt.mp fun h => hge (hfits.mpr h)
      refine le_trans (le_of_eq ?_) hge'
      rw [zpow_add₀ (by norm_num)]
      norm_num [significandBound, leastNormal]
      ring

theorem canonical_zero (negative : Bool) : (zero negative).Canonical :=
  ⟨(by decide : 0 < significandBound), .inl rfl⟩

theorem magnitude_zero (negative : Bool) : (zero negative).magnitude = 0 := by
  rw [magnitude, zero, Nat.cast_zero, zero_mul]

/-- **A quotient is rounded once.** -/
theorem ofQuotient?_spec {negative : Bool} {num den : Nat} {x : Binary64}
    (h : ofQuotient? negative num den = some x) : Rounds (num / den) x ∧ x.negative = negative := by
  unfold ofQuotient? at h
  split at h
  next hzero =>
    cases h
    refine ⟨⟨canonical_zero _, ?_⟩, rfl⟩
    have hq : (num : ℚ) / den = 0 := by
      rcases hzero with rfl | rfl
      · rw [Nat.cast_zero, zero_div]
      · rw [Nat.cast_zero, div_zero]
    rw [hq, magnitude_zero, sub_self, abs_zero]
    positivity
  next hne =>
    have hnum : 0 < num := Nat.pos_of_ne_zero fun h => hne (.inl h)
    have hden : 0 < den := Nat.pos_of_ne_zero fun h => hne (.inr h)
    obtain ⟨hfits, hfull⟩ := exponentOf_spec hnum hden
    generalize exponentOf num den = e at h hfits hfull
    obtain ⟨hunits, hpos⟩ := inUnits_spec num den e
    have hpower : (0 : ℚ) < 2 ^ e := by positivity
    have hnearest := nearestEven_spec (inUnits num den e).1 (hpos hden)
    dsimp only at h
    generalize nearestEven (inUnits num den e).1 (inUnits num den e).2 = s at h hnearest
    rw [hunits] at hnearest
    set q : ℚ := num / den with hq
    -- half a unit of the exponent that was taken
    have herror : |(s : ℚ) * 2 ^ e - q| ≤ max (2 ^ (minExponent - 1)) (q / 2 ^ 53) := by
      refine le_trans (near_mul hpower hnearest) ?_
      rcases hfull with rfl | hleast
      · refine le_trans (le_of_eq ?_) (le_max_left _ _)
        rw [zpow_sub_one₀ (by norm_num), mul_comm, one_div]
      · refine le_trans ?_ (le_max_right _ _)
        norm_num [leastNormal] at hleast
        linarith
    have hs : s ≤ significandBound := by
      have hlt : q / 2 ^ e < significandBound := (div_lt_iff₀ hpower).mpr hfits
      have hhigh := (abs_le.mp hnearest).2
      have hcast : (s : ℚ) < (significandBound + 1 : ℕ) := by
        push_cast
        linarith
      exact Nat.lt_succ_iff.mp (by exact_mod_cast hcast)
    split at h
    next hcarry =>
      -- the significand is full, and the exponent goes up in its place
      split at h
      next =>
        cases h
        refine ⟨⟨⟨(by decide : leastNormal < significandBound), .inr (le_refl _)⟩, ?_⟩, rfl⟩
        have hsame : (⟨negative, leastNormal, e + 1⟩ : Binary64).magnitude = s * 2 ^ e := by
          rw [magnitude, hcarry, zpow_add_one₀ (by norm_num)]
          norm_num [leastNormal, significandBound]
          ring
        rw [hsame]
        exact herror
      next => cases h
    next hne =>
      split at h
      next =>
        cases h
        refine ⟨⟨⟨lt_of_le_of_ne hs hne, hfull.imp id fun hleast => ?_⟩, herror⟩, rfl⟩
        -- what fills the significand is not rounded below it
        show leastNormal ≤ s
        have hge : (leastNormal : ℚ) ≤ q / 2 ^ e := (le_div_iff₀ hpower).mpr hleast
        have hlow := (abs_le.mp hnearest).1
        have hcast : (leastNormal : ℚ) < (s + 1 : ℕ) := by
          push_cast
          linarith
        exact Nat.lt_succ_iff.mp (by exact_mod_cast hcast)
      next => cases h

theorem mul?_spec {x y z : Binary64} (h : x.mul? y = some z) :
    Rounds (x.magnitude * y.magnitude) z ∧ z.negative = x.negative := by
  change ofQuotient? x.negative (x.toQuotient.1 * y.toQuotient.1) (x.toQuotient.2 * y.toQuotient.2) = some z at h
  have hspec := ofQuotient?_spec h
  rwa [Nat.cast_mul, Nat.cast_mul, mul_div_mul_comm, x.toQuotient_spec.1, y.toQuotient_spec.1] at hspec

theorem div?_spec {x y z : Binary64} (h : x.div? y = some z) :
    Rounds (x.magnitude / y.magnitude) z ∧ z.negative = x.negative := by
  change ofQuotient? x.negative (x.toQuotient.1 * y.toQuotient.2) (x.toQuotient.2 * y.toQuotient.1) = some z at h
  have hspec := ofQuotient?_spec h
  rwa [Nat.cast_mul, Nat.cast_mul, ← div_div_div_eq, x.toQuotient_spec.1, y.toQuotient_spec.1] at hspec

/-! ## Large enough doubles -/

namespace Rounds

variable {q : ℚ} {x : Binary64}

/-- What is rounded to a number that is not small is not small. -/
theorem lt_of_small (h : Rounds q x) (hq : q ≤ 1 / 2000) : x.magnitude < 1 / 1000 := by
  have hnear := (abs_le.mp h.near).2
  have hmax : max (2 ^ (minExponent - 1)) (q / 2 ^ 53) ≤ (1 / 4000 : ℚ) := by
    refine max_le ?_ (by linarith)
    calc (2 : ℚ) ^ (minExponent - 1) ≤ 2 ^ (-12 : ℤ) := zpow_le_zpow_right₀ (by norm_num) (by decide)
      _ ≤ 1 / 4000 := by norm_num
  linarith

/-- The error of a number that is not small is a part of the number. -/
theorem within (h : Rounds q x) (hq : 1 / 2000 ≤ q) : Within (1 / 2 ^ 53) x.magnitude q := by
  refine le_trans h.near (max_le ?_ (by linarith))
  calc (2 : ℚ) ^ (minExponent - 1) ≤ 2 ^ (-64 : ℤ) := zpow_le_zpow_right₀ (by norm_num) (by decide)
    _ ≤ 1 / 2 ^ 53 * (1 / 2000) := by norm_num
    _ ≤ 1 / 2 ^ 53 * q := by gcongr

theorem within_of_large (h : Rounds q x) (hx : 1 / 1000 ≤ x.magnitude) : Within (1 / 2 ^ 53) x.magnitude q :=
  h.within (le_of_not_gt fun hlt => absurd (h.lt_of_small hlt.le) (not_lt.mpr hx))

end Rounds

/-- A natural number is read with one rounding. -/
theorem ofNat?_within {negative : Bool} {n : Nat} {x : Binary64} (h : ofNat? negative n = some x) (hn : 0 < n) :
    Within (1 / 2 ^ 53) x.magnitude n := by
  have hrounds := (ofQuotient?_spec h).1
  rw [Nat.cast_one, div_one] at hrounds
  have hone : (1 : ℚ) ≤ n := by exact_mod_cast hn
  exact hrounds.within (by linarith)

/-! ## Powers of ten -/

theorem powerOfTen_within {k : Nat} {p : Binary64} (h : ofNat? false (Nat.pow 10 k) = some p) :
    Within (1 / 2 ^ 53) p.magnitude (10 ^ k) := by
  have hwithin := ofNat?_within h (Nat.pow_pos (by decide))
  rwa [Nat.pow_eq, Nat.cast_pow, Nat.cast_ofNat] at hwithin

/-- How a significand that was rounded to `x₀` is brought to a power of ten. -/
inductive Scaled (x₀ : Binary64) : ℤ → Binary64 → Prop where
  /-- It is multiplied. -/
  | multiplied {k : Nat} {p x : Binary64} : ofNat? false (Nat.pow 10 k) = some p → x₀.mul? p = some x → Scaled x₀ k x
  /-- It is divided. -/
  | divided {k : Nat} {p x : Binary64} : ofNat? false (Nat.pow 10 k) = some p → x₀.div? p = some x → Scaled x₀ (-k) x
  /-- It is divided twice, since no double is near the power of ten. -/
  | dividedTwice {k : Nat} {p y p' x : Binary64} : ofNat? false (Nat.pow 10 maxPowerOfTen) = some p →
      x₀.div? p = some y → ofNat? false (Nat.pow 10 (k + 1)) = some p' → y.div? p' = some x →
      Scaled x₀ (-(maxPowerOfTen + (k + 1) : ℕ)) x
  /-- Nothing is left of it. -/
  | gone {e : ℤ} : Scaled x₀ e (zero x₀.negative)

/-- A significand that is not zero is rounded first and brought to the power of ten then. -/
theorem ofScientific?_cases {negative : Bool} {n : Nat} {e : ℤ} {x : Binary64}
    (h : ofScientific? negative n e = some x) :
    ∃ x₀, ofNat? negative n = some x₀ ∧ (n = 0 ∧ x = x₀ ∨ 0 < n ∧ Scaled x₀ e x) := by
  unfold ofScientific? at h
  obtain ⟨x₀, hx₀, h⟩ := Option.bind_eq_some_iff.mp h
  have hsign : x₀.negative = negative := (ofQuotient?_spec hx₀).2
  refine ⟨x₀, hx₀, ?_⟩
  dsimp only at h
  split at h
  next hzero => exact .inl ⟨hzero, (Option.some.inj h).symm⟩
  next hne =>
    refine .inr ⟨Nat.pos_of_ne_zero hne, ?_⟩
    split at h
    next he =>
      split at h
      next =>
        obtain ⟨p, hp, h⟩ := Option.bind_eq_some_iff.mp h
        rw [← Int.toNat_of_nonneg he]
        exact .multiplied hp h
      next => cases h
    next he =>
      split at h
      next =>
        obtain ⟨p, hp, h⟩ := Option.bind_eq_some_iff.mp h
        rw [show e = -(e.natAbs : ℤ) by omega]
        exact .divided hp h
      next hlarge =>
        split at h
        next =>
          obtain ⟨p, hp, h⟩ := Option.bind_eq_some_iff.mp h
          obtain ⟨y, hy, h⟩ := Option.bind_eq_some_iff.mp h
          obtain ⟨p', hp', h⟩ := Option.bind_eq_some_iff.mp h
          obtain ⟨k, hk⟩ : ∃ k, e.natAbs - maxPowerOfTen = k + 1 := ⟨e.natAbs - maxPowerOfTen - 1, by omega⟩
          rw [hk] at hp'
          rw [show e = -((maxPowerOfTen + (k + 1) : ℕ) : ℤ) by omega]
          exact .dividedTwice hp hy hp' h
        next =>
          cases h
          rw [← hsign]
          exact .gone

/-- A number is read as a canonical double with the sign that was given. -/
theorem ofScientific?_spec {negative : Bool} {n : Nat} {e : ℤ} {x : Binary64}
    (h : ofScientific? negative n e = some x) : x.Canonical ∧ x.negative = negative := by
  obtain ⟨x₀, hx₀, hx⟩ := ofScientific?_cases h
  obtain ⟨hrounds, hsign⟩ := ofQuotient?_spec hx₀
  rcases hx with ⟨-, rfl⟩ | ⟨-, hscaled⟩
  · exact ⟨hrounds.canonical, hsign⟩
  · rw [← hsign]
    cases hscaled with
    | multiplied _ hx => exact ⟨(mul?_spec hx).1.canonical, (mul?_spec hx).2⟩
    | divided _ hx => exact ⟨(div?_spec hx).1.canonical, (div?_spec hx).2⟩
    | dividedTwice _ hy _ hx => exact ⟨(div?_spec hx).1.canonical, (div?_spec hx).2.trans (div?_spec hy).2⟩
    | gone => exact ⟨canonical_zero _, rfl⟩

/-- What is divided twice is small. -/
theorem small_of_dividedTwice {n k : Nat} {x₀ p y p' x : Binary64} (hn : n < 2 ^ 64)
    (hx₀ : Within (1 / 2 ^ 53) x₀.magnitude n) (hp : ofNat? false (Nat.pow 10 maxPowerOfTen) = some p)
    (hy : x₀.div? p = some y) (hp' : ofNat? false (Nat.pow 10 (k + 1)) = some p') (hx : y.div? p' = some x) :
    x.magnitude < 1 / 1000 := by
  have hn' : (n : ℚ) < 2 ^ 64 := by exact_mod_cast hn
  have hlarge : (2 : ℚ) ^ 100 ≤ p.magnitude := by
    refine le_trans ?_ (powerOfTen_within hp).ge
    calc (2 : ℚ) ^ 100 ≤ (1 - 1 / 2 ^ 53) * 10 ^ 100 := by norm_num
      _ ≤ (1 - 1 / 2 ^ 53) * 10 ^ maxPowerOfTen := by
        refine mul_le_mul_of_nonneg_left ?_ (by norm_num)
        exact pow_le_pow_right₀ (by norm_num) (by decide)
  have htwo : 2 ≤ p'.magnitude := by
    refine le_trans ?_ (powerOfTen_within hp').ge
    rw [pow_succ (10 : ℚ) k]
    have hpow : (1 : ℚ) ≤ 10 ^ k := one_le_pow₀ (by norm_num)
    linarith
  have hfirst : x₀.magnitude / p.magnitude ≤ 1 / 2000 := by
    have hle := hx₀.le
    rw [div_le_iff₀ (by linarith)]
    linarith
  have hsmall := (div?_spec hy).1.lt_of_small hfirst
  refine (div?_spec hx).1.lt_of_small ?_
  rw [div_le_iff₀ (by linarith)]
  linarith

/-- **A number that was read in rounded steps** is off by five parts in 2^53 at most, if it is not small. -/
theorem ofScientific?_within {negative : Bool} {n : Nat} {e : ℤ} {x : Binary64}
    (h : ofScientific? negative n e = some x) (hn : n < 2 ^ 64) (hx : 1 / 1000 ≤ x.magnitude) :
    Within (5 / 2 ^ 53) x.magnitude (n * 10 ^ e) := by
  obtain ⟨x₀, hx₀, hcases⟩ := ofScientific?_cases h
  rcases hcases with ⟨rfl, rfl⟩ | ⟨hpos, hscaled⟩
  · -- no digit but zeros
    have hsmall := (ofQuotient?_spec hx₀).1.lt_of_small (by norm_num)
    exact absurd hx (not_le.mpr hsmall)
  · have hsignificand := ofNat?_within hx₀ hpos
    have hn0 : (0 : ℚ) ≤ n := Nat.cast_nonneg n
    cases hscaled with
    | @multiplied k p _ hp hmul =>
      have hpower := powerOfTen_within hp
      have hexact := hsignificand.mul hpower (by norm_num) hn0 (by positivity) (by norm_num)
      rw [zpow_natCast]
      exact ((mul?_spec hmul).1.within_of_large hx |>.trans hexact (by norm_num)).mono (by norm_num) (by positivity)
    | @divided k p _ hp hdiv =>
      have hpower := powerOfTen_within hp
      have hexact := hsignificand.div hpower hn0 (by positivity) (by norm_num) (by norm_num)
      rw [zpow_neg, zpow_natCast, ← div_eq_mul_inv]
      exact ((div?_spec hdiv).1.within_of_large hx |>.trans hexact (by norm_num)).mono (by norm_num) (by positivity)
    | dividedTwice hp hy hp' hdiv =>
      exact absurd hx (not_le.mpr (small_of_dividedTwice hn hsignificand hp hy hp' hdiv))
    | gone =>
      rw [magnitude_zero] at hx
      exact absurd hx (by norm_num)

end Binary64

end PaymentRelay
