import PaymentRelay.Binary64.Shortest
import PaymentRelay.Proofs.Binary64.Rounding

/-!
# The shortest digits are near

The digits of a double are searched on finer and finer decimal grids. Whatever grid they are found on, they read
back as the double, so they are half a unit of its last place away at most; and on the grid of seventeen digits
they are found at the latest, since its points lie closer together than doubles do.
-/

namespace PaymentRelay.Binary64

variable {num den : Nat} {x : Binary64} {tie : Tie}

/-- The number that digits and an exponent denote. -/
def Scientific.value (s : Scientific) : ℚ :=
  s.digits * 10 ^ s.exponent

theorem cast_pow_ten {k : ℤ} (hk : 0 ≤ k) : ((Nat.pow 10 k.toNat : ℕ) : ℚ) = 10 ^ k := by
  rw [cast_pow 10 hk, Nat.cast_ofNat]

/-! ## The first digit -/

/-- The digits of a number tell the powers of ten it lies between. -/
theorem exists_length_toDigits {n : Nat} (hn : 0 < n) :
    ∃ i, (Nat.toDigits 10 n).length = i + 1 ∧ 10 ^ i ≤ n ∧ n < 10 ^ (i + 1) := by
  obtain ⟨i, hi⟩ : ∃ i, (Nat.toDigits 10 n).length = i + 1 :=
    ⟨(Nat.toDigits 10 n).length - 1, (Nat.succ_pred_eq_of_pos Nat.length_toDigits_pos).symm⟩
  refine ⟨i, hi, ?_, (Nat.length_toDigits_le_iff (by decide) (Nat.succ_pos i)).mp hi.le⟩
  cases i with
  | zero => exact hn
  | succ i =>
    refine not_lt.mp fun hlt => ?_
    have := (Nat.length_toDigits_le_iff (by decide) (Nat.succ_pos i)).mpr hlt
    omega

/-- The first digit of a quotient has the exponent that is found. -/
theorem leadingExponent_spec (hnum : 0 < num) (hden : 0 < den) :
    (10 : ℚ) ^ leadingExponent num den ≤ num / den ∧ (num : ℚ) / den < 10 ^ (leadingExponent num den + 1) := by
  have hpos : (0 : ℚ) < den := by exact_mod_cast hden
  obtain ⟨i, hi, hnumLow, hnumHigh⟩ := exists_length_toDigits hnum
  obtain ⟨j, hj, hdenLow, hdenHigh⟩ := exists_length_toDigits hden
  obtain ⟨hlow, hhigh⟩ := quotient_bounds (by decide) hden hnumLow hnumHigh hdenLow hdenHigh
  have hguess : ((i + 1 : ℕ) : ℤ) - ((j + 1 : ℕ) : ℤ) = (i : ℤ) - j := by omega
  unfold leadingExponent
  rw [hi, hj, hguess]
  rw [Nat.cast_ofNat] at hlow hhigh
  generalize (i : ℤ) - j = guess at hlow hhigh ⊢
  have hpower : (0 : ℚ) < 10 ^ guess := by positivity
  have hreached : (if 0 ≤ guess then den * Nat.pow 10 guess.toNat ≤ num
      else den ≤ num * Nat.pow 10 (-guess).toNat) ↔ (10 : ℚ) ^ guess ≤ num / den := by
    rw [le_div_iff₀ hpos]
    split
    next he =>
      rw [← cast_pow_ten he, mul_comm]
      exact_mod_cast Iff.rfl
    next he =>
      have hcast := cast_pow_ten (k := -guess) (by omega)
      rw [zpow_neg] at hcast
      rw [mul_comm ((10 : ℚ) ^ guess), ← le_div_iff₀ hpower, div_eq_mul_inv (num : ℚ), ← hcast]
      exact_mod_cast Iff.rfl
  dsimp only
  by_cases h : (10 : ℚ) ^ guess ≤ num / den
  · rw [if_pos (hreached.mpr h)]
    exact ⟨h, hhigh⟩
  · rw [if_neg (mt hreached.mp h), sub_add_cancel]
    exact ⟨hlow, not_le.mp h⟩

/-! ## The search -/

/-- The exponent of the grid on which a double has so many digits. -/
def gridExponent (x : Binary64) (count : Nat) : ℤ :=
  leadingExponent x.toQuotient.1 x.toQuotient.2 + 1 - count

/-- A double in units of a grid. -/
def onScale (x : Binary64) (count : Nat) : Nat × Nat :=
  inPowers 10 x.toQuotient.1 x.toQuotient.2 (x.gridExponent count)

/-- The neighbours of a double on a grid, the nearer one first. -/
def neighbours (x : Binary64) (tie : Tie) (count : Nat) : List Nat :=
  let (n, d) := x.onScale count
  if d < 2 * (n % d) || (2 * (n % d) == d && tie.goesUp (n / d)) then [n / d + 1, n / d] else [n / d, n / d + 1]

/-- How far down the numbers reach that are rounded to a double, in quarters of its last bit. -/
def lowerGap (x : Binary64) : Nat :=
  if x.significand = leastNormal ∧ minExponent < x.exponent then 1 else 2

/-- A point of a grid is rounded to a double. -/
def readsBack (x : Binary64) (k : ℤ) (m : Nat) : Bool :=
  liesBetween (x.significand % 2 == 0) (4 * x.significand - x.lowerGap) (4 * x.significand + 2) (x.exponent - 2) m k

theorem onGrid_eq (x : Binary64) (tie : Tie) (count : Nat) :
    onGrid x tie count = ((x.neighbours tie count).find? (x.readsBack (x.gridExponent count))).map fun m =>
      Scientific.trimZeros 17 ⟨m, x.gridExponent count⟩ := rfl

/-- Zeros at the end count in the exponent. -/
theorem Scientific.trimZeros_spec (fuel : Nat) (s : Scientific) :
    (s.trimZeros fuel).value = s.value ∧ (s.trimZeros fuel).digits ≤ s.digits := by
  induction fuel generalizing s with
  | zero => exact ⟨rfl, le_refl _⟩
  | succ fuel ih =>
    rw [trimZeros]
    split
    next h =>
      obtain ⟨hvalue, hle⟩ := ih ⟨s.digits / 10, s.exponent + 1⟩
      refine ⟨hvalue.trans ?_, hle.trans (Nat.div_le_self _ _)⟩
      have hdigits : ((s.digits / 10 : ℕ) : ℚ) * 10 = s.digits := by
        exact_mod_cast Nat.div_mul_cancel (Nat.dvd_of_mod_eq_zero h.2)
      rw [value, value, ← hdigits, zpow_add_one₀ (by norm_num)]
      ring
    next => exact ⟨rfl, le_refl _⟩

theorem onScale_spec (x : Binary64) (count : Nat) :
    ((x.onScale count).1 : ℚ) / (x.onScale count).2 = x.magnitude / 10 ^ x.gridExponent count ∧
      0 < (x.onScale count).2 := by
  obtain ⟨hquotient, hpos⟩ := x.toQuotient_spec
  obtain ⟨hunits, hden⟩ := inPowers_spec (b := 10) (by decide) x.toQuotient.1 x.toQuotient.2 (x.gridExponent count)
  rw [hquotient, Nat.cast_ofNat] at hunits
  exact ⟨hunits, hden hpos⟩

/-- The first neighbour is half a grid step away at most. -/
theorem exists_nearest (x : Binary64) (tie : Tie) (count : Nat) :
    ∃ m rest, x.neighbours tie count = m :: rest ∧
      |(m : ℚ) - x.magnitude / 10 ^ x.gridExponent count| ≤ 1 / 2 := by
  obtain ⟨hscale, hpos⟩ := x.onScale_spec count
  rw [← hscale]
  unfold neighbours
  dsimp only
  split
  next hup =>
    refine ⟨_, _, rfl, near_above _ hpos ?_⟩
    rcases Bool.or_eq_true_iff.mp hup with hlt | htie
    · exact (of_decide_eq_true hlt).le
    · exact (beq_iff_eq.mp (Bool.and_eq_true_iff.mp htie).1).ge
  next hdown =>
    refine ⟨_, _, rfl, near_below _ hpos (not_lt.mp fun hlt => hdown ?_)⟩
    rw [decide_eq_true hlt, Bool.true_or]

theorem le_of_mem_neighbours {count m : Nat} (h : m ∈ x.neighbours tie count) :
    m ≤ (x.onScale count).1 / (x.onScale count).2 + 1 := by
  unfold neighbours at h
  dsimp only at h
  split at h
  all_goals
    simp only [List.mem_cons, List.not_mem_nil, or_false] at h
    omega

/-- A power as a quotient of natural numbers. -/
theorem pow_parts (b : Nat) (hb : 0 < b) (e : ℤ) :
    ((if 0 ≤ e then Nat.pow b e.toNat else 1 : ℕ) : ℚ) / (if 0 ≤ e then 1 else Nat.pow b (-e).toNat : ℕ) = b ^ e ∧
      0 < (if 0 ≤ e then 1 else Nat.pow b (-e).toNat : ℕ) := by
  split
  next he => rw [cast_pow b he, Nat.cast_one, div_one]; exact ⟨rfl, Nat.one_pos⟩
  next he =>
    rw [cast_pow b (by omega), zpow_neg, Nat.cast_one, one_div, inv_inv]
    exact ⟨rfl, Nat.pow_pos hb⟩

/-- The ends of the interval are compared exactly. -/
theorem liesBetween_iff (inclusive : Bool) (low high m : Nat) (e k : ℤ) :
    liesBetween inclusive low high e m k = true ↔
      if inclusive then (low * 2 ^ e : ℚ) ≤ m * 10 ^ k ∧ (m * 10 ^ k : ℚ) ≤ high * 2 ^ e
      else (low * 2 ^ e : ℚ) < m * 10 ^ k ∧ (m * 10 ^ k : ℚ) < high * 2 ^ e := by
  obtain ⟨hten, htenth⟩ := pow_parts 10 (by decide) k
  obtain ⟨htwo, hhalf⟩ := pow_parts 2 (by decide) e
  unfold liesBetween
  dsimp only
  generalize (if 0 ≤ k then Nat.pow 10 k.toNat else 1) = ten at hten ⊢
  generalize (if 0 ≤ k then 1 else Nat.pow 10 (-k).toNat) = tenth at hten htenth ⊢
  generalize (if 0 ≤ e then Nat.pow 2 e.toNat else 1) = two at htwo ⊢
  generalize (if 0 ≤ e then 1 else Nat.pow 2 (-e).toNat) = half at htwo hhalf ⊢
  have htenth' : (0 : ℚ) < tenth := by exact_mod_cast htenth
  have hhalf' : (0 : ℚ) < half := by exact_mod_cast hhalf
  rw [Nat.cast_ofNat] at hten htwo
  -- both sides in units of one over `half * tenth`
  have hunit : 0 < 1 / ((half : ℚ) * tenth) := by positivity
  have hend (a : Nat) : (a * 2 ^ e : ℚ) = (a * two * tenth : ℕ) * (1 / ((half : ℚ) * tenth)) := by
    rw [← htwo]
    push_cast
    field_simp
  have hpoint : (m * 10 ^ k : ℚ) = (m * ten * half : ℕ) * (1 / ((half : ℚ) * tenth)) := by
    rw [← hten]
    push_cast
    field_simp
  rw [hend low, hend high, hpoint]
  cases inclusive with
  | true =>
    simp only [if_true, Bool.and_eq_true, decide_eq_true_eq, mul_le_mul_iff_left₀ hunit, Nat.cast_le]
  | false =>
    simp only [Bool.false_eq_true, if_false, Bool.and_eq_true, decide_eq_true_eq, mul_lt_mul_iff_left₀ hunit,
      Nat.cast_lt]

theorem lowerGap_le (x : Binary64) : x.lowerGap ≤ 2 := by
  unfold lowerGap
  split <;> decide

/-- The numbers that are rounded to a double reach no farther down than up. -/
theorem lowerGap_mul_le (x : Binary64) : (x.lowerGap : ℚ) * 2 ^ (x.exponent - 2) ≤ 2 * 2 ^ (x.exponent - 2) := by
  refine mul_le_mul_of_nonneg_right ?_ (by positivity)
  exact_mod_cast x.lowerGap_le

/-- A double in quarters of its last bit. -/
theorem magnitude_eq_quarters (x : Binary64) : x.magnitude = 4 * x.significand * 2 ^ (x.exponent - 2) := by
  rw [magnitude, zpow_sub₀ (by norm_num)]
  norm_num
  ring

/-- The interval around a double, in units of a quarter of its last bit. -/
theorem interval_ends (hx : 0 < x.significand) :
    ((4 * x.significand - x.lowerGap : ℕ) : ℚ) * 2 ^ (x.exponent - 2) =
        x.magnitude - x.lowerGap * 2 ^ (x.exponent - 2) ∧
      ((4 * x.significand + 2 : ℕ) : ℚ) * 2 ^ (x.exponent - 2) = x.magnitude + 2 * 2 ^ (x.exponent - 2) := by
  have hle : x.lowerGap ≤ 4 * x.significand := by
    have := x.lowerGap_le
    omega
  rw [magnitude_eq_quarters, Nat.cast_sub hle]
  push_cast
  constructor <;> ring

/-- What reads back is half a unit of the last place away at most. -/
theorem near_of_readsBack (hx : 0 < x.significand) {k : ℤ} {m : Nat} (h : x.readsBack k m = true) :
    |(m : ℚ) * 10 ^ k - x.magnitude| ≤ 2 ^ (x.exponent - 1) := by
  have hgap := x.lowerGap_mul_le
  have htwo : (2 : ℚ) ^ (x.exponent - 1) = 2 * 2 ^ (x.exponent - 2) := by
    rw [← zpow_one_add₀ (by norm_num)]
    congr 1
    ring
  obtain ⟨hlow, hhigh⟩ := interval_ends hx
  have hbetween : (4 * x.significand - x.lowerGap : ℕ) * (2 : ℚ) ^ (x.exponent - 2) ≤ m * 10 ^ k ∧
      (m : ℚ) * 10 ^ k ≤ (4 * x.significand + 2 : ℕ) * 2 ^ (x.exponent - 2) := by
    have hends := (liesBetween_iff _ _ _ _ _ _).mp h
    split at hends
    next => exact hends
    next => exact ⟨hends.1.le, hends.2.le⟩
  rw [hlow, hhigh] at hbetween
  rw [htwo, abs_le]
  constructor <;> linarith

/-- What is nearer than the lower end reads back. -/
theorem readsBack_of_near (hx : 0 < x.significand) {k : ℤ} {m : Nat}
    (h : |(m : ℚ) * 10 ^ k - x.magnitude| < x.lowerGap * 2 ^ (x.exponent - 2)) : x.readsBack k m = true := by
  have hgap := x.lowerGap_mul_le
  obtain ⟨hlow, hhigh⟩ := interval_ends hx
  obtain ⟨hbelow, habove⟩ := abs_lt.mp h
  have hbetween : (4 * x.significand - x.lowerGap : ℕ) * (2 : ℚ) ^ (x.exponent - 2) < m * 10 ^ k ∧
      (m : ℚ) * 10 ^ k < (4 * x.significand + 2 : ℕ) * 2 ^ (x.exponent - 2) := by
    rw [hlow, hhigh]
    constructor <;> linarith
  refine (liesBetween_iff _ _ _ _ _ _).mpr ?_
  split
  next => exact ⟨hbetween.1.le, hbetween.2.le⟩
  next => exact hbetween

/-- The first digit of a double is on its grid, and no more digits than wanted are. -/
theorem gridExponent_spec (hx : 0 < x.significand) (count : Nat) :
    (10 : ℚ) ^ x.gridExponent count * 10 ^ count ≤ 10 * x.magnitude ∧
      x.magnitude < 10 ^ x.gridExponent count * 10 ^ count := by
  obtain ⟨hquotient, hden⟩ := x.toQuotient_spec
  have hmagnitude : 0 < x.magnitude := by
    have : (0 : ℚ) < x.significand := by exact_mod_cast hx
    unfold magnitude
    positivity
  have hnum : 0 < x.toQuotient.1 := by
    refine Nat.pos_of_ne_zero fun hzero => ?_
    rw [hzero, Nat.cast_zero, zero_div] at hquotient
    exact hmagnitude.ne hquotient
  obtain ⟨hlow, hhigh⟩ := leadingExponent_spec hnum hden
  rw [hquotient] at hlow hhigh
  have hgrid : (10 : ℚ) ^ x.gridExponent count * 10 ^ count =
      10 ^ (leadingExponent x.toQuotient.1 x.toQuotient.2 + 1) := by
    rw [← zpow_natCast, ← zpow_add₀ (by norm_num), gridExponent, sub_add_cancel]
  rw [hgrid]
  refine ⟨?_, hhigh⟩
  rw [zpow_add_one₀ (by norm_num), mul_comm]
  linarith

/-- A hit on a grid is near, and has no more digits than wanted. -/
theorem onGrid_spec (hx : 0 < x.significand) {count : Nat} {s : Scientific} (h : onGrid x tie count = some s) :
    |s.value - x.magnitude| ≤ 2 ^ (x.exponent - 1) ∧ s.digits ≤ 10 ^ count := by
  rw [onGrid_eq] at h
  obtain ⟨m, hfind, rfl⟩ := Option.map_eq_some_iff.mp h
  obtain ⟨hvalue, hdigits⟩ := Scientific.trimZeros_spec 17 ⟨m, x.gridExponent count⟩
  refine ⟨?_, hdigits.trans ?_⟩
  · rw [hvalue]
    exact near_of_readsBack hx (List.find?_some hfind)
  · refine (le_of_mem_neighbours (List.mem_of_find?_eq_some hfind)).trans ?_
    -- the double is below the first number with one digit more
    obtain ⟨hscale, hpos⟩ := x.onScale_spec count
    have hpos' : (0 : ℚ) < (x.onScale count).2 := by exact_mod_cast hpos
    have hlt : ((x.onScale count).1 : ℚ) / (x.onScale count).2 < (10 ^ count : ℕ) := by
      rw [hscale, div_lt_iff₀ (by positivity), mul_comm, Nat.cast_pow, Nat.cast_ofNat]
      exact (gridExponent_spec hx count).2
    rw [div_lt_iff₀ hpos'] at hlt
    exact (Nat.div_lt_iff_lt_mul hpos).mpr (by exact_mod_cast hlt)

/-- On the grid of seventeen digits there is always a hit. -/
theorem onGrid_isSome (hx : 0 < x.significand) (hcanonical : x.Canonical) (tie : Tie) :
    (onGrid x tie 17).isSome = true := by
  obtain ⟨m, rest, hcons, hnear⟩ := x.exists_nearest tie 17
  have hhit : x.readsBack (x.gridExponent 17) m = true := by
    refine readsBack_of_near hx ?_
    have hstep : (0 : ℚ) < 10 ^ x.gridExponent 17 := by positivity
    have hbit : (0 : ℚ) < 2 ^ (x.exponent - 2) := by positivity
    have hscaled := near_mul hstep hnear
    have hfine := (gridExponent_spec hx 17).1
    -- the double has fewer units of its last bit than half a grid step has room for
    have hunits : (4 * x.significand : ℚ) < 2 * 10 ^ 16 * x.lowerGap := by
      unfold lowerGap
      split
      next hleast =>
        rw [hleast.1]
        norm_num [leastNormal]
      next =>
        have hlt : (x.significand : ℚ) < 9007199254740992 := by exact_mod_cast hcanonical.significand_lt
        norm_num
        linarith
    have hsmall : x.magnitude < 2 * 10 ^ 16 * (x.lowerGap * 2 ^ (x.exponent - 2)) := by
      rw [magnitude_eq_quarters, ← mul_assoc]
      exact mul_lt_mul_of_pos_right hunits hbit
    linarith
  rw [onGrid_eq, hcons, List.find?_cons_of_pos hhit]
  rfl

/-- **The shortest digits are half a unit of the last place away at most**, and there are seventeen at most. -/
theorem shortest_spec (hx : 0 < x.significand) (hcanonical : x.Canonical) (tie : Tie) :
    |(x.shortest tie).value - x.magnitude| ≤ 2 ^ (x.exponent - 1) ∧ (x.shortest tie).digits ≤ 10 ^ 17 := by
  unfold shortest
  rw [if_neg hx.ne']
  have hfound : ((List.range' 1 17).findSome? (onGrid x tie)).isSome = true :=
    List.findSome?_isSome_iff.mpr ⟨17, by decide, onGrid_isSome hx hcanonical tie⟩
  obtain ⟨s, hs⟩ := Option.isSome_iff_exists.mp hfound
  obtain ⟨count, hcount, hgrid⟩ := List.exists_of_findSome?_eq_some hs
  obtain ⟨hnear, hdigits⟩ := onGrid_spec hx hgrid
  rw [hs, Option.getD_some]
  refine ⟨hnear, hdigits.trans (Nat.pow_le_pow_right (by decide) ?_)⟩
  have := (List.mem_range'_1.mp hcount).2
  omega

end PaymentRelay.Binary64
