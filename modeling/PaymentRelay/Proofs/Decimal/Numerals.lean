import Mathlib.Algebra.Order.Field.Rat
import Mathlib.Tactic.FieldSimp
import Mathlib.Tactic.Linarith
import Mathlib.Tactic.NormNum
import Mathlib.Tactic.Positivity
import Mathlib.Tactic.Ring
import PaymentRelay.Proofs.Text.Amounts

/-!
# What numerals denote

A numeral of any length denotes a rational number: its digits, divided by ten for every digit behind the
point, and multiplied by the power of ten behind the exponent mark. A decimal has room for some of these
numbers only (`HasRoomFor`).

Of a plain numeral the decimal that is read is less than one unit of its last place away (`Reads.near`), and it is
the number itself unless the decimal is full (`Reads.exact_or_full`). So **a plain numeral whose number has room is
read exactly**, however many digits it is written with.
-/

namespace PaymentRelay.Decimal

/-! ## Numbers -/

/-- A magnitude behind a sign. -/
def signed (negative : Bool) (q : ℚ) : ℚ :=
  if negative then -q else q

/-- The number a decimal is, without its sign. -/
def magnitude (d : Decimal) : ℚ :=
  d.mantissa / 10 ^ d.scale

/-- The number a decimal is. -/
def toRat (d : Decimal) : ℚ :=
  signed d.negative d.magnitude

/-- Some decimal is this number. -/
def HasRoomFor (q : ℚ) : Prop :=
  ∃ d : Decimal, d.toRat = q

theorem magnitude_nonneg (d : Decimal) : 0 ≤ d.magnitude := by
  unfold magnitude
  positivity

theorem abs_signed (negative : Bool) (q : ℚ) : |signed negative q| = |q| := by
  cases negative with
  | true => exact abs_neg q
  | false => rfl

theorem signed_mul (negative : Bool) (q r : ℚ) : signed negative q * r = signed negative (q * r) := by
  cases negative with
  | true => exact neg_mul q r
  | false => rfl

/-- A number that has room is a mantissa divided by a power of ten. -/
theorem HasRoomFor.exists_mantissa {negative : Bool} {q : ℚ} (h : HasRoomFor (signed negative q)) (hq : 0 ≤ q) :
    ∃ n j : ℕ, n < mantissaBound ∧ j ≤ maxScale ∧ q * 10 ^ j = n := by
  obtain ⟨d, hd⟩ := h
  refine ⟨d.mantissa, d.scale, d.mantissa_lt, d.scale_le, ?_⟩
  have habs : d.magnitude = q := by
    rw [← abs_of_nonneg d.magnitude_nonneg, ← abs_of_nonneg hq, ← abs_signed d.negative, ← abs_signed negative q]
    exact congrArg abs hd
  rw [← habs, magnitude]
  field_simp

theorem cast_tenTo (n : Nat) : (tenTo n : ℚ) = 10 ^ n := by
  simp only [tenTo, Nat.pow_eq, Nat.cast_pow, Nat.cast_ofNat]

/-! ## What is denoted -/

/-- How many digits of a numeral stand behind its point. -/
def fractionDigits (cs : List Char) : Nat :=
  (cs.dropWhile (· != '.')).countP Text.isDigit

/-- A numeral that begins with a minus sign. -/
def isNegative (cs : List Char) : Bool :=
  cs.head? == some '-'

/-- The number of the digits of a text, whatever stands between them. -/
def digitsNumber (cs : List Char) : Nat :=
  Nat.ofDigitChars 10 (cs.filter Text.isDigit) 0

/-- What a plain numeral denotes, without its sign. -/
def plainMagnitude (cs : List Char) : ℚ :=
  digitsNumber cs / 10 ^ fractionDigits cs

/-- What a plain numeral denotes. -/
def plainValue (cs : List Char) : ℚ :=
  signed (isNegative cs) (plainMagnitude cs)

/-- What stands in front of the exponent mark, if there is one. -/
def basePart (cs : List Char) : List Char :=
  cs.takeWhile (!isExponentMark ·)

/-- What stands behind the exponent mark. -/
def exponentPart (cs : List Char) : List Char :=
  (cs.dropWhile (!isExponentMark ·)).drop 1

/-- The power of ten an exponent denotes. Without digits it is the zeroth. -/
def exponentValue (cs : List Char) : ℤ :=
  if isNegative cs then -(digitsNumber cs : ℤ) else digitsNumber cs

/-- **What a numeral denotes**, plain or scientific. -/
def numeralValue (cs : List Char) : ℚ :=
  plainValue (basePart cs) * 10 ^ exponentValue (exponentPart cs)

/-! ## What is still denoted while a numeral is read -/

section

variable {m s : Nat} {point : Bool} {c : Char} {cs : List Char}

/-- What is denoted once the mantissa `m` and the scale `s` have been read and `cs` is left. -/
def denoted (m s : Nat) (point : Bool) (cs : List Char) : ℚ :=
  Nat.ofDigitChars 10 (cs.filter Text.isDigit) m /
    10 ^ (s + if point then cs.countP Text.isDigit else fractionDigits cs)

theorem plainMagnitude_eq (cs : List Char) : plainMagnitude cs = denoted 0 0 false cs := by
  rw [plainMagnitude, denoted, digitsNumber, Nat.zero_add, if_neg Bool.false_ne_true]

theorem denoted_nil (m s : Nat) (point : Bool) : denoted m s point [] = m / 10 ^ s := by
  cases point <;> rfl

/-- A digit is never the point. -/
theorem ne_point_of_isDigit (h : Text.isDigit c = true) : (c != '.') = true := by
  refine bne_iff_ne.mpr fun hc => ?_
  rw [hc] at h
  exact absurd h (by decide)

theorem fractionDigits_cons_of_ne (h : (c != '.') = true) (cs : List Char) :
    fractionDigits (c :: cs) = fractionDigits cs := by
  simp only [fractionDigits, List.dropWhile_cons, h, if_true]

theorem denoted_digit (h : Text.isDigit c = true) :
    denoted m s point (c :: cs) = denoted (m * 10 + Text.digitValue c) (if point then s + 1 else s) point cs := by
  rw [denoted, denoted, List.filter_cons_of_pos h, ofDigitChars_cons]
  cases point with
  | true => simp only [if_true, List.countP_cons_of_pos h, Nat.add_assoc, Nat.add_comm 1]
  | false =>
    simp only [Bool.false_eq_true, if_false, fractionDigits_cons_of_ne (ne_point_of_isDigit h)]

theorem denoted_point : denoted m s false ('.' :: cs) = denoted m s true cs := rfl

/-- What is neither a digit nor the point does not count. -/
theorem denoted_skip (hdigit : Text.isDigit c = false) (hpoint : (c != '.') = true) :
    denoted m s point (c :: cs) = denoted m s point cs := by
  have hnot : ¬Text.isDigit c = true := by rw [hdigit]; exact Bool.false_ne_true
  rw [denoted, denoted, List.filter_cons_of_neg hnot, fractionDigits_cons_of_ne hpoint,
    List.countP_cons_of_neg hnot]

theorem denoted_dropSeparators : denoted m s point (cs.dropWhile (· == '_')) = denoted m s point cs := by
  induction cs with
  | nil => rfl
  | cons c cs ih =>
    by_cases hc : (c == '_') = true
    · simp only [List.dropWhile_cons, hc, if_true]
      rw [ih, beq_iff_eq.mp hc, denoted_skip (by decide) (by decide)]
    · simp only [List.dropWhile_cons, hc, Bool.false_eq_true, if_false]

/-- Digits denote less than the power of ten of their number. -/
theorem ofDigitChars_lt (h : ∀ c ∈ cs, Text.isDigit c = true) :
    Nat.ofDigitChars 10 cs m < (m + 1) * 10 ^ cs.length := by
  induction cs generalizing m with
  | nil => simp
  | cons c cs ih =>
    rw [ofDigitChars_cons, List.length_cons]
    have hnine : Text.digitValue c ≤ 9 := by
      have hc := h c List.mem_cons_self
      simp only [Text.isDigit, Bool.and_eq_true, decide_eq_true_eq] at hc
      exact Nat.sub_le_of_le_add hc.2
    calc Nat.ofDigitChars 10 cs (m * 10 + Text.digitValue c)
        < (m * 10 + Text.digitValue c + 1) * 10 ^ cs.length := ih fun d hd => h d (List.mem_cons_of_mem _ hd)
      _ ≤ ((m + 1) * 10) * 10 ^ cs.length := Nat.mul_le_mul_right _ (by omega)
      _ = (m + 1) * 10 ^ (cs.length + 1) := by ring

/-- Behind the point, what is left adds less than one unit of the last place. -/
theorem denoted_bounds (m s : Nat) (cs : List Char) :
    (m : ℚ) / 10 ^ s ≤ denoted m s true cs ∧ denoted m s true cs < (m + 1) / 10 ^ s := by
  have hlength : (cs.filter Text.isDigit).length = cs.countP Text.isDigit := List.countP_eq_length_filter.symm
  have hlow : m * 10 ^ cs.countP Text.isDigit ≤ Nat.ofDigitChars 10 (cs.filter Text.isDigit) m := by
    rw [Nat.ofDigitChars_eq_ofDigitChars_zero, hlength, Nat.mul_comm]
    exact Nat.le_add_right _ _
  have hhigh : Nat.ofDigitChars 10 (cs.filter Text.isDigit) m < (m + 1) * 10 ^ cs.countP Text.isDigit := by
    rw [← hlength]
    exact ofDigitChars_lt fun c hc => (List.mem_filter.mp hc).2
  have hlow' : (m : ℚ) * 10 ^ cs.countP Text.isDigit ≤ Nat.ofDigitChars 10 (cs.filter Text.isDigit) m := by
    exact_mod_cast hlow
  have hhigh' : (Nat.ofDigitChars 10 (cs.filter Text.isDigit) m : ℚ) < (m + 1) * 10 ^ cs.countP Text.isDigit := by
    exact_mod_cast hhigh
  simp only [denoted, if_true, pow_add]
  refine ⟨?_, ?_⟩
  · rw [div_le_div_iff₀ (by positivity) (by positivity), ← mul_assoc, mul_right_comm]
    exact mul_le_mul_of_nonneg_right hlow' (by positivity)
  · rw [div_lt_div_iff₀ (by positivity) (by positivity), mul_comm (10 ^ s : ℚ), ← mul_assoc]
    exact mul_lt_mul_of_pos_right hhigh' (by positivity)

end

/-! ## What is read -/

/-- A decimal that is read in place of the magnitude `q`. -/
structure Reads (q : ℚ) (d : Decimal) : Prop where
  /-- It is less than one unit of its last place away. -/
  near : |d.magnitude - q| < 1 / 10 ^ d.scale
  /-- It is the magnitude itself, or it has no place left, or no room for another digit of the magnitude. -/
  exact_or_full : d.magnitude = q ∨ d.scale = maxScale ∨
    ∀ n j : ℕ, d.scale < j → q * 10 ^ j = n → mantissaBound ≤ n

namespace Reads

variable {q : ℚ} {d : Decimal} {n j : ℕ}

/-- What has no more fractional digits than the decimal is the decimal. -/
theorem exact_of_scale (h : Reads q d) (hj : j ≤ d.scale) (hq : q * 10 ^ j = n) : d.magnitude = q := by
  have hpos : (0 : ℚ) < 10 ^ d.scale := by positivity
  have hunits : q = ((n * 10 ^ (d.scale - j) : ℕ) : ℚ) / 10 ^ d.scale := by
    rw [eq_div_iff hpos.ne', Nat.cast_mul, ← hq, Nat.cast_pow, Nat.cast_ofNat, mul_assoc, ← pow_add,
      Nat.add_sub_cancel' hj]
  have hnear := h.near
  rw [hunits, magnitude, ← sub_div, abs_div, abs_of_pos hpos, div_lt_div_iff_of_pos_right hpos] at hnear
  -- two whole numbers less than one apart
  have hclose : |(d.mantissa : ℤ) - (n * 10 ^ (d.scale - j) : ℕ)| < 1 := by exact_mod_cast hnear
  have hsame : d.mantissa = n * 10 ^ (d.scale - j) := by
    have hzero := Int.abs_lt_one_iff.mp hclose
    omega
  rw [hunits, magnitude, hsame]

/-- **What a decimal has room for is read exactly.** -/
theorem exact (h : Reads q d) (hn : n < mantissaBound) (hj : j ≤ maxScale) (hq : q * 10 ^ j = n) :
    d.magnitude = q := by
  rcases h.exact_or_full with hexact | hscale | hfull
  · exact hexact
  · exact h.exact_of_scale (hscale ▸ hj) hq
  · refine h.exact_of_scale (Nat.le_of_not_lt fun hlt => ?_) hq
    exact absurd (hfull n j hlt hq) (Nat.not_le.mpr hn)

end Reads

section

variable {negative : Bool} {m s : Nat} {d : Decimal} {c : Char} {cs : List Char}

/-- What is made of a mantissa and a scale is their number, with its sign unless it is zero. -/
theorem make?_spec (h : make? negative m s = some d) :
    d.scale = s ∧ d.magnitude = m / 10 ^ s ∧ d.toRat = signed negative d.magnitude := by
  unfold make? at h
  split at h
  next hfits =>
    cases h
    refine ⟨rfl, rfl, ?_⟩
    cases negative with
    | false => rfl
    | true =>
      by_cases hm : m = 0
      · simp only [toRat, magnitude, signed, hm, Nat.cast_zero, zero_div, neg_zero, ite_self]
      · simp only [toRat, signed, Bool.true_and, bne_iff_ne.mpr hm, if_true]
  next => cases h

theorem isDigit_of_isTail (h : isTail c = true) (hc : (c != '_') = true) : Text.isDigit c = true := by
  unfold isTail at h
  rcases Bool.or_eq_true_iff.mp h with hdigit | hseparator
  · exact hdigit
  · exact absurd (beq_iff_eq.mp hseparator) (bne_iff_ne.mp hc)

/-- A decimal whose next digit is five or more goes up by less than one unit. -/
theorem stepUp_spec (hread : stepUp negative m s = some d) {q : ℚ} (hlow : (m * 10 + 5 : ℚ) / 10 ^ (s + 1) ≤ q)
    (hhigh : q < (m + 1) / 10 ^ s)
    (hfull : s = maxScale ∨ ∀ n j : ℕ, s < j → q * 10 ^ j = n → mantissaBound ≤ n) :
    d.toRat = signed negative d.magnitude ∧ Reads q d := by
  have hpos : (0 : ℚ) < 10 ^ s := by positivity
  have hlow' : (m * 10 + 5 : ℚ) ≤ q * 10 ^ s * 10 := by
    rw [div_le_iff₀ (by positivity)] at hlow
    rwa [mul_assoc, ← pow_succ]
  have hhigh' : q * 10 ^ s < m + 1 := (lt_div_iff₀ hpos).mp hhigh
  unfold stepUp at hread
  split at hread
  next hfits =>
    obtain ⟨hscale, hvalue, hsign⟩ := make?_spec hread
    refine ⟨hsign, ?_, ?_⟩
    · rw [hvalue, hscale, lt_div_iff₀ hpos, ← abs_of_pos hpos, ← abs_mul, abs_of_pos hpos, sub_mul,
        div_mul_cancel₀ _ hpos.ne', abs_lt]
      push_cast
      constructor <;> linarith
    · rw [hscale]
      exact .inr hfull
  next hover =>
    split at hread
    next => cases hread
    next hs =>
      -- the mantissa gives up its last digit
      obtain ⟨k, rfl⟩ : ∃ k, s = k + 1 := ⟨s - 1, by omega⟩
      rw [Nat.add_sub_cancel] at hread
      obtain ⟨hscale, hvalue, hsign⟩ := make?_spec hread
      have hk : (0 : ℚ) < 10 ^ k := by positivity
      have hup : (m : ℚ) ≤ ((m + 5) / 10 : ℕ) * 10 + 4 := by exact_mod_cast (by omega : m ≤ (m + 5) / 10 * 10 + 4)
      have hdown : (((m + 5) / 10 : ℕ) : ℚ) * 10 ≤ m + 5 := by exact_mod_cast (by omega : (m + 5) / 10 * 10 ≤ m + 5)
      rw [pow_succ, ← mul_assoc] at hlow' hhigh'
      refine ⟨hsign, ?_, .inr (.inr fun n j hj hq => ?_)⟩
      · rw [hvalue, hscale, lt_div_iff₀ hk, ← abs_of_pos hk, ← abs_mul, abs_of_pos hk, sub_mul,
          div_mul_cancel₀ _ hk.ne', abs_lt]
        constructor <;> linarith
      · -- what is denoted is no whole number of units, so it needs a digit more
        rw [hscale] at hj
        obtain ⟨i, rfl⟩ : ∃ i, j = k + 1 + i := ⟨j - (k + 1), by omega⟩
        rw [pow_add, pow_succ, ← mul_assoc, ← mul_assoc] at hq
        cases i with
        | zero =>
          rw [pow_zero, mul_one] at hq
          rw [hq] at hlow' hhigh'
          have hlow'' : m * 10 + 5 ≤ n * 10 := by exact_mod_cast hlow'
          have hhigh'' : n < m + 1 := by exact_mod_cast hhigh'
          omega
        | succ i =>
          have hone : (1 : ℚ) ≤ 10 ^ i := one_le_pow₀ (by norm_num)
          have hn : (m * 10 + 5 : ℚ) ≤ n := by
            rw [← hq, pow_succ', ← mul_assoc]
            exact hlow'.trans (le_mul_of_one_le_right (le_trans (by positivity) hlow') hone)
          have hn' : m * 10 + 5 ≤ n := by exact_mod_cast hn
          omega

/-- The character that ends a full decimal rounds it to less than one unit. -/
theorem roundAt_spec (hread : roundAt negative m s cs = some d)
    (hfull : s = maxScale ∨ ∀ n j : ℕ, s < j → denoted m s true cs * 10 ^ j = n → mantissaBound ≤ n) :
    d.toRat = signed negative d.magnitude ∧ Reads (denoted m s true cs) d := by
  have hstays (hmade : make? negative m s = some d) :
      d.toRat = signed negative d.magnitude ∧ Reads (denoted m s true cs) d := by
    obtain ⟨hscale, hvalue, hsign⟩ := make?_spec hmade
    obtain ⟨hlow, hhigh⟩ := denoted_bounds m s cs
    refine ⟨hsign, ?_, by rw [hscale]; exact .inr hfull⟩
    rw [add_div] at hhigh
    rw [hvalue, hscale, abs_lt]
    constructor <;> linarith
  cases cs with
  | nil => exact hstays hread
  | cons c cs =>
    rw [roundAt] at hread
    split at hread
    next htail =>
      split at hread
      next hup =>
        obtain ⟨hc, hfive⟩ := Bool.and_eq_true_iff.mp hup
        have hdigit := isDigit_of_isTail (Bool.and_eq_true_iff.mp htail).1 hc
        have hfive' : 5 ≤ Text.digitValue c := of_decide_eq_true hfive
        refine stepUp_spec hread ?_ (denoted_bounds m s (c :: cs)).2 hfull
        rw [denoted_digit hdigit, if_pos rfl]
        refine le_trans ?_ (denoted_bounds _ _ cs).1
        refine div_le_div_of_nonneg_right ?_ (by positivity)
        exact_mod_cast Nat.add_le_add_left hfive' (m * 10)
      next => exact hstays hread
    next => cases hread

/-- Where a digit has no room behind the last place, a finer scale has no room for what is denoted. -/
theorem mantissaBound_le_of_digit (hdigit : Text.isDigit c = true) (hover : mantissaBound ≤ m * 10 + Text.digitValue c)
    {n j : ℕ} (hj : s < j) (hn : denoted m s true (c :: cs) * 10 ^ j = n) : mantissaBound ≤ n := by
  obtain ⟨i, rfl⟩ : ∃ i, j = s + 1 + i := ⟨j - (s + 1), by omega⟩
  have hlow := (denoted_bounds (m * 10 + Text.digitValue c) (s + 1) cs).1
  rw [denoted_digit hdigit, if_pos rfl, pow_add, ← mul_assoc] at hn
  rw [div_le_iff₀ (by positivity)] at hlow
  have hone : (1 : ℚ) ≤ 10 ^ i := one_le_pow₀ (by norm_num)
  have hle : ((m * 10 + Text.digitValue c : ℕ) : ℚ) ≤ n := by
    rw [← hn]
    exact hlow.trans (le_mul_of_one_le_right (le_trans (by positivity) hlow) hone)
  exact le_trans hover (by exact_mod_cast hle)

/-- What a scan does with the character `c`. -/
inductive ScanStep (negative : Bool) (m s : Nat) (point started : Bool) (c : Char) (cs : List Char) (d : Decimal) : Prop
  /-- The mantissa has no room for the digit. -/
  | full (hdigit : Text.isDigit c = true) (hpoint : point = true)
      (hover : mantissaBound ≤ m * 10 + Text.digitValue c) (hrest : roundAt negative m s (c :: cs) = some d)
  /-- The digit takes the last place. -/
  | last (hdigit : Text.isDigit c = true) (hpoint : point = true) (hscale : s + 1 = maxScale)
      (hrest : roundAt negative (m * 10 + Text.digitValue c) maxScale cs = some d ∨
        roundAt negative (m * 10 + Text.digitValue c) maxScale (cs.dropWhile (· == '_')) = some d)
  | digit (hdigit : Text.isDigit c = true)
      (hrest : scan negative (m * 10 + Text.digitValue c) (if point then s + 1 else s) point true cs = some d)
  | point (hc : c = '.') (hpoint : point = false) (hrest : scan negative m s true started cs = some d)
  | separator (hc : c = '_') (hrest : scan negative m s point started cs = some d)

theorem scanStep_of_scan {point started : Bool} (hread : scan negative m s point started (c :: cs) = some d) :
    ScanStep negative m s point started c cs d := by
  rw [scan] at hread
  split at hread
  next hdigit =>
    dsimp only at hread
    split at hread
    next hover =>
      split at hread
      next hpoint => exact .full hdigit hpoint hover hread
      next => cases hread
    next =>
      split at hread
      next hlast =>
        obtain ⟨hpoint, hscale⟩ := Bool.and_eq_true_iff.mp hlast
        refine .last hdigit hpoint (beq_iff_eq.mp hscale) ?_
        split at hread
        next => exact .inr hread
        next => exact .inl hread
      next => exact .digit hdigit hread
  next =>
    split at hread
    next hpoint =>
      obtain ⟨hc, hbefore⟩ := Bool.and_eq_true_iff.mp hpoint
      exact .point (beq_iff_eq.mp hc) (Bool.not_eq_true' _ ▸ hbefore) hread
    next =>
      split at hread
      next hseparator => exact .separator (beq_iff_eq.mp (Bool.and_eq_true_iff.mp hseparator).1) hread
      next => cases hread

/-- **Every step of the reader keeps what is denoted.** -/
theorem scan_spec {point started : Bool} (hread : scan negative m s point started cs = some d) :
    d.toRat = signed negative d.magnitude ∧ Reads (denoted m s point cs) d := by
  induction cs generalizing m s point started with
  | nil =>
    rw [scan] at hread
    split at hread
    next =>
      obtain ⟨hscale, hvalue, hsign⟩ := make?_spec hread
      rw [denoted_nil, ← hvalue]
      exact ⟨hsign, by rw [sub_self, abs_zero]; positivity, .inl rfl⟩
    next => cases hread
  | cons c cs ih =>
    cases scanStep_of_scan hread with
    | full hdigit hpoint hover hrest =>
      subst hpoint
      exact roundAt_spec hrest (.inr fun n j hj hn => mantissaBound_le_of_digit hdigit hover hj hn)
    | last hdigit hpoint hscale hrest =>
      subst hpoint
      rw [denoted_digit hdigit, if_pos rfl, hscale]
      rcases hrest with hrest | hrest
      · exact roundAt_spec hrest (.inl rfl)
      · rw [← denoted_dropSeparators]
        exact roundAt_spec hrest (.inl rfl)
    | digit hdigit hrest =>
      rw [denoted_digit hdigit]
      exact ih hrest
    | point hc hpoint hrest =>
      subst hc hpoint
      rw [denoted_point]
      exact ih hrest
    | separator hc hrest =>
      subst hc
      rw [denoted_skip (by decide) (by decide)]
      exact ih hrest

theorem isNegative_eq_false (h : ∀ rest, cs = '-' :: rest → False) : isNegative cs = false := by
  cases cs with
  | nil => rfl
  | cons c cs =>
    refine beq_eq_false_iff_ne.mpr fun hc => h cs ?_
    rw [Option.some.inj hc]

/-- **A plain numeral is read to less than one unit**, with its sign. -/
theorem plain?_spec (hread : plain? cs = some d) :
    d.toRat = signed (isNegative cs) d.magnitude ∧ Reads (plainMagnitude cs) d := by
  rw [plainMagnitude_eq]
  unfold plain? at hread
  split at hread
  next rest =>
    rw [denoted_skip (by decide) (by decide)]
    exact scan_spec hread
  next rest =>
    rw [denoted_skip (by decide) (by decide)]
    exact scan_spec hread
  next hminus hplus =>
    rw [isNegative_eq_false hminus]
    exact scan_spec hread

theorem plainMagnitude_nonneg (cs : List Char) : 0 ≤ plainMagnitude cs := by
  unfold plainMagnitude
  positivity

/-- **A plain numeral is read exactly if there is room for it.** -/
theorem plain?_exact (hread : plain? cs = some d) (hroom : HasRoomFor (plainValue cs)) :
    d.toRat = plainValue cs := by
  obtain ⟨hsign, hreads⟩ := plain?_spec hread
  obtain ⟨n, j, hn, hj, hq⟩ := hroom.exists_mantissa (plainMagnitude_nonneg cs)
  rw [hsign, hreads.exact hn hj hq, plainValue]

end

end PaymentRelay.Decimal
