import PaymentRelay.Payment.Amount

/-!
# Decimals and amounts that are written are read back

The numeral of a decimal has all its digits, so reading it rounds nothing: it gives the decimal back, but
for the sign of a zero. The decimal of an amount passes every check and is moved to no other scale, so an
amount comes back from its text with the same cents.
-/

namespace PaymentRelay

namespace Decimal

/-! ## Digits -/

/-- A decimal digit is what a numeral takes for one. -/
theorem isDigit_of_isDigit {c : Char} (h : c.isDigit = true) : Text.isDigit c = true := by
  simp only [Char.isDigit, Bool.and_eq_true, decide_eq_true_eq] at h
  simp only [Text.isDigit, Bool.and_eq_true, decide_eq_true_eq]
  exact h

/-- More digits denote no smaller number. -/
theorem le_ofDigitChars (cs : List Char) (m : Nat) : m ≤ Nat.ofDigitChars 10 cs m := by
  rw [Nat.ofDigitChars_eq_ofDigitChars_zero]
  exact Nat.le_trans (Nat.le_mul_of_pos_left m (Nat.pow_pos (by decide))) (Nat.le_add_right ..)

/-- The number of the digits so far and the next one, as a numeral counts it. -/
theorem ofDigitChars_cons (c : Char) (cs : List Char) (m : Nat) :
    Nat.ofDigitChars 10 (c :: cs) m = Nat.ofDigitChars 10 cs (m * 10 + Text.digitValue c) := by
  rw [Nat.ofDigitChars_cons, Text.digitValue, Nat.mul_comm]

/-- A padded numeral has digits only, as many as wanted at least, and denotes its number. -/
theorem padded_spec (width n : Nat) :
    (∀ c ∈ Text.padded width n, c.isDigit = true) ∧ width ≤ (Text.padded width n).length ∧
      Nat.ofDigitChars 10 (Text.padded width n) 0 = n := by
  refine ⟨fun c hc => ?_, ?_, ?_⟩
  · rcases List.mem_append.mp hc with hc | hc
    · rw [(List.mem_replicate.mp hc).2]
      rfl
    · exact Nat.isDigit_of_mem_toDigits (by decide) (by decide) hc
  · rw [Text.padded, List.length_append, List.length_replicate]
    omega
  · rw [Text.padded, Nat.ofDigitChars_append, Nat.ofDigitChars_replicate_zero, Nat.mul_zero,
      Nat.ofDigitChars_ten_toDigits]

/-! ## Numerals -/

variable {negative : Bool} {m s : Nat} {cs : List Char}

/-- Digits in front of the point are read one after the other. -/
theorem scan_whole (hdigits : ∀ c ∈ cs, c.isDigit = true) (h : Nat.ofDigitChars 10 cs m < mantissaBound)
    (started : Bool) (rest : List Char) :
    scan negative m s false started (cs ++ rest) =
      scan negative (Nat.ofDigitChars 10 cs m) s false (started || !cs.isEmpty) rest := by
  induction cs generalizing m started with
  | nil => rw [List.isEmpty_nil, Bool.not_true, Bool.or_false]; rfl
  | cons c cs ih =>
    rw [ofDigitChars_cons] at h ⊢
    have hfits : ¬mantissaBound ≤ m * 10 + Text.digitValue c :=
      Nat.not_le.mpr (Nat.lt_of_le_of_lt (le_ofDigitChars cs _) h)
    rw [List.cons_append, scan, if_pos (isDigit_of_isDigit (hdigits c List.mem_cons_self)), if_neg hfits]
    simp only [Bool.false_and, Bool.false_eq_true, if_false]
    rw [ih (fun d hd => hdigits d (List.mem_cons_of_mem _ hd)) h]
    simp only [Bool.true_or, List.isEmpty_cons, Bool.not_false, Bool.or_true]

/-- Digits behind the point are read to the end, if there is room for all of them. -/
theorem scan_fraction (hdigits : ∀ c ∈ cs, c.isDigit = true)
    (h : Nat.ofDigitChars 10 cs m < mantissaBound) (hs : s + cs.length ≤ maxScale) :
    scan negative m s true true cs = make? negative (Nat.ofDigitChars 10 cs m) (s + cs.length) := by
  induction cs generalizing m s with
  | nil => rfl
  | cons c cs ih =>
    rw [ofDigitChars_cons] at h ⊢
    rw [List.length_cons] at hs ⊢
    have hfits : ¬mantissaBound ≤ m * 10 + Text.digitValue c :=
      Nat.not_le.mpr (Nat.lt_of_le_of_lt (le_ofDigitChars cs _) h)
    rw [scan, if_pos (isDigit_of_isDigit (hdigits c List.mem_cons_self)), if_neg hfits]
    simp only [Bool.true_and, beq_iff_eq, if_true]
    split
    next hlast =>
      -- the last digit there is room for is the last digit
      obtain rfl : cs = [] := List.eq_nil_of_length_eq_zero (by omega)
      rw [← hlast]
      split <;> rfl
    next hmore =>
      rw [ih (fun d hd => hdigits d (List.mem_cons_of_mem _ hd)) h (by omega), Nat.add_assoc,
        Nat.add_comm 1]

/-- Behind the whole part, which has a digit, the point is passed. -/
theorem scan_point (rest : List Char) :
    scan negative m s false true ('.' :: rest) = scan negative m s true true rest := rfl

/-- The digits of a decimal denote it. -/
theorem scan_digitsText (hm : m < mantissaBound) (hs : s ≤ maxScale) :
    scan negative 0 0 false false (digitsText m s) = make? negative m s := by
  obtain ⟨hdigits, hlength, hvalue⟩ := padded_spec (s + 1) m
  unfold digitsText
  generalize Text.padded (s + 1) m = ds at hdigits hlength hvalue
  have hstarted : ∀ k, 0 < k → (false || !(ds.take k).isEmpty) = true := by
    intro k hk
    obtain ⟨d, ds, rfl⟩ := List.exists_cons_of_length_pos (Nat.lt_of_lt_of_le (Nat.succ_pos s) hlength)
    obtain ⟨k, rfl⟩ : ∃ j, k = j + 1 := ⟨k - 1, by omega⟩
    rfl
  dsimp only
  split
  next hzero =>
    -- no fraction: all digits stand in front of the end
    have hread : scan negative 0 0 false false (ds ++ []) =
        scan negative (Nat.ofDigitChars 10 ds 0) 0 false (false || !ds.isEmpty) [] :=
      scan_whole hdigits (hvalue.symm ▸ hm) false []
    have hsome := hstarted ds.length (by omega)
    rw [List.take_length] at hsome
    rw [List.append_nil, hvalue, hsome] at hread
    rw [hread, hzero]
    rfl
  next hpos =>
    -- the point stands in front of the last `s` digits
    have htake : ∀ c ∈ ds.take (ds.length - s), c.isDigit = true := fun c hc =>
      hdigits c (List.mem_of_mem_take hc)
    have hdrop : ∀ c ∈ ds.drop (ds.length - s), c.isDigit = true := fun c hc =>
      hdigits c (List.mem_of_mem_drop hc)
    have hall : Nat.ofDigitChars 10 (ds.drop (ds.length - s))
        (Nat.ofDigitChars 10 (ds.take (ds.length - s)) 0) = m := by
      rw [← Nat.ofDigitChars_append, List.take_append_drop, hvalue]
    have hfits := Nat.lt_of_le_of_lt (le_ofDigitChars (ds.drop (ds.length - s)) _) (hall.symm ▸ hm)
    have hscale : 0 + (ds.drop (ds.length - s)).length = s := by
      rw [List.length_drop]
      omega
    rw [scan_whole htake hfits, hstarted _ (by omega), scan_point, scan_fraction hdrop (hall.symm ▸ hm)
      (by omega), hall, hscale]

/-- The digits of a decimal begin with a digit. -/
theorem exists_digitsText_cons (m s : Nat) :
    ∃ c rest, digitsText m s = c :: rest ∧ c.isDigit = true := by
  obtain ⟨hdigits, hlength, -⟩ := padded_spec (s + 1) m
  unfold digitsText
  generalize Text.padded (s + 1) m = ds at hdigits hlength
  obtain ⟨d, ds, rfl⟩ := List.exists_cons_of_length_pos (Nat.lt_of_lt_of_le (Nat.succ_pos s) hlength)
  have hd := hdigits d List.mem_cons_self
  dsimp only
  split
  · exact ⟨d, ds, rfl, hd⟩
  · obtain ⟨k, hk⟩ : ∃ j, (d :: ds).length - s = j + 1 := ⟨(d :: ds).length - s - 1, by omega⟩
    rw [hk]
    exact ⟨d, _, rfl, hd⟩

/-- **A decimal is read back from its numeral**, without the sign if it is a zero. -/
theorem ofString?_text (d : Decimal) : ofString? d.text = make? d.negative d.mantissa d.scale := by
  have hmade : make? d.negative d.mantissa d.scale =
      some ⟨d.negative && d.mantissa != 0, d.mantissa, d.scale, d.mantissa_lt, d.scale_le⟩ :=
    dif_pos ⟨d.mantissa_lt, d.scale_le⟩
  have hplain : plain? d.chars = make? d.negative d.mantissa d.scale := by
    unfold chars
    cases d.negative with
    | true => exact scan_digitsText d.mantissa_lt d.scale_le
    | false =>
      have hread : scan false 0 0 false false (digitsText d.mantissa d.scale) = _ :=
        scan_digitsText d.mantissa_lt d.scale_le
      obtain ⟨c, rest, hcons, hc⟩ := exists_digitsText_cons d.mantissa d.scale
      rw [hcons] at hread
      simp only [Bool.false_eq_true, if_false, hcons]
      -- the numeral begins with a digit, so no sign is taken off
      unfold plain?
      split
      next heq => cases heq; cases hc
      next heq => cases heq; cases hc
      next => exact hread
  rw [ofString?, text, String.toList_ofList, ofChars?, hplain, hmade]
  rfl

end Decimal

namespace Amount

/-- The decimal of an amount is accepted and has the same cents. -/
theorem ofDecimal_toDecimal (a : Amount) : ofDecimal a.toDecimal = .ok a := by
  have hpositive : a.toDecimal.isPositive = true := by
    simp only [Decimal.isPositive, toDecimal, Bool.not_false, Bool.true_and, bne_iff_ne]
    exact Nat.ne_of_gt a.cents_pos
  have hfine : ¬scale < a.toDecimal.normalize.scale :=
    Nat.not_lt.mpr (Decimal.stripZeros_le a.cents scale).2
  have hsmall : a.toDecimal.compareNat unitBound = .lt := by
    simp only [Decimal.compareNat, toDecimal, Bool.false_and, Bool.false_eq_true, if_false]
    exact Nat.compare_eq_lt.mpr a.cents_lt
  unfold ofDecimal
  rw [dif_neg (by rw [hpositive]; exact Bool.noConfusion), dif_neg hfine, dif_neg fun hlarge => hlarge hsmall]
  rfl

/-- **An amount is read back from its text.** -/
theorem accept_text (a : Amount) : accept (.text a.text) = .ok a := by
  have hread : Decimal.ofString? a.text = some a.toDecimal := by
    rw [text, Decimal.ofString?_text]
    exact dif_pos ⟨a.toDecimal.mantissa_lt, a.toDecimal.scale_le⟩
  simp only [accept, Json.acceptDecimal, hread, bind, Except.bind, ofDecimal_toDecimal]

end Amount

end PaymentRelay
