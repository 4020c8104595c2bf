import PaymentRelay.Proofs.Json.Strings

/-!
# Integers that are written are read back

An integer is written as its shortest numeral and read back as the same integer, as long as what follows
it cannot be taken for more of it (`IsEnd`), and as long as it has a place among the numbers: from -2^63
to 2^64 - 1.
-/

namespace PaymentRelay.Json

/-- What follows a value: the end, a comma or a closing bracket. -/
def IsEnd : Octets → Prop
  | [] => True
  | b :: _ => b = octet ',' ∨ b = octet ']' ∨ b = octet '\x7d'

/-- What follows a value does not go on with a number. -/
theorem IsEnd.cons_ne {b : UInt8} {rest : Octets} (h : IsEnd (b :: rest)) :
    isDigit b = false ∧ b ≠ octet '.' ∧ b ≠ octet 'e' ∧ b ≠ octet 'E' := by
  rcases h with rfl | rfl | rfl <;> decide

/-! ## Digits -/

theorem ascii_of_isDigit {c : Char} (h : c.isDigit = true) : c.toNat < 128 := by
  simp only [Char.isDigit, Bool.and_eq_true, decide_eq_true_eq] at h
  have hle : c.toNat ≤ 57 := h.2
  omega

theorem isDigit_octet {c : Char} (h : c.isDigit = true) : isDigit (octet c) = true := by
  have hascii := octet_toNat (ascii_of_isDigit h)
  simp only [Char.isDigit, Bool.and_eq_true, decide_eq_true_eq] at h
  have hge : 48 ≤ c.toNat := h.1
  have hle : c.toNat ≤ 57 := h.2
  simp only [isDigit, Bool.and_eq_true, decide_eq_true_eq]
  refine ⟨?_, ?_⟩
  · show (octet '0').toNat ≤ (octet c).toNat
    rw [hascii]
    exact hge
  · show (octet c).toNat ≤ (octet '9').toNat
    rw [hascii]
    exact hle

/-- The octets of digits denote the number of the digits. -/
theorem digitsValue_octets {cs : List Char} (h : ∀ c ∈ cs, c.isDigit = true) :
    digitsValue (cs.map octet) = Nat.ofDigitChars 10 cs 0 := by
  have hgo : ∀ (cs : List Char) (n : Nat), (∀ c ∈ cs, c.isDigit = true) →
      (cs.map octet).foldl (fun n d => n * 10 + digitValue d) n = Nat.ofDigitChars 10 cs n := by
    intro cs
    induction cs with
    | nil => intro n _; rfl
    | cons c cs ih =>
      intro n hall
      rw [List.map_cons, List.foldl_cons, ih _ fun c hc => hall c (List.mem_cons_of_mem _ hc),
        Nat.ofDigitChars_cons, digitValue, octet_toNat (ascii_of_isDigit (hall c List.mem_cons_self)),
        Nat.mul_comm]
  exact hgo cs 0 h

/-- Digits are taken up to the first octet that is none. -/
theorem takeDigits_append {ds rest : Octets} (hne : ds ≠ []) (h : ∀ d ∈ ds, isDigit d = true)
    (hrest : IsEnd rest) : takeDigits (ds ++ rest) = .ok (ds, rest) := by
  have hstop : rest.takeWhile isDigit = [] ∧ rest.dropWhile isDigit = rest := by
    cases rest with
    | nil => exact ⟨rfl, rfl⟩
    | cons b rest =>
      have hb := hrest.cons_ne.1
      simp only [List.takeWhile_cons, List.dropWhile_cons, hb, Bool.false_eq_true, if_false, and_self]
  obtain ⟨d, ds, rfl⟩ := List.exists_cons_of_ne_nil hne
  unfold takeDigits
  rw [List.takeWhile_append_of_pos h, List.dropWhile_append_of_pos h, hstop.1, hstop.2, List.append_nil]

theorem takeFraction_of_end {rest : Octets} (h : IsEnd rest) : takeFraction rest = .ok (none, rest) := by
  cases rest with
  | nil => rfl
  | cons b rest =>
    unfold takeFraction
    simp only [beq_eq_false_iff_ne.mpr h.cons_ne.2.1, Bool.false_eq_true, if_false]

theorem takeExponent_of_end {rest : Octets} (h : IsEnd rest) : takeExponent rest = .ok (none, rest) := by
  cases rest with
  | nil => rfl
  | cons b rest =>
    unfold takeExponent
    simp only [beq_eq_false_iff_ne.mpr h.cons_ne.2.2.1, beq_eq_false_iff_ne.mpr h.cons_ne.2.2.2,
      Bool.or_false, Bool.false_eq_true, if_false]

/-! ## Integers -/

/-- The octets of the numeral of a natural number. -/
def natOctets (n : Nat) : Octets := (Nat.toDigits 10 n).map octet

/-- The numeral of a natural number has at least one digit, and only digits, and denotes the number. -/
theorem natOctets_spec (n : Nat) :
    natOctets n ≠ [] ∧ (∀ d ∈ natOctets n, isDigit d = true) ∧ digitsValue (natOctets n) = n := by
  have hdigit : ∀ c ∈ Nat.toDigits 10 n, c.isDigit = true := fun c hc =>
    Nat.isDigit_of_mem_toDigits (by decide) (by decide) hc
  refine ⟨?_, fun d hd => ?_, ?_⟩
  · simp only [natOctets, ne_eq, List.map_eq_nil_iff, Nat.toDigits_ne_nil, not_false_eq_true]
  · obtain ⟨c, hc, rfl⟩ := List.mem_map.mp hd
    exact isDigit_octet (hdigit c hc)
  · rw [natOctets, digitsValue_octets hdigit, Nat.ofDigitChars_ten_toDigits]

/-- Only the numeral of zero begins with a zero. -/
theorem eq_zero_of_toDigits_head (n : Nat) (h : (Nat.toDigits 10 n).head? = some '0') : n = 0 := by
  rw [Nat.toDigits_eq_if (by decide)] at h
  split at h
  next => exact Nat.digitChar_eq_zero.mp (Option.some.inj h)
  next hge =>
    -- the digits in front of the last one are those of the tenth part, and begin with the same digit
    have hlt : n / 10 < n := Nat.div_lt_self (by omega) (by decide)
    have hne : Nat.toDigits 10 (n / 10) ≠ [] := Nat.toDigits_ne_nil
    obtain ⟨d, ds, hcons⟩ := List.exists_cons_of_ne_nil hne
    rw [hcons] at h
    have hzero := eq_zero_of_toDigits_head (n / 10) (by rw [hcons]; exact h)
    omega
termination_by n

theorem natOctets_head {n : Nat} (h : (natOctets n).head? = some (octet '0')) :
    (natOctets n).length = 1 := by
  rw [natOctets, List.head?_map, Option.map_eq_some_iff] at h
  obtain ⟨c, hc, hzero⟩ := h
  have hdigit : c.isDigit = true :=
    Nat.isDigit_of_mem_toDigits (by decide) (by decide) (List.mem_of_head? hc)
  rw [octet_inj (ascii_of_isDigit hdigit) (by decide) hzero] at hc
  rw [eq_zero_of_toDigits_head n hc]
  rfl

/-- A number behind its sign. -/
def takeUnsigned (negative : Bool) : Reader NumberText := fun s => do
  let (whole, s) ← takeDigits s
  if whole.head? = some (octet '0') ∧ whole.length ≠ 1 then .error .malformed
  let (fraction, s) ← takeFraction s
  let (exponent, s) ← takeExponent s
  return (⟨negative, whole, fraction, exponent⟩, s)

/-- Digits that end are a number without fraction and exponent. -/
theorem takeUnsigned_octets (negative : Bool) (n : Nat) {rest : Octets} (h : IsEnd rest) :
    takeUnsigned negative (natOctets n ++ rest) = .ok (⟨negative, natOctets n, none, none⟩, rest) := by
  obtain ⟨hne, hdigits, -⟩ := natOctets_spec n
  have hzero : ¬ ((natOctets n).head? = some (octet '0') ∧ (natOctets n).length ≠ 1) :=
    fun hboth => hboth.2 (natOctets_head hboth.1)
  rw [takeUnsigned, takeDigits_append hne hdigits h]
  simp only [bind, Except.bind, hzero, if_false, takeFraction_of_end h, takeExponent_of_end h]
  rfl

/-- A numeral is taken as a whole part alone. -/
theorem takeNumber_octets (negative : Bool) (n : Nat) {rest : Octets} (h : IsEnd rest) :
    takeNumber ((if negative then [octet '-'] else []) ++ natOctets n ++ rest) =
      .ok (⟨negative, natOctets n, none, none⟩, rest) := by
  obtain ⟨hne, hdigits, -⟩ := natOctets_spec n
  obtain ⟨d, ds, hcons⟩ := List.exists_cons_of_ne_nil hne
  cases negative with
  | true => exact takeUnsigned_octets true n h
  | false =>
    -- a digit is not taken for a sign
    have hminus : (d == octet '-') = false := by
      have hd := hdigits d (hcons ▸ List.mem_cons_self)
      refine beq_eq_false_iff_ne.mpr fun he => ?_
      rw [he] at hd
      exact absurd hd (by decide)
    show takeNumber (natOctets n ++ rest) = _
    have hunsigned := takeUnsigned_octets false n h
    rw [hcons] at hunsigned ⊢
    unfold takeNumber
    simp only [List.cons_append, hminus, Bool.false_eq_true, if_false]
    exact hunsigned

/-- The integers that are read as such. -/
def IsInteger (i : Int) : Prop :=
  -(Width.signed64 : Int) ≤ i ∧ i < (Width.bits64 : Int)

/-- **An integer that was written is read back.** -/
theorem takeNumber_integer {i : Int} (hi : IsInteger i) {rest : Octets} (h : IsEnd rest) :
    ∃ t, takeNumber (encode (Text.integer i) ++ rest) = .ok (t, rest) ∧ t.value = .ok (.integer i) := by
  have henc : encode (Text.integer i) =
      (if decide (i < 0) then [octet '-'] else []) ++ natOctets i.natAbs := by
    have hascii : encode (Nat.toDigits 10 i.natAbs) = natOctets i.natAbs :=
      encode_of_ascii fun c hc =>
        ascii_of_isDigit (Nat.isDigit_of_mem_toDigits (by decide) (by decide) hc)
    unfold Text.integer
    by_cases hneg : i < 0
    · simp only [hneg, if_true, decide_true]
      rw [encode_cons_ascii (by decide), hascii]
      rfl
    · simp only [hneg, if_false, decide_false, Bool.false_eq_true]
      exact hascii
  refine ⟨⟨decide (i < 0), natOctets i.natAbs, none, none⟩, ?_, ?_⟩
  · rw [henc]
    exact takeNumber_octets _ _ h
  · obtain ⟨hlow, hhigh⟩ := hi
    have hvalue := (natOctets_spec i.natAbs).2.2
    have hinteger : NumberText.integer? ⟨decide (i < 0), natOctets i.natAbs, none, none⟩ = some i := by
      simp only [NumberText.integer?, Option.isSome_none, Bool.or_self, Bool.false_eq_true, if_false,
        hvalue]
      by_cases hneg : i < 0
      · have hfit : i.natAbs ≠ 0 ∧ i.natAbs ≤ Width.signed64 := by omega
        simp only [hneg, decide_true, if_true, hfit, and_self, ne_eq, not_false_eq_true]
        congr 1
        omega
      · have hfit : i.natAbs < Width.bits64 := by omega
        simp only [hneg, decide_false, Bool.false_eq_true, if_false, hfit, if_true]
        congr 1
        omega
    rw [NumberText.value, hinteger]

end PaymentRelay.Json
