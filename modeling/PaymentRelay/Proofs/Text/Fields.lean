import PaymentRelay.Proofs.Decimal.Numerals
import PaymentRelay.Proofs.Json.Numbers

/-!
# Numbers in fields of a fixed width

A field is a number in exactly so many digits (`Text.IsField`), and a row of fields is a text in which each field has
a mark behind it (`Text.IsRow`). The widths and the marks are the layout of the row.

A layout makes texts comparable without reading them: rows of one layout are ordered octet by octet as their numbers
are ordered, the first number first (`Text.IsRow.lt_iff`). Without the widths this fails: `10` comes before `9`.
-/

namespace PaymentRelay.Text

open Json (octet encode)

/-! ## Fields -/

/-- A number in exactly `width` digits. -/
structure IsField (width n : Nat) (cs : List Char) : Prop where
  length : cs.length = width
  digits : ∀ c ∈ cs, c.isDigit = true
  value : Nat.ofDigitChars 10 cs 0 = n

/-- A number that has room is padded to exactly the width. -/
theorem isField_padded {width n : Nat} (hwidth : 0 < width) (h : n < 10 ^ width) :
    IsField width n (padded width n) := by
  obtain ⟨hdigits, -, hvalue⟩ := Decimal.padded_spec width n
  refine ⟨?_, hdigits, hvalue⟩
  have hle := (Nat.length_toDigits_le_iff (b := 10) (by decide) hwidth).mpr h
  rw [padded, List.length_append, List.length_replicate]
  omega

variable {width m n : Nat} {cs ds : List Char}

/-- The number of a digit and more digits. -/
theorem ofDigitChars_cons_zero (c : Char) (cs : List Char) :
    Nat.ofDigitChars 10 (c :: cs) 0 = 10 ^ cs.length * digitValue c + Nat.ofDigitChars 10 cs 0 := by
  rw [Decimal.ofDigitChars_cons, Nat.ofDigitChars_eq_ofDigitChars_zero, Nat.zero_mul, Nat.zero_add]

/-- Digits denote less than the power of ten of their number. -/
theorem ofDigitChars_lt_pow (h : ∀ c ∈ cs, c.isDigit = true) : Nat.ofDigitChars 10 cs 0 < 10 ^ cs.length := by
  have hlt := Decimal.ofDigitChars_lt (m := 0) fun c hc => Decimal.isDigit_of_isDigit (h c hc)
  rwa [Nat.zero_add, Nat.one_mul] at hlt

/-- The octet of a digit tells its value. -/
theorem octet_digit {c : Char} (h : c.isDigit = true) : (octet c).toNat = digitValue c + '0'.toNat := by
  rw [Json.octet_toNat (Json.ascii_of_isDigit h), digitValue]
  simp only [Char.isDigit, Bool.and_eq_true, decide_eq_true_eq] at h
  exact (Nat.sub_add_cancel h.1).symm

/-- **Equally many digits are ordered as the numbers** they denote. -/
theorem map_octet_lt_iff (hlength : cs.length = ds.length) (hcs : ∀ c ∈ cs, c.isDigit = true)
    (hds : ∀ d ∈ ds, d.isDigit = true) :
    cs.map octet < ds.map octet ↔ Nat.ofDigitChars 10 cs 0 < Nat.ofDigitChars 10 ds 0 := by
  induction cs generalizing ds with
  | nil =>
    cases ds with
    | nil => simp
    | cons d ds => cases hlength
  | cons c cs ih =>
    cases ds with
    | nil => cases hlength
    | cons d ds =>
      obtain ⟨hc, hcs⟩ := List.forall_mem_cons.mp hcs
      obtain ⟨hd, hds⟩ := List.forall_mem_cons.mp hds
      have hrest := Nat.succ.inj hlength
      have hclt := ofDigitChars_lt_pow hcs
      have hdlt := ofDigitChars_lt_pow hds
      have hlt : octet c < octet d ↔ digitValue c < digitValue d := by
        rw [UInt8.lt_iff_toNat_lt, octet_digit hc, octet_digit hd, Nat.add_lt_add_iff_right]
      have heq : octet c = octet d ↔ digitValue c = digitValue d := by
        rw [← UInt8.toNat_inj, octet_digit hc, octet_digit hd, Nat.add_right_cancel_iff]
      rw [List.map_cons, List.map_cons, List.cons_lt_cons_iff, ih hrest hcs hds, hlt, heq, ofDigitChars_cons_zero,
        ofDigitChars_cons_zero, ← hrest]
      rw [← hrest] at hdlt
      -- the first digits decide, and what is behind them makes up for no difference between them
      rcases lt_trichotomy (digitValue c) (digitValue d) with h | h | h
      · have := Nat.mul_le_mul_left (10 ^ cs.length) h
        rw [Nat.mul_succ] at this
        omega
      · rw [h]
        omega
      · have := Nat.mul_le_mul_left (10 ^ cs.length) h
        rw [Nat.mul_succ] at this
        omega

theorem IsField.encode_eq (h : IsField width n cs) : encode cs = cs.map octet :=
  Json.encode_of_ascii fun c hc => Json.ascii_of_isDigit (h.digits c hc)

/-- Fields of one width are ordered as their numbers. -/
theorem IsField.lt_iff (hcs : IsField width m cs) (hds : IsField width n ds) : encode cs < encode ds ↔ m < n := by
  rw [hcs.encode_eq, hds.encode_eq, map_octet_lt_iff (hcs.length.trans hds.length.symm) hcs.digits hds.digits, hcs.value,
    hds.value]

/-- A field is told by its number. -/
theorem IsField.eq_iff (hcs : IsField width m cs) (hds : IsField width n ds) : encode cs = encode ds ↔ m = n := by
  constructor
  · intro h
    have hless := hcs.lt_iff hds
    have hmore := hds.lt_iff hcs
    rw [h] at hless hmore
    have hnot : ¬ encode ds < encode ds := List.lt_irrefl _
    have hle := mt hless.mpr hnot
    have hge := mt hmore.mpr hnot
    omega
  · rintro rfl
    exact List.le_antisymm (fun hgt => Nat.lt_irrefl m ((hds.lt_iff hcs).mp hgt))
      (fun hlt => Nat.lt_irrefl m ((hcs.lt_iff hds).mp hlt))

/-! ## Rows -/

/-- A row of numbers in fields, each with the mark behind it that the layout has there. -/
def IsRow : List (Nat × Char) → List Nat → List Char → Prop
  | [], [], cs => cs = []
  | (width, mark) :: layout, n :: ns, cs =>
    ∃ field rest, cs = field ++ mark :: rest ∧ IsField width n field ∧ IsRow layout ns rest
  | _, _, _ => False

/-- Octets in front are compared before those behind them. -/
theorem append_lt_append_iff {a b x y : Json.Octets} (h : a.length = b.length) :
    a ++ x < b ++ y ↔ a < b ∨ a = b ∧ x < y := by
  induction a generalizing b with
  | nil =>
    obtain rfl := List.eq_nil_of_length_eq_zero h.symm
    simp
  | cons o a ih =>
    obtain ⟨p, b, rfl⟩ := List.exists_cons_of_length_eq_add_one h.symm
    rw [List.cons_append, List.cons_append, List.cons_lt_cons_iff, List.cons_lt_cons_iff,
      ih (Nat.succ.inj h), List.cons.injEq]
    tauto

/-- A row is as long as its fields and marks together. -/
theorem IsRow.length_eq {layout : List (Nat × Char)} {ns : List Nat} (h : IsRow layout ns cs) :
    cs.length = (layout.map fun f => f.1 + 1).sum := by
  induction layout generalizing ns cs with
  | nil =>
    cases ns with
    | nil => rw [show cs = [] from h]; rfl
    | cons => exact h.elim
  | cons f layout ih =>
    cases ns with
    | nil => exact h.elim
    | cons n ns =>
      obtain ⟨field, rest, rfl, hfield, hrest⟩ := h
      rw [List.length_append, List.length_cons, ih hrest, hfield.length, List.map_cons, List.sum_cons]
      omega

/-- **Rows of one layout are ordered as their numbers**, the first number first. -/
theorem IsRow.lt_iff {layout : List (Nat × Char)} {ms ns : List Nat} (hcs : IsRow layout ms cs)
    (hds : IsRow layout ns ds) : encode cs < encode ds ↔ ms < ns := by
  induction layout generalizing ms ns cs ds with
  | nil =>
    cases ms with
    | cons => exact hcs.elim
    | nil =>
      cases ns with
      | cons => exact hds.elim
      | nil => rw [show cs = [] from hcs, show ds = [] from hds]; simp [Json.encode]
  | cons f layout ih =>
    cases ms with
    | nil => exact hcs.elim
    | cons m ms =>
      cases ns with
      | nil => exact hds.elim
      | cons n ns =>
        obtain ⟨field, rest, rfl, hfield, hrest⟩ := hcs
        obtain ⟨field', rest', rfl, hfield', hrest'⟩ := hds
        have hlength : (encode field).length = (encode field').length := by
          rw [hfield.encode_eq, hfield'.encode_eq, List.length_map, List.length_map, hfield.length, hfield'.length]
        have hmark : encode (f.2 :: rest) < encode (f.2 :: rest') ↔ encode rest < encode rest' := by
          rw [Json.encode_cons, Json.encode_cons, append_lt_append_iff rfl]
          simp
        rw [Json.encode_append, Json.encode_append, append_lt_append_iff hlength, hfield.lt_iff hfield',
          hfield.eq_iff hfield', hmark, ih hrest hrest', List.cons_lt_cons_iff]

end PaymentRelay.Text
