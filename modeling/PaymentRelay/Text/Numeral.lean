import PaymentRelay.Width

/-!
# Numerals

Decimal numerals as settings and headers write them: an optional sign, then one or more ASCII
digits, and nothing else. A numeral is read against the range it has to fit; one that is too large
is refused rather than wrapped or clamped.

Leading zeros are allowed and do not count. A type without negative values refuses the sign `-`
altogether, also in front of zero.
-/

namespace PaymentRelay.Text

/-- An ASCII digit. -/
def isDigit (c : Char) : Bool :=
  '0'.toNat ≤ c.toNat && c.toNat ≤ '9'.toNat

/-- The value of an ASCII digit. -/
def digitValue (c : Char) : Nat :=
  c.toNat - '0'.toNat

/-- The number one or more digits denote, and nothing for any other text. -/
def natural? (cs : List Char) : Option Nat :=
  if cs ≠ [] ∧ cs.all isDigit = true then some (Nat.ofDigitChars 10 cs 0) else none

/-- A numeral below `bound`, with an optional `+`. -/
def unsigned? (bound : Nat) (cs : List Char) : Option Nat :=
  let digits := match cs with
    | '+' :: rest => rest
    | _ => cs
  (natural? digits).filter (· < bound)

/-- The integers that fit 64 bits with a sign. -/
def FitsInt64 (i : Int) : Prop :=
  -(Width.signed64 : Int) ≤ i ∧ i < (Width.signed64 : Int)

instance (i : Int) : Decidable (FitsInt64 i) := by
  unfold FitsInt64; infer_instance

/-- A numeral with an optional sign that fits 64 bits. -/
def signed? (cs : List Char) : Option Int :=
  let value := match cs with
    | '-' :: rest => (natural? rest).map fun n => -(n : Int)
    | '+' :: rest => (natural? rest).map Int.ofNat
    | _ => (natural? cs).map Int.ofNat
  value.filter fun i => decide (FitsInt64 i)

/-- The shortest numeral of an integer: no leading zeros, and a sign only below zero. -/
def integer (i : Int) : List Char :=
  if i < 0 then '-' :: Nat.toDigits 10 i.natAbs else Nat.toDigits 10 i.natAbs

/-- A numeral padded with zeros on the left to at least `width` digits. -/
def padded (width n : Nat) : List Char :=
  let digits := Nat.toDigits 10 n
  List.replicate (width - digits.length) '0' ++ digits

/-- A numeral of at most six digits below ten to the sixth reads back as it was written. -/
example : unsigned? Width.bits32 (padded 6 42) = some 42 := by decide

end PaymentRelay.Text
