import PaymentRelay.Width

/-!
# Universally unique identifiers

A uuid is a number of 128 bits. Uuids are ordered as numbers, which is the order of their bytes and
of their texts.

One text is written: 32 lower-case hexadecimal digits in groups of 8, 4, 4, 4 and 12. Four are read,
with digits in either case: that one, the same in braces, the same after `urn:uuid:`, and the 32
digits without hyphens. Nothing is trimmed.
-/

namespace PaymentRelay

/-- A number of 128 bits. -/
structure Uuid where
  number : Nat
  number_lt : number < Width.bits128
deriving DecidableEq, Repr

namespace Uuid

/-- The uuid of the low 128 bits of a number. -/
def ofNat (n : Nat) : Uuid := ⟨n % Width.bits128, Nat.mod_lt _ (by decide)⟩

/-- The uuid with no bit set. -/
def nil : Uuid := ofNat 0

instance : Inhabited Uuid := ⟨nil⟩

instance : LT Uuid := ⟨fun a b => a.number < b.number⟩

instance (a b : Uuid) : Decidable (a < b) := inferInstanceAs (Decidable (a.number < b.number))

/-! ## Writing -/

/-- The hexadecimal digits of a number, at least `width` of them. -/
def hexDigits (width n : Nat) : List Char :=
  let digits := Nat.toDigits 16 n
  List.replicate (width - digits.length) '0' ++ digits

/-- The lengths of the groups of digits. -/
def groups : List Nat := [8, 4, 4, 4, 12]

/-- Puts a hyphen between the groups. -/
def hyphenate : List Nat → List Char → List Char
  | [], cs => cs
  | [_], cs => cs
  | n :: ns, cs => cs.take n ++ '-' :: hyphenate ns (cs.drop n)

/-- The characters of a uuid. -/
def chars (u : Uuid) : List Char :=
  hyphenate groups (hexDigits 32 u.number)

/-- The text of a uuid. -/
def text (u : Uuid) : String :=
  String.ofList u.chars

instance : ToString Uuid := ⟨text⟩

/-! ## Reading -/

/-- The value of a hexadecimal digit. -/
def hexValue? (c : Char) : Option Nat :=
  if '0' ≤ c ∧ c ≤ '9' then some (c.toNat - '0'.toNat)
  else if 'a' ≤ c ∧ c ≤ 'f' then some (c.toNat - 'a'.toNat + 10)
  else if 'A' ≤ c ∧ c ≤ 'F' then some (c.toNat - 'A'.toNat + 10)
  else none

/-- The number a row of hexadecimal digits denotes, after `n`. -/
def hexNumber? (n : Nat) : List Char → Option Nat
  | [] => some n
  | c :: cs => (hexValue? c).bind fun d => hexNumber? (n * 16 + d) cs

/-- Takes the hyphens out from between the groups. -/
def unhyphenate? : List Nat → List Char → Option (List Char)
  | [], cs => if cs = [] then some [] else none
  | [n], cs => if cs.length = n then some cs else none
  | n :: ns, cs =>
    match cs.drop n with
    | '-' :: rest => (unhyphenate? ns rest).map (cs.take n ++ ·)
    | _ => none

/-- The uuid of 32 digits. -/
def ofDigits? (cs : List Char) : Option Uuid :=
  if cs.length = 32 then (hexNumber? 0 cs).map ofNat else none

/-- The uuid of digits in groups. -/
def ofHyphenated? (cs : List Char) : Option Uuid :=
  (unhyphenate? groups cs).bind ofDigits?

/-- What stands in front of the groups of a uniform resource name. -/
def urnMark : List Char := "urn:uuid:".toList

/-- The uuid of a text in one of its four forms. -/
def ofChars? (cs : List Char) : Option Uuid :=
  match cs with
  | '{' :: rest => if rest.getLast? = some '}' then ofHyphenated? rest.dropLast else none
  | _ =>
    if cs.length = 32 then ofDigits? cs
    else if (cs.take urnMark.length).map Char.toLower = urnMark then
      ofHyphenated? (cs.drop urnMark.length)
    else ofHyphenated? cs

/-- The uuid a text denotes. -/
def ofString? (s : String) : Option Uuid :=
  ofChars? s.toList

end Uuid

end PaymentRelay
