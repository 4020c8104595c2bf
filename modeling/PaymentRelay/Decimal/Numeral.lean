import PaymentRelay.Decimal.Basic

/-!
# Decimal numerals

How a text denotes a decimal. There are two forms.

* **Plain**: an optional sign, then digits with at most one point, and `_` anywhere after the first
  digit. At least one digit has to be there; it may stand on either side of the point.
* **Scientific**: a plain numeral, `e` or `E`, and an exponent of at most 28, with an optional `-`.

A text of any length is read, but a decimal has room for 28 fractional digits and 96 bits. The
whole part has to fit. Of the fraction, as many digits are taken as there is room for, the next one
rounds (a five goes up), and what follows it is checked for form only. So a long fraction is *not*
refused: `plain?` is exact on numerals whose digits all fit, and nearest to the number otherwise.
-/

namespace PaymentRelay.Decimal

/-- A digit or a separator: what may follow the last digit that counts. -/
def isTail (c : Char) : Bool :=
  Text.isDigit c || c == '_'

/-- The decimal `m / 10 ^ s` one unit in the last place up. A mantissa that is full gives up its
last digit, which only a fraction has to spare. -/
def stepUp (negative : Bool) (m s : Nat) : Option Decimal :=
  if m + 1 < mantissaBound then make? negative (m + 1) s
  else if s = 0 then none
  else make? negative ((m + 5) / 10) (s - 1)

/-- Ends a numeral whose decimal is full: the next character rounds, and the others have to be
digits and separators. A separator in the place of that digit rounds as a zero does. -/
def roundAt (negative : Bool) (m s : Nat) : List Char → Option Decimal
  | [] => make? negative m s
  | c :: rest =>
    if isTail c && rest.all isTail then
      if c != '_' && 5 ≤ Text.digitValue c then stepUp negative m s else make? negative m s
    else none

/-- From this mantissa on one more digit may not fit 64 bits, and a separator behind the last
fractional digit is passed over, so that the digit after it rounds. -/
def wideMantissa : Nat := 1844674407370954906

/-- Reads the characters after the sign. `m` and `s` are the mantissa and the scale so far,
`point` says that the point has been passed and `started` that there has been a digit. -/
def scan (negative : Bool) (m s : Nat) (point started : Bool) : List Char → Option Decimal
  | [] => if started then make? negative m s else none
  | c :: rest =>
    if Text.isDigit c then
      let next := m * 10 + Text.digitValue c
      if mantissaBound ≤ next then
        if point then roundAt negative m s (c :: rest) else none
      else if point && s + 1 == maxScale then
        let rest := if wideMantissa ≤ m then rest.dropWhile (· == '_') else rest
        roundAt negative next maxScale rest
      else scan negative next (if point then s + 1 else s) point true rest
    else if c == '.' && !point then scan negative m s true started rest
    else if c == '_' && started then scan negative m s point started rest
    else none

/-- The decimal of a plain numeral. -/
def plain? (cs : List Char) : Option Decimal :=
  match cs with
  | '-' :: rest => scan true 0 0 false false rest
  | '+' :: rest => scan false 0 0 false false rest
  | _ => scan false 0 0 false false cs

/-- The letter in front of an exponent. -/
def isExponentMark (c : Char) : Bool :=
  c == 'e' || c == 'E'

/-- The number `d / 10 ^ n`. Digits that would pass the largest scale are rounded off first, and the
sign stays. -/
def shiftDown (d : Decimal) (n : Nat) : Decimal :=
  if h : d.scale + n ≤ maxScale then { d with scale := d.scale + n, scale_le := h }
  else
    let r := d.rescale (maxScale - n) (Nat.sub_le _ _)
    { r with scale := maxScale, scale_le := Nat.le_refl _ }

/-- The number `d * 10 ^ n`, with no more fractional digits than are left. -/
def shiftUp (d : Decimal) (n : Nat) : Option Decimal :=
  if n ≤ d.scale then make? d.negative d.mantissa (d.scale - n)
  else make? d.negative (d.mantissa * tenTo (n - d.scale)) 0

/-- An exponent without its sign. It fits 32 bits and is at most the largest scale. -/
def exponent? (cs : List Char) : Option Nat :=
  (Text.unsigned? Width.bits32 cs).filter (· ≤ maxScale)

/-- The decimal of a scientific numeral. -/
def scientific? (cs : List Char) : Option Decimal :=
  match cs.dropWhile (!isExponentMark ·) with
  | [] => none
  | _ :: exponent => do
    let d ← plain? (cs.takeWhile (!isExponentMark ·))
    match exponent with
    | '-' :: digits => return d.shiftDown (← exponent? digits)
    | _ => d.shiftUp (← exponent? exponent)

/-- The decimal of a numeral in either form. -/
def ofChars? (cs : List Char) : Option Decimal :=
  plain? cs <|> scientific? cs

/-- The decimal a text denotes. -/
def ofString? (s : String) : Option Decimal :=
  ofChars? s.toList

end PaymentRelay.Decimal
