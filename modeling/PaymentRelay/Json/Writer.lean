import PaymentRelay.Binary64.Shortest
import PaymentRelay.Json.Value
import PaymentRelay.Text.Numeral

/-!
# Writing JSON

The compact form of a value: no blanks, members in the order the object has them, and as few escapes
as the grammar allows.

* A quote, a backslash and the control characters below U+0020 are escaped, the five that have a
  short form with it and the others with four lower-case hexadecimal digits. All else is itself.
* An integer is its numeral. A double has its shortest digits, positional for decimal exponents
  from -5 to 15 with a digit behind the point, and with a signed exponent outside that range. Of two
  shortest numerals that are equally near the even one is written.
-/

namespace PaymentRelay.Json

/-- How doubles are laid out. -/
def doubleLayout : Binary64.Layout where
  leastPositional := -5
  greatestPositional := 15
  minFraction := 1
  tie := .even

/-- The characters of a number. -/
def Number.chars : Number → List Char
  | .integer i => Text.integer i
  | .double x => doubleLayout.chars x

/-- The escape of a control character without a short form. -/
def controlEscape (c : Char) : List Char :=
  let digits := Nat.toDigits 16 c.toNat
  '\\' :: 'u' :: (List.replicate (4 - digits.length) '0' ++ digits)

/-- A character as it stands in a string. -/
def escape (c : Char) : List Char :=
  if c = '"' then ['\\', '"']
  else if c = '\\' then ['\\', '\\']
  else if c = '\x08' then ['\\', 'b']
  else if c = '\x0c' then ['\\', 'f']
  else if c = '\n' then ['\\', 'n']
  else if c = '\r' then ['\\', 'r']
  else if c = '\t' then ['\\', 't']
  else if c.toNat < 0x20 then controlEscape c
  else [c]

/-- A text in quotes. -/
def quoted (s : String) : List Char :=
  '"' :: (s.toList.flatMap escape ++ ['"'])

mutual

/-- The characters of a value. -/
def chars : Json → List Char
  | .null => "null".toList
  | .boolean true => "true".toList
  | .boolean false => "false".toList
  | .number n => n.chars
  | .text s => quoted s
  | .array items => '[' :: (itemChars items ++ [']'])
  | .object members => '\x7b' :: (memberChars members ++ ['\x7d'])

/-- The items of an array with commas between them. -/
def itemChars : List Json → List Char
  | [] => []
  | [v] => chars v
  | v :: w :: rest => chars v ++ ',' :: itemChars (w :: rest)

/-- The members of an object with commas between them. -/
def memberChars : List (String × Json) → List Char
  | [] => []
  | [(k, v)] => quoted k ++ ':' :: chars v
  | (k, v) :: m :: rest => quoted k ++ ':' :: chars v ++ ',' :: memberChars (m :: rest)

end

/-- The compact text of a value. -/
def write (v : Json) : String :=
  String.ofList v.chars

end PaymentRelay.Json
