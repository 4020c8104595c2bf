/-!
# Blank characters and trimming

The characters Unicode gives the property White_Space, and the trimming of a text at both ends.
`trimBlank` is the whole rule: blanks are taken off the front, then off the back, and nothing
inside the text is touched.

**What is blank is a table, not a test for ASCII.** The no-break spaces are in it; the zero-width
space (U+200B), the byte order mark (U+FEFF), the Mongolian vowel separator (U+180E) and the
information separators U+001C to U+001F are not.
-/

namespace PaymentRelay.Text

/-- The code points of White_Space, as closed ranges in ascending order. -/
def blankRanges : List (Nat × Nat) :=
  [(0x09, 0x0D), (0x20, 0x20), (0x85, 0x85), (0xA0, 0xA0), (0x1680, 0x1680), (0x2000, 0x200A),
   (0x2028, 0x2029), (0x202F, 0x202F), (0x205F, 0x205F), (0x3000, 0x3000)]

/-- A character is blank when its code point lies in one of the ranges. -/
def isBlank (c : Char) : Bool :=
  blankRanges.any fun r => r.1 ≤ c.toNat && c.toNat ≤ r.2

/-- The characters of a text without the blanks at its two ends. -/
def trimBlank (cs : List Char) : List Char :=
  ((cs.dropWhile isBlank).reverse.dropWhile isBlank).reverse

/-- A text without the blanks at its two ends. -/
def trim (s : String) : String :=
  String.ofList (trimBlank s.toList)

/-- Every character core calls whitespace is blank. -/
theorem isBlank_of_isWhitespace {c : Char} (h : c.isWhitespace = true) : isBlank c = true := by
  simp only [Char.isWhitespace, Bool.or_eq_true, decide_eq_true_eq] at h
  rcases h with ((rfl | rfl) | rfl) | rfl <;> decide

end PaymentRelay.Text
