/-!
# Widths of integers

Numbers that other programs keep in a fixed number of bits have a range. A width is named by the first
number that it does not hold.
-/

namespace PaymentRelay.Width

/-- The first number that 32 bits do not hold. -/
def bits32 : Nat := 0x100000000

/-- The first number that 64 bits with a sign do not hold. -/
def signed64 : Nat := 0x8000000000000000

/-- The first number that 64 bits do not hold. -/
def bits64 : Nat := 0x10000000000000000

/-- The first number that 96 bits do not hold. -/
def bits96 : Nat := 0x1000000000000000000000000

/-- The first number that 128 bits do not hold. -/
def bits128 : Nat := 0x100000000000000000000000000000000

/-- A width is a power of two. -/
example : bits32 = Nat.pow 2 32 ∧ signed64 = Nat.pow 2 63 ∧ bits64 = Nat.pow 2 64 ∧
    bits96 = Nat.pow 2 96 ∧ bits128 = Nat.pow 2 128 := by decide

end PaymentRelay.Width
