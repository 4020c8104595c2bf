/-!
# The proleptic Gregorian calendar

Days are counted from 1970-01-01, in both directions and without a limit. A date and its day number
determine each other: `Date.ofDay` takes a day number apart and `Date.toDay` puts it together.

Both work on years that begin in March, so that the day a leap year adds is the last one of its
year. Such a year lies in a cycle of 400 years, and there in a century, and there in a block of four
years. Of the four centuries of a cycle the last is a day longer, and so is the last year of a
block; that is why `ofDay` caps the quotient at three, and nothing else about leap years is needed.
-/

namespace PaymentRelay

/-- A day of the calendar. Year 0 is the year before year 1. -/
structure Date where
  year : Int
  month : Nat
  day : Nat
deriving DecidableEq, Repr

namespace Date

/-- The number of days from 0000-03-01 to 1970-01-01. -/
def epochOffset : Int := 719468

/-- Days before a month of a year that begins in March; month 0 is March. -/
def daysBefore (month : Nat) : Nat :=
  (153 * month + 2) / 5

/-- The month, counted from March, in which a day of the year lies. -/
def monthOf (dayOfYear : Nat) : Nat :=
  (5 * dayOfYear + 2) / 153

/-- The date of a day number. -/
def ofDay (n : Int) : Date :=
  let sinceMarch := n + epochOffset
  let cycle := sinceMarch.fdiv 146097
  let inCycle := (sinceMarch.fmod 146097).toNat
  let century := min (inCycle / 36524) 3
  let inCentury := inCycle - century * 36524
  let block := inCentury / 1461
  let inBlock := inCentury % 1461
  let yearOfBlock := min (inBlock / 365) 3
  let dayOfYear := inBlock - yearOfBlock * 365
  let month := monthOf dayOfYear
  let year := cycle * 400 + century * 100 + block * 4 + yearOfBlock
  { year := if month < 10 then year else year + 1
    month := if month < 10 then month + 3 else month - 9
    day := dayOfYear - daysBefore month + 1 }

/-- The day number of a date. -/
def toDay (d : Date) : Int :=
  let year := if d.month ≤ 2 then d.year - 1 else d.year
  let month := if d.month ≤ 2 then d.month + 9 else d.month - 3
  let cycle := year.fdiv 400
  let yearOfCycle := (year.fmod 400).toNat
  let dayOfYear := daysBefore month + (d.day - 1)
  cycle * 146097 +
    ((yearOfCycle * 365 + yearOfCycle / 4 - yearOfCycle / 100 + dayOfYear : Nat) : Int) - epochOffset

/-- The calendar begins its count where the epoch says. -/
example : ofDay 0 = ⟨1970, 1, 1⟩ ∧ toDay ⟨1970, 1, 1⟩ = 0 := by decide

/-- The last day of a cycle of 400 years is a leap day. -/
example : ofDay 11016 = ⟨2000, 2, 29⟩ ∧ toDay ⟨2000, 2, 29⟩ = 11016 := by decide

end Date

end PaymentRelay
