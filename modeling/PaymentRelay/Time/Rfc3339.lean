import PaymentRelay.Text.Numeral
import PaymentRelay.Time.Instant

/-!
# Instants as text

RFC 3339 in UTC: `2025-01-01T00:00:00Z`. A leap second is written as second 60. Years 0 to 9999 have
four digits; every other year has a sign and at least four digits.

How much of the second is shown is a choice of the writer (`Precision`): whole seconds, where the
fraction is cut off and never rounded, or the fewest of 0, 3, 6 and 9 digits that are exact.
-/

namespace PaymentRelay.Instant

/-- How much of the second is written. -/
inductive Precision where
  /-- Nothing of it. -/
  | seconds
  /-- No digits, or 3, 6 or 9 of them: the fewest that are exact. -/
  | exact
deriving DecidableEq, Repr

/-- The digits of a year. -/
def yearChars (year : Int) : List Char :=
  if 0 ≤ year ∧ year ≤ 9999 then Text.padded 4 year.toNat
  else (if year < 0 then '-' else '+') :: Text.padded 4 year.natAbs

/-- The fraction of a second with its point. -/
def fractionChars (nanos : Nat) : List Char :=
  if nanos = 0 then []
  else if nanos % 1000000 = 0 then '.' :: Text.padded 3 (nanos / 1000000)
  else if nanos % 1000 = 0 then '.' :: Text.padded 6 (nanos / 1000)
  else '.' :: Text.padded 9 nanos

/-- The characters of an instant. -/
def chars (precision : Precision) (t : Instant) : List Char :=
  let date := t.date
  let inDay := (t.seconds.fmod 86400).toNat
  let leap := Duration.nanosPerSecond ≤ t.nanos
  let second := if leap then inDay % 60 + 1 else inDay % 60
  let fraction := match precision with
    | .seconds => []
    | .exact => fractionChars (t.nanos % Duration.nanosPerSecond)
  yearChars date.year ++ '-' :: Text.padded 2 date.month ++ '-' :: Text.padded 2 date.day ++
    'T' :: Text.padded 2 (inDay / 3600) ++ ':' :: Text.padded 2 (inDay / 60 % 60) ++
    ':' :: Text.padded 2 second ++ fraction ++ ['Z']

/-- The text of an instant, to the second. -/
def secondsText (t : Instant) : String :=
  String.ofList (t.chars .seconds)

/-- The text of an instant with every digit of its fraction that is needed. -/
def exactText (t : Instant) : String :=
  String.ofList (t.chars .exact)

end PaymentRelay.Instant
