import PaymentRelay.Time.Calendar

/-!
# Instants and durations

An instant of UTC is a count of seconds since 1970-01-01T00:00:00Z and the nanoseconds within the
second. Nanoseconds from 10^9 on belong to a leap second: it follows the second it is counted in
and comes before the next one, so instants are ordered by seconds first and nanoseconds second.

Adding a duration can leave the calendar. The calendar ends with the year 262142, and `add?` has no
answer beyond it.
-/

namespace PaymentRelay

/-- A length of time: whole seconds and less than a second more. -/
structure Duration where
  seconds : Nat
  nanos : Nat
deriving DecidableEq, Repr

/-- The nanoseconds of a second. -/
def Duration.nanosPerSecond : Nat := 1000000000

namespace Duration

/-- A length of time in nanoseconds. -/
def toNanos (d : Duration) : Nat :=
  d.seconds * nanosPerSecond + d.nanos

/-- The duration of a number of nanoseconds. -/
def ofNanos (n : Nat) : Duration :=
  ⟨n / nanosPerSecond, n % nanosPerSecond⟩

/-- The duration of a number of milliseconds. -/
def ofMillis (n : Nat) : Duration :=
  ⟨n / 1000, n % 1000 * 1000000⟩

/-- The duration of a number of seconds. -/
def ofSeconds (n : Nat) : Duration := ⟨n, 0⟩

/-- The duration of a number of days. -/
def ofDays (n : Nat) : Duration := ⟨n * 86400, 0⟩

end Duration

/-- A point in time, to the nanosecond. -/
structure Instant where
  seconds : Int
  nanos : Nat
deriving DecidableEq, Repr

namespace Instant

/-- Whether one instant comes before another. -/
protected def lt (a b : Instant) : Prop :=
  a.seconds < b.seconds ∨ (a.seconds = b.seconds ∧ a.nanos < b.nanos)

instance : LT Instant := ⟨Instant.lt⟩

instance (a b : Instant) : Decidable (a < b) := by
  change Decidable (a.seconds < b.seconds ∨ (a.seconds = b.seconds ∧ a.nanos < b.nanos))
  infer_instance

/-- Whether one instant comes before another or is the same. -/
protected def le (a b : Instant) : Prop := ¬ b < a

instance : LE Instant := ⟨Instant.le⟩

instance (a b : Instant) : Decidable (a ≤ b) := by
  change Decidable (¬ b < a)
  infer_instance

/-- The nanoseconds from the epoch to an instant. -/
def toNanos (t : Instant) : Int :=
  t.seconds * Duration.nanosPerSecond + t.nanos

/-- The instant a number of nanoseconds after the epoch. -/
def ofNanos (n : Int) : Instant :=
  ⟨n.fdiv Duration.nanosPerSecond, (n.fmod Duration.nanosPerSecond).toNat⟩

/-- The instant `d` later, wherever it lies. -/
def later (t : Instant) (d : Duration) : Instant :=
  ofNanos (t.toNanos + d.toNanos)

/-- The day of an instant. -/
def date (t : Instant) : Date :=
  Date.ofDay (t.seconds.fdiv 86400)

/-- The last year of the calendar. -/
def lastYear : Int := 262142

/-- The instant `d` later, if the calendar has it. -/
def add? (t : Instant) (d : Duration) : Option Instant :=
  if (t.later d).date.year ≤ lastYear then some (t.later d) else none

end Instant

end PaymentRelay
