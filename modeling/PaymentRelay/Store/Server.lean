import PaymentRelay.Payment.Error
import PaymentRelay.Time.Instant
import PaymentRelay.Width

/-!
# What the servers take

The numbers a key store server and a database server are given have a range of their own, narrower
than the range of the settings. They are checked on this side, before anything is sent.
-/

namespace PaymentRelay.Server

/-- The largest integer of 64 bits with a sign. -/
def maxInt64 : Nat := Width.signed64 - 1

/-- The lifetime of a key in whole seconds, at least one. -/
def expirySeconds (lifetime : Duration) : Except PaymentError Nat :=
  if max lifetime.seconds 1 ≤ maxInt64 then .ok (max lifetime.seconds 1)
  else .error (.refused (.lifetimeOutOfRange lifetime.seconds))

/-- The number of rows that is claimed at most at a time. -/
def claimLimit (limit : Nat) : Except PaymentError Nat :=
  if limit ≤ maxInt64 then .ok limit else .error (.refused (.batchTooLarge limit))

/-- Opens the key store at an address for keys of a lifetime. The lifetime is checked before the
address is looked at; no server is within reach of this library, so no address answers. -/
def openKeyStore (_address : String) (lifetime : Duration) : Except PaymentError Unit := do
  let _ ← expirySeconds lifetime
  .error .redis

end PaymentRelay.Server
