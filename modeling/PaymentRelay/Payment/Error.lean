import PaymentRelay.Decimal.Basic
import PaymentRelay.Json.Reader
import PaymentRelay.Uuid

/-!
# What can go wrong

The causes for which a command, a message or a request is turned away, and their wording. A cause is
data; the text it is shown with is made in one place, `Refusal.message` and `PaymentError.message`.

The nine kinds of `PaymentError` fall in two groups. Failures of a store or of the broker
(`isInfrastructure`) say nothing about the request, which may be tried again. All others are a
verdict on the request or the message itself.

Of the database, the key store server and the broker only the kind of the failure is known here: the
texts of their own errors are theirs.
-/

namespace PaymentRelay

/-- Why the body of a request is not taken. -/
inductive BodyProblem where
  /-- It is not announced as JSON. -/
  | contentType
  /-- It is longer than the limit. -/
  | tooLarge
  /-- It is not JSON. -/
  | malformed
  /-- It is JSON, but no payment request. -/
  | mismatch
deriving DecidableEq, Repr

namespace BodyProblem

/-- The wording of a body problem. -/
def message : BodyProblem → String
  | contentType => "Expected request with \x60Content-Type: application/json\x60"
  | tooLarge => "Failed to buffer the request body"
  | malformed => "Failed to parse the request body as JSON"
  | mismatch => "Failed to deserialize the JSON body into the target type"

end BodyProblem

/-- Why a value is not accepted. -/
inductive Refusal where
  | nilOrderReference
  | orderReferenceUnreadable (text : String)
  | userIdNotPositive (id : Int)
  | keyEmpty
  | keyTooLong
  | amountNotPositive (value : Decimal)
  | amountTooFine (value : Decimal)
  | amountTooLarge (value : Decimal)
  | unknownOrder (order : Uuid)
  | unknownOrderStatus (text : String)
  | lifetimeOutOfRange (seconds : Nat)
  | batchTooLarge (limit : Nat)
  | body (problem : BodyProblem)
  /-- A reason in a caller's own words. -/
  | stated (text : String)
deriving DecidableEq, Repr

/-- The wording of a refusal. Values are quoted as they were given. -/
def Refusal.message : Refusal → String
  | nilOrderReference => "order_reference must not be the nil uuid"
  | orderReferenceUnreadable text => "invalid order_reference " ++ text
  | userIdNotPositive id => "user_id must be positive, got: " ++ String.ofList (Text.integer id)
  | keyEmpty => "idempotency_key must not be empty"
  | keyTooLong => "idempotency_key longer than 255 bytes"
  | amountNotPositive value => "amount must be positive, got: " ++ value.text
  | amountTooFine value => "amount has more than 2 fractional digits: " ++ value.text
  | amountTooLarge value => "amount exceeds storage capacity: " ++ value.text
  | unknownOrder order => "unknown order: " ++ order.text
  | unknownOrderStatus text => "unknown order status: " ++ text
  | lifetimeOutOfRange seconds =>
    "idempotency ttl of " ++ String.ofList (Nat.toDigits 10 seconds) ++ " seconds is out of range"
  | batchTooLarge limit => "batch size too large: " ++ String.ofList (Nat.toDigits 10 limit)
  | body problem => problem.message
  | stated text => text

/-- Why an adapter does not answer. -/
inductive Outage where
  /-- It is not there. -/
  | unavailable (what : String)
  /-- The outbox has an event with this id already. -/
  | duplicateEvent (id : Uuid)
  /-- A reason in an adapter's own words. -/
  | stated (text : String)
deriving DecidableEq, Repr

/-- The wording of an outage. -/
def Outage.message : Outage → String
  | unavailable what => what ++ " unavailable"
  | duplicateEvent id => "outbox primary key violation: " ++ id.text
  | stated text => text

/-- What a command, a message or a request fails with. -/
inductive PaymentError where
  | refused (why : Refusal)
  | duplicatePayment
  | unauthenticated (detail : String)
  | database
  | redis
  | broker
  | serialization (problem : Json.Problem)
  | unsupportedEvent (eventType : String)
  | infrastructure (cause : Outage)
deriving DecidableEq, Repr

namespace PaymentError

/-- The wording of an error. A value that its own type refuses while JSON is read is quoted with that
type's reason; of every other problem with JSON only the kind is told. -/
def message : PaymentError → String
  | refused why => "validation: " ++ why.message
  | duplicatePayment => "idempotency key already used"
  | unauthenticated detail => "unauthenticated: " ++ detail
  | database => "database"
  | redis => "redis"
  | broker => "broker"
  | serialization (.refused reason) => "serialization: validation: " ++ reason
  | serialization _ => "serialization"
  | unsupportedEvent eventType => "unsupported event type: " ++ eventType
  | infrastructure cause => "infrastructure: " ++ cause.message

/-- Whether a store or the broker failed, so that the caller may try again. -/
def isInfrastructure : PaymentError → Bool
  | database | redis | broker | infrastructure _ => true
  | _ => false

/-- The error of an adapter that is not there. -/
def unavailable (what : String) : PaymentError :=
  infrastructure (.unavailable what)

end PaymentError

end PaymentRelay
