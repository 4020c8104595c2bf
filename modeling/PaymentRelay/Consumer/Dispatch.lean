import PaymentRelay.Consumer.Delivery

/-!
# Reading messages and handing them over

A message of the broker is a row of octets. `Message.read` takes the event out of it, and
`dispatch` hands the event to a handler. A message that cannot be used is reported and passed over; it
is never an error of the consumer, which goes on with the next one.

What is decided about a message depends on its octets alone. A handler is called once for a message
that can be used and not at all for any other, and the message's key plays no part.
-/

namespace PaymentRelay

/-- Why a message is passed over. -/
inductive Unusable where
  /-- It is no envelope. -/
  | envelope
  /-- The type of its event is not known. -/
  | eventType
  /-- Its payload is not that of the event. -/
  | payload
deriving DecidableEq, Repr

/-- A message of the broker. -/
structure Message where
  key : Option String
  octets : Json.Octets
deriving DecidableEq, Repr

namespace Message

/-- The message a record of the broker is delivered as. -/
def ofRecord (r : BrokerRecord) : Message := ⟨some r.key, r.octets⟩

/-- The event of a message and its id. -/
def read (m : Message) : Except Unusable (Uuid × PaymentSucceeded) :=
  match Envelope.untyped.ofOctets m.octets with
  | .error _ => .error .envelope
  | .ok envelope =>
    match PaymentSucceeded.decode envelope.eventType envelope.payload with
    | .ok event => .ok (envelope.eventId, event)
    | .error (.unsupportedEvent _) => .error .eventType
    | .error _ => .error .payload

end Message

/-- A handler of events with a state. -/
structure Handler (σ : Type) where
  name : String
  handle : Uuid → PaymentSucceeded → σ → Handled × σ

/-- What became of a message. -/
inductive Dispatch where
  | unusable (why : Unusable)
  | handed (handled : Handled)
deriving DecidableEq, Repr

/-- The verdict on a message. -/
inductive Verdict where
  | applied
  | malformed
  | unsupported
  | failed
deriving DecidableEq, Repr

/-- The name of a verdict. -/
def Verdict.text : Verdict → String
  | applied => "Applied"
  | malformed => "Malformed"
  | unsupported => "Unsupported"
  | failed => "Failed"

namespace Dispatch

/-- The verdict on a message; a handler that was dropped or panicked leaves none. -/
def verdict? : Dispatch → Option Verdict
  | unusable .eventType => some .unsupported
  | unusable .envelope | unusable .payload => some .malformed
  | handed .done => some .applied
  | handed (.failed _) => some .failed
  | handed .cancelled | handed .panicked => none

/-- What is reported of a message. -/
def entry? : Dispatch → Option Entry
  | unusable .envelope => some .envelopeUnreadable
  | unusable .eventType => some .eventUnsupported
  | unusable .payload => some .payloadUnreadable
  | handed (.failed _) => some .handlerFailed
  | handed .done | handed .cancelled | handed .panicked => none

end Dispatch

/-- Hands a message to a handler. -/
def Message.dispatch (m : Message) (h : Handler σ) (s : σ) : Dispatch × σ :=
  match m.read with
  | .error why => (.unusable why, s)
  | .ok (eventId, event) =>
    let (handled, s) := h.handle eventId event s
    (.handed handled, s)

/-- The handler that accepts every event and does nothing. -/
def Handler.accepting (name : String) : Handler σ where
  name := name
  handle := fun _ _ s => (.done, s)

end PaymentRelay
