import PaymentRelay.Event.PaymentSucceeded
import PaymentRelay.Json.Writer

/-!
# Outbox events and their wire form

An `OutboxEvent` is a row of the outbox: an event that is to be sent, or has been. Its payload is an
untyped value, so that storing and sending do not depend on what it announces.

An `Envelope` is what travels. Its timestamp is a text, cut to the second. `encode` writes the
members in a fixed order; `schema` reads them back in any order.
-/

namespace PaymentRelay

/-- An event to be sent, or sent already. -/
structure OutboxEvent where
  id : Uuid
  type : String
  timestamp : Instant
  payload : Json
  publishedAt : Option Instant
deriving Repr

namespace OutboxEvent

/-- The row of a new event. -/
def record (e : PaymentSucceeded) (id : Uuid) (now : Instant) : OutboxEvent where
  id := id
  type := PaymentSucceeded.eventType
  timestamp := now
  payload := e.payload
  publishedAt := none

/-- Whether an event is still to be sent. -/
def isPending (e : OutboxEvent) : Bool :=
  e.publishedAt.isNone

/-- Whether an event is sent before another one: the older first, and of one instant the one with
the smaller id. -/
def before (a b : OutboxEvent) : Bool :=
  a.timestamp < b.timestamp || (a.timestamp == b.timestamp && a.id.number ≤ b.id.number)

end OutboxEvent

/-- An event as it travels, with its payload of some type. -/
structure Envelope (π : Type) where
  eventId : Uuid
  eventType : String
  timestamp : String
  payload : π
deriving Repr

namespace Envelope

/-- The envelope of an event. Its timestamp loses what is below a second. -/
def make (eventType : String) (eventId : Uuid) (timestamp : Instant) (payload : π) : Envelope π :=
  ⟨eventId, eventType, timestamp.secondsText, payload⟩

/-- The envelope of an outbox row. -/
def ofEvent (e : OutboxEvent) : Envelope Json :=
  make e.type e.id e.timestamp e.payload

/-- An envelope in JSON, given its payload in JSON. -/
def toJson (payload : π → Json) (e : Envelope π) : Json :=
  .object
    [("event_id", .text e.eventId.text), ("event_type", .text e.eventType),
     ("timestamp", .text e.timestamp), ("payload", payload e.payload)]

/-- The text of an envelope with an untyped payload. -/
def encode (e : Envelope Json) : String :=
  (e.toJson id).write

/-- An envelope while it is read. -/
structure Draft (π : Type) where
  eventId : Option Uuid
  eventType : Option String
  timestamp : Option String
  payload : Option π

/-- How an envelope is read, given how its payload is. -/
def schema (payload : Json.Field (Draft π)) : Json.Schema (Draft π) (Envelope π) where
  blank := ⟨none, none, none, none⟩
  fields :=
    [.ofHead "event_id" Draft.eventId (fun u d => { d with eventId := some u }) Json.acceptUuid,
     .ofHead "event_type" Draft.eventType (fun t d => { d with eventType := some t })
      Json.acceptText,
     .ofHead "timestamp" Draft.timestamp (fun t d => { d with timestamp := some t })
      Json.acceptText,
     payload]
  complete? := fun d => do
    return ⟨← d.eventId, ← d.eventType, ← d.timestamp, ← d.payload⟩

/-- How an envelope with an untyped payload is read. -/
def untyped : Json.Schema (Draft Json) (Envelope Json) :=
  schema (.untyped "payload" Draft.payload fun v d => { d with payload := some v })

/-- How an envelope with the event of a payment is read. -/
def ofPayment : Json.Schema (Draft PaymentSucceeded) (Envelope PaymentSucceeded) :=
  schema
    (.nested "payload" Draft.payload (fun e d => { d with payload := some e })
      PaymentSucceeded.schema)

end Envelope

end PaymentRelay
