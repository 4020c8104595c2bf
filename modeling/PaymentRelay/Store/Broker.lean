import PaymentRelay.Event.Envelope

/-!
# The broker

The broker keeps every record that was sent to it, in the order of sending. Nothing is ever taken
out, so consumers may read a record as often as they like.
-/

namespace PaymentRelay

/-- A record of the broker: the topic, the id of the event as its key, and the envelope. -/
structure BrokerRecord where
  topic : String
  key : String
  value : String
deriving DecidableEq, Repr

namespace BrokerRecord

/-- The record that sends an event to a topic. -/
def ofEvent (topic : String) (e : OutboxEvent) : BrokerRecord where
  topic := topic
  key := e.id.text
  value := (Envelope.ofEvent e).encode

/-- The octets of a record's value. -/
def octets (r : BrokerRecord) : Json.Octets := Json.octetsOf r.value

/-- Records that were sent for events have the ids of the events as their keys. -/
theorem keys_of_sent {before after : List BrokerRecord} {topic : String} {events : List OutboxEvent}
    (h : after = before ++ events.map (.ofEvent topic)) :
    (after.drop before.length).map (·.key) = events.map (·.id.text) := by
  rw [h, List.drop_left, List.map_map]
  rfl

end BrokerRecord

/-- The records of all topics, the oldest first. -/
structure Broker where
  records : List BrokerRecord
deriving DecidableEq, Repr

namespace Broker

/-- The broker nothing has been sent to. -/
def empty : Broker := ⟨[]⟩

/-- Sends an event to a topic. -/
def publish (b : Broker) (topic : String) (e : OutboxEvent) : Broker :=
  ⟨b.records ++ [.ofEvent topic e]⟩

/-- The records of a topic. -/
def recordsFor (b : Broker) (topic : String) : List BrokerRecord :=
  b.records.filter fun r => r.topic == topic

end Broker

end PaymentRelay
