import PaymentRelay.Proofs.Event.Wire

/-!
# Events survive any number of trips

A payload that is decoded and made again is the payload it was, so it is the same after any number of trips
(`PaymentSucceeded.trips_payload`). The same holds of the way over the broker: the record that is published for
an event calls the handler it is handed to once, with the id and the event it was made from
(`event_survives_trips`).

Nothing is asked of the order, of the amount, or of the instants of the row. The user has to be a number of 64
bits with a sign, but need not be one that a request could name.
-/

namespace PaymentRelay

namespace PaymentSucceeded

/-- One trip of a payload: it is decoded, and the event becomes a payload again. -/
def trip (v : Json) : Except PaymentError Json :=
  (decode eventType v).map payload

/-- Trips of a payload, one after the other. -/
def trips : Nat → Json → Except PaymentError Json
  | 0, v => .ok v
  | n + 1, v => (trip v).bind (trips n)

/-- A trip leaves the payload of an event as it is. -/
theorem trip_payload {e : PaymentSucceeded} (h : Text.FitsInt64 e.user.value) :
    trip e.payload = .ok e.payload := by
  rw [trip, decode_payload h]
  rfl

/-- So does any number of trips. -/
theorem trips_payload {e : PaymentSucceeded} (h : Text.FitsInt64 e.user.value) (n : Nat) :
    trips n e.payload = .ok e.payload := by
  induction n with
  | zero => rfl
  | succ n ih =>
    rw [trips, trip_payload h]
    exact ih

end PaymentSucceeded

/-- A handler that also keeps the calls it was given, the first first. -/
def Handler.recording {σ : Type} (h : Handler σ) : Handler (List (Uuid × PaymentSucceeded) × σ) where
  name := h.name
  handle := fun id e s =>
    let (handled, state) := h.handle id e s.2
    (handled, s.1 ++ [(id, e)], state)

/-- **Events survive the wire.** For every event whose user is a number of 64 bits with a sign, every id and
every instant: the payload of the event is decoded to the event; it is the same after any number of trips; and
the one record that is published for the event's row has the id for its key and, handed to any handler in any
state, calls it once, with that id and that event. -/
theorem event_survives_trips {e : PaymentSucceeded} (hfits : Text.FitsInt64 e.user.value) (id : Uuid)
    (created : Instant) (published : Option Instant) :
    PaymentSucceeded.decode PaymentSucceeded.eventType e.payload = .ok e ∧
    (∀ n, PaymentSucceeded.trips n e.payload = .ok e.payload) ∧
    ∀ (broker : Broker) (topic : String), ∃ r,
      (broker.publish topic { OutboxEvent.record e id created with publishedAt := published }).records =
        broker.records ++ [r] ∧
      r.key = id.text ∧
      ∀ (σ : Type) (h : Handler σ) (calls : List (Uuid × PaymentSucceeded)) (s : σ),
        (Message.ofRecord r).dispatch h.recording (calls, s) =
          (.handed (h.handle id e s).1, calls ++ [(id, e)], (h.handle id e s).2) := by
  refine ⟨PaymentSucceeded.decode_payload hfits, PaymentSucceeded.trips_payload hfits, ?_⟩
  intro broker topic
  refine ⟨_, rfl, rfl, fun σ h calls s => ?_⟩
  rw [Message.dispatch, Message.read_ofEvent rfl rfl hfits]
  rfl

/-- The event of a payment of one cent by a user and for an order that no request could name. -/
def extremeEvent : PaymentSucceeded :=
  ⟨⟨Uuid.nil⟩, ⟨-9223372036854775808⟩, ⟨1, by decide, by decide⟩⟩

/-- It survives as any other. -/
theorem event_survives_trips_of_extreme :
    Text.FitsInt64 extremeEvent.user.value ∧
    PaymentSucceeded.trips 3 extremeEvent.payload = .ok extremeEvent.payload ∧
    ∃ r, (Broker.empty.publish "payments" (.record extremeEvent (.ofNat 11) ⟨-1, 0⟩)).records = [r] ∧
      (Message.ofRecord r).dispatch (Handler.accepting "audit").recording ([], ()) =
        (.handed .done, [(.ofNat 11, extremeEvent)], ()) := by
  have hfits : Text.FitsInt64 extremeEvent.user.value := by decide
  obtain ⟨-, htrips, hpublished⟩ := event_survives_trips hfits (.ofNat 11) ⟨-1, 0⟩ none
  obtain ⟨r, hrecords, -, hdispatch⟩ := hpublished Broker.empty "payments"
  exact ⟨hfits, htrips 3, r, hrecords, hdispatch Unit (Handler.accepting "audit") [] ()⟩

end PaymentRelay
