import PaymentRelay.Consumer.Dispatch
import PaymentRelay.Proofs.Json.Records
import PaymentRelay.Proofs.Text.Amounts
import PaymentRelay.Proofs.Text.Uuids

/-!
# Events come through the wire unchanged

An event is written to a record of the broker as an envelope with an untyped payload, and a consumer takes
the same event and the same id out of it (`Message.read_ofEvent`). The one condition is on the user, which
has to be a number of 64 bits with a sign: on the wire no other is.
-/

namespace PaymentRelay

open Json

/-! ## Payloads -/

namespace PaymentSucceeded

/-- An event is taken from its payload. -/
theorem ofValue_payload {e : PaymentSucceeded} (h : Text.FitsInt64 e.user.value) :
    schema.ofValue e.payload = .ok e := by
  have horder : OrderReference.accept e.order.toJson.head = .ok e.order := by
    simp only [OrderReference.toJson, OrderReference.text, head, OrderReference.accept, acceptUuid,
      Uuid.ofString?_text, Except.map]
  have huser : UserId.accept e.user.toJson.head = .ok e.user := by
    simp only [UserId.toJson, head, UserId.accept, acceptInt64, h, if_true, Except.map]
  have hamount : Amount.accept e.amount.toJson.head = .ok e.amount := e.amount.accept_text
  have hfill : fillNamed schema.fields
      [("amount", e.amount.toJson), ("order_reference", e.order.toJson), ("user_id", e.user.toJson)]
      schema.blank = .ok ⟨some e.order, some e.user, some e.amount⟩ := by
    simp [fillNamed, schema, Field.ofHead, bind, Except.bind, Except.map, hamount, horder, huser]
  simp only [payload, Schema.ofValue, bind, Except.bind, hfill]
  rfl

/-- A payload that is decoded under its type is the event again. -/
theorem decode_payload {e : PaymentSucceeded} (h : Text.FitsInt64 e.user.value) :
    decode eventType e.payload = .ok e := by
  rw [decode, if_pos rfl, ofValue_payload h]
  rfl

/-- A payload comes back from its text. -/
theorem readsBack_payload {e : PaymentSucceeded} (h : Text.FitsInt64 e.user.value) (room : Nat) :
    ReadsBack (room + 1) e.payload := by
  have hkeys : (["amount", "order_reference", "user_id"] : List String).Pairwise
      fun a b => compare b a = .gt := by decide +kernel
  have huser : IsInteger e.user.value := ⟨h.1, Int.lt_trans h.2 (by decide)⟩
  refine .object room _ (ascending_of_keys hkeys) ?_ ?_
  · rintro m hm
    cases hm
    show "amount" ≠ documentKey
    decide
  · intro m hm
    simp only [List.mem_cons, List.not_mem_nil, or_false] at hm
    rcases hm with rfl | rfl | rfl
    · exact .text room _
    · exact .text room _
    · exact .integer room _ huser

end PaymentSucceeded

/-! ## Envelopes -/

namespace Envelope

/-- An envelope is taken from its value. -/
theorem ofValue_toJson (e : Envelope Json) : untyped.ofValue (e.toJson id) = .ok e := by
  have hid : acceptUuid (.text e.eventId.text) = .ok e.eventId := by
    simp only [acceptUuid, Uuid.ofString?_text]
  have hfill : fillNamed untyped.fields
      [("event_id", .text e.eventId.text), ("event_type", .text e.eventType),
        ("timestamp", .text e.timestamp), ("payload", e.payload)] untyped.blank =
        .ok ⟨some e.eventId, some e.eventType, some e.timestamp, some e.payload⟩ := by
    simp [fillNamed, untyped, schema, Field.ofHead, Field.untyped, bind, Except.bind, Except.map, head,
      hid, acceptText]
  simp only [toJson, id_eq, Schema.ofValue, bind, Except.bind, hfill]
  rfl

/-- **An envelope is read back from its text**, if its payload comes back from its own. -/
theorem ofOctets_encode {e : Envelope Json} (h : ReadsBack (maxDepth - 1) e.payload) :
    untyped.ofOctets (octetsOf e.encode) = .ok e := by
  have hknown : ∀ m ∈ [("event_id", Json.text e.eventId.text), ("event_type", .text e.eventType),
      ("timestamp", .text e.timestamp), ("payload", e.payload)],
      ∃ field, untyped.fields.find? (·.name == m.1) = some field ∧ field.Agrees (maxDepth - 1) m.2 := by
    intro m hm
    simp only [List.mem_cons, List.not_mem_nil, or_false] at hm
    have hscalar : ∀ t, (Json.text t).IsScalar := fun _ => trivial
    rcases hm with rfl | rfl | rfl | rfl
    · exact ⟨_, rfl, Field.agrees_ofHead (.text 0 _) (hscalar _) _⟩
    · exact ⟨_, rfl, Field.agrees_ofHead (.text 0 _) (hscalar _) _⟩
    · exact ⟨_, rfl, Field.agrees_ofHead (.text 0 _) (hscalar _) _⟩
    · exact ⟨_, rfl, Field.agrees_untyped h⟩
  rw [encode, write, octetsOf_ofList, toJson, id_eq, Schema.ofOctets_chars hknown]
  exact e.ofValue_toJson

end Envelope

/-! ## Messages -/

/-- **An event comes through the wire unchanged.** -/
theorem Message.read_ofEvent {e : OutboxEvent} {p : PaymentSucceeded}
    (htype : e.type = PaymentSucceeded.eventType) (hpayload : e.payload = p.payload)
    (hfits : Text.FitsInt64 p.user.value) (topic : String) :
    (Message.ofRecord (.ofEvent topic e)).read = .ok (e.id, p) := by
  have hback : ReadsBack (maxDepth - 1) (Envelope.ofEvent e).payload := by
    show ReadsBack (maxDepth - 1) e.payload
    rw [hpayload]
    exact PaymentSucceeded.readsBack_payload hfits 125
  have hread := Envelope.ofOctets_encode hback
  have hdecode : PaymentSucceeded.decode (Envelope.ofEvent e).eventType (Envelope.ofEvent e).payload = .ok p := by
    show PaymentSucceeded.decode e.type e.payload = .ok p
    rw [htype, hpayload, PaymentSucceeded.decode_payload hfits]
  simp only [Message.read, Message.ofRecord, BrokerRecord.octets, BrokerRecord.ofEvent, hread, hdecode]
  rfl

end PaymentRelay
