import PaymentRelay.Proofs.Event.Wire
import PaymentRelay.Proofs.Json.Documents

/-!
# What an envelope says is what its octets say

Every envelope is encoded. A consumer that reads the octets with an untyped payload gets the envelope back, whatever
its type, its id and its instant, as far as the payload is without doubles and nests 126 brackets at most. There is
one exception (`Envelope.encoding_undone_iff`): a payload in which an object begins with `documentKey` does not come
back as itself.

For telling envelopes apart this makes no difference. Envelopes with different contents have different octets, even
where neither of them comes back (`Envelope.eq_of_octets_eq`).
-/

namespace PaymentRelay

open Json

namespace Envelope

/-- The members of an envelope. -/
def members (e : Envelope Json) : Members :=
  [("event_id", .text e.eventId.text), ("event_type", .text e.eventType), ("timestamp", .text e.timestamp),
    ("payload", e.payload)]

theorem octetsOf_encode (e : Envelope Json) : octetsOf e.encode = Json.encode (Json.object e.members).chars := by
  rw [Envelope.encode, write, octetsOf_ofList]
  rfl

theorem integral_of_mem_members {e : Envelope Json} (h : e.payload.IsIntegral) : ∀ m ∈ e.members, m.2.IsIntegral := by
  intro m hm
  simp only [members, List.mem_cons, List.not_mem_nil, or_false] at hm
  rcases hm with rfl | rfl | rfl | rfl
  · exact .text _
  · exact .text _
  · exact .text _
  · exact h

/-- Envelopes with the same members are the same. -/
theorem eq_of_members_eq {e f : Envelope Json} (h : e.members = f.members) : e = f := by
  obtain ⟨id, type, timestamp, payload⟩ := e
  obtain ⟨id', type', timestamp', payload'⟩ := f
  simp only [members, List.cons.injEq, Prod.mk.injEq, true_and, and_true, Json.text.injEq] at h
  obtain ⟨hid, rfl, rfl, rfl⟩ := h
  rw [Uuid.text_inj hid]

/-- **Different envelopes have different octets**, if their payloads are without doubles. -/
theorem eq_of_octets_eq {e f : Envelope Json} (he : e.payload.IsIntegral) (hf : f.payload.IsIntegral)
    (h : octetsOf e.encode = octetsOf f.encode) : e = f := by
  rw [octetsOf_encode, octetsOf_encode, encode_object, encode_object] at h
  exact eq_of_members_eq (members_inj (integral_of_mem_members he)
    (fun m hm => (integral_of_mem_members he m hm).endsItself) (integral_of_mem_members hf)
    (List.tail_eq_of_cons_eq h)).1

/-- Every member of an envelope belongs to a field that takes exactly the member's text. -/
theorem takes_members {e : Envelope Json} (h : e.payload.IsIntegral) (room : Nat) :
    ∀ m ∈ e.members, ∃ field, untyped.fields.find? (·.name == m.1) = some field ∧ field.Takes room m.2 := by
  intro m hm
  simp only [members, List.mem_cons, List.not_mem_nil, or_false] at hm
  rcases hm with rfl | rfl | rfl | rfl
  · exact ⟨_, rfl, Field.takes_ofHead (.text _) trivial room⟩
  · exact ⟨_, rfl, Field.takes_ofHead (.text _) trivial room⟩
  · exact ⟨_, rfl, Field.takes_ofHead (.text _) trivial room⟩
  · exact ⟨_, rfl, Field.takes_untyped h room⟩

/-- An envelope has the payload of its draft. -/
theorem payload_of_close {draft : Draft Json} {e : Envelope Json} (h : untyped.close draft = .ok e) :
    draft.payload = some e.payload := by
  unfold Schema.close at h
  split at h
  next e' he =>
    cases h
    obtain ⟨id, -, he⟩ := Option.bind_eq_some_iff.mp he
    obtain ⟨type, -, he⟩ := Option.bind_eq_some_iff.mp he
    obtain ⟨timestamp, -, he⟩ := Option.bind_eq_some_iff.mp he
    obtain ⟨payload, hpayload, he⟩ := Option.bind_eq_some_iff.mp he
    cases he
    exact hpayload
  next => cases h

/-- What is read of the octets of an envelope differs in the payload, if that holds a document. -/
theorem differs_payload {e f : Envelope Json} (h : e.payload.IsIntegral)
    (hread : untyped.ofOctets (octetsOf e.encode) = .ok f) : Differs e.payload f.payload := by
  rw [octetsOf_encode, ← List.append_nil (Json.encode _)] at hread
  obtain ⟨rest, hread⟩ := exists_read_of_finish hread
  rw [members, Schema.read_object] at hread
  obtain ⟨⟨draft, s⟩, hnamed, hread⟩ := bind_eq_ok.mp hread
  obtain ⟨f', hclose, hf⟩ := map_eq_ok.mp hread
  cases hf
  rw [encode_memberChars, row, List.append_assoc] at hnamed
  obtain ⟨puts, hputs, hdraft⟩ := readNamed_row (takes_members h _) hnamed
  -- the payload is put in last, so it is that of the draft whatever the other fields do
  rcases hputs with _ | ⟨-, _ | ⟨-, _ | ⟨-, _ | ⟨⟨field, rest, hfield, hend, hput⟩, ⟨⟩⟩⟩⟩⟩
  cases hfield
  obtain ⟨⟨u, s'⟩, hu, hput⟩ := map_eq_ok.mp hput
  cases hput
  have hpayload : draft.payload = some u := by rw [(Prod.mk.inj hdraft).1]; rfl
  obtain rfl : u = f.payload := Option.some.inj (hpayload.symm.trans (payload_of_close hclose))
  exact (h.isTaken _ _ _ _ hend hu).2

/-- **An envelope comes back from its octets exactly if its payload holds no document**, as long as the payload is
without doubles and leaves room for the bracket of the envelope. -/
theorem ofOctets_encode_iff {e : Envelope Json} (h : e.payload.IsIntegral) (hdepth : e.payload.depth ≤ maxDepth - 1) :
    untyped.ofOctets (octetsOf e.encode) = .ok e ↔ ¬ e.payload.HoldsDocument :=
  ⟨fun hread hholds => differs_payload h hread hholds rfl, fun hno => ofOctets_encode (h.readsBack hno hdepth)⟩

/-- **What an envelope says is what its octets say.** For every type, id and instant, and for every payload without
doubles that nests 126 brackets at most: the envelope comes back from its octets exactly if no object in the payload
begins with the key of a document. Whether it comes back or not, no other envelope whose payload is without doubles
has its octets. -/
theorem encoding_undone_iff (eventType : String) (id : Uuid) (instant : Instant) {payload : Json}
    (hintegral : payload.IsIntegral) (hdepth : payload.depth ≤ 126) :
    (untyped.ofOctets (octetsOf (make eventType id instant payload).encode) =
        .ok (make eventType id instant payload) ↔ ¬ payload.HoldsDocument) ∧
    ∀ e : Envelope Json, e.payload.IsIntegral → e ≠ make eventType id instant payload →
      octetsOf e.encode ≠ octetsOf (make eventType id instant payload).encode :=
  ⟨ofOctets_encode_iff hintegral hdepth, fun _ he hne heq => hne (eq_of_octets_eq he hintegral heq)⟩

/-- A payload with the key of a document, but not in front. -/
def mixedPayload : Json :=
  .object
    [("", .array [.null, .boolean true, .number (.integer (-9223372036854775808))]), (documentKey, .text "\"\\\x00")]

/-- A payload with the key of a document in front. -/
def documentPayload : Json :=
  .object [(documentKey, .text "2"), ("a", .number (.integer 1))]

theorem isIntegral_mixedPayload : mixedPayload.IsIntegral := by
  refine .object _ (ascending_of_keys (by decide +kernel)) fun m hm => ?_
  simp only [List.mem_cons, List.not_mem_nil, or_false] at hm
  rcases hm with rfl | rfl
  · refine .array _ fun v hv => ?_
    simp only [List.mem_cons, List.not_mem_nil, or_false] at hv
    rcases hv with rfl | rfl | rfl
    · exact .null
    · exact .boolean true
    · exact .integer _ ⟨by decide, by decide⟩
  · exact .text _

theorem isIntegral_documentPayload : documentPayload.IsIntegral := by
  refine .object _ (ascending_of_keys (by decide +kernel)) fun m hm => ?_
  simp only [List.mem_cons, List.not_mem_nil, or_false] at hm
  rcases hm with rfl | rfl
  · exact .text "2"
  · exact .integer 1 ⟨by decide, by decide⟩

theorem not_holdsDocument_mixedPayload : ¬ mixedPayload.HoldsDocument := by
  intro h
  rcases holdsDocument_object.mp h with ⟨m, hm, hkey⟩ | ⟨m, hm, h⟩
  · cases hm
    exact absurd hkey (by decide)
  · simp only [List.mem_cons, List.not_mem_nil, or_false] at hm
    rcases hm with rfl | rfl
    · obtain ⟨v, hv, h⟩ := holdsDocument_array.mp h
      simp only [List.mem_cons, List.not_mem_nil, or_false] at hv
      rcases hv with rfl | rfl | rfl <;> exact absurd h (IsScalar.not_holdsDocument trivial)
    · exact absurd h (IsScalar.not_holdsDocument trivial)

/-- The first of them comes back, here under a type that needs escapes, and has not the octets of the second. -/
theorem encoding_undone_iff_of_mixed :
    mixedPayload.IsIntegral ∧ mixedPayload.depth ≤ 126 ∧
    untyped.ofOctets (octetsOf (make "\"\n" .nil ⟨-1, 0⟩ mixedPayload).encode) =
      .ok (make "\"\n" .nil ⟨-1, 0⟩ mixedPayload) ∧
    octetsOf (make "\"\n" .nil ⟨-1, 0⟩ documentPayload).encode ≠
      octetsOf (make "\"\n" .nil ⟨-1, 0⟩ mixedPayload).encode := by
  have hdepth : mixedPayload.depth ≤ 126 := by decide +kernel
  obtain ⟨hundone, hdifferent⟩ := encoding_undone_iff "\"\n" .nil ⟨-1, 0⟩ isIntegral_mixedPayload hdepth
  refine ⟨isIntegral_mixedPayload, hdepth, hundone.mpr not_holdsDocument_mixedPayload,
    hdifferent _ isIntegral_documentPayload fun h => ?_⟩
  cases congrArg (fun e => e.payload.depth) h

/-- The second of them does not come back, although it is without doubles and nests one bracket. -/
theorem encoding_not_undone_of_document :
    documentPayload.IsIntegral ∧ documentPayload.depth ≤ 126 ∧
    untyped.ofOctets (octetsOf (make "t" .nil ⟨1735689600, 0⟩ documentPayload).encode) ≠
      .ok (make "t" .nil ⟨1735689600, 0⟩ documentPayload) := by
  have hdepth : documentPayload.depth ≤ 126 := by decide +kernel
  refine ⟨isIntegral_documentPayload, hdepth, fun h => ?_⟩
  exact (ofOctets_encode_iff isIntegral_documentPayload hdepth).mp h (.here _ _)

end Envelope

end PaymentRelay
