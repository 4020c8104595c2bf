import PaymentRelay.Proofs.Event.RoundTrip

/-!
# Messages that a consumer passes over

A consumer takes its messages in turn (`Handler.consume`). Two readings decide about a message: its octets have to be
an envelope, and if the type of the envelope is known, its payload has to be that of the event. `Message.Holds` and
`Message.IsForeign` say what the readings find, and `read_eq_ok_iff` and `read_eq_foreign_iff` that nothing else
counts.

A message that holds no event is not there for the handler: the handler is called for the others, once for each and in
their order, and it answers them as if they had come alone (`bad_messages_invisible`).
-/

namespace PaymentRelay

/-! ## What a message holds -/

namespace Message

/-- The octets of a message are an envelope with the event of a payment. -/
def Holds (m : Message) (id : Uuid) (e : PaymentSucceeded) : Prop :=
  ∃ envelope, Envelope.untyped.ofOctets m.octets = .ok envelope ∧ envelope.eventId = id ∧
    envelope.eventType = PaymentSucceeded.eventType ∧ PaymentSucceeded.schema.ofValue envelope.payload = .ok e

/-- The octets of a message are an envelope of another type, with any payload. -/
def IsForeign (m : Message) : Prop :=
  ∃ envelope, Envelope.untyped.ofOctets m.octets = .ok envelope ∧ envelope.eventType ≠ PaymentSucceeded.eventType

/-- The event that a message holds, and its id. -/
def event? (m : Message) : Option (Uuid × PaymentSucceeded) := m.read.toOption

/-- Whether a message holds an event. -/
def isUsable (m : Message) : Bool := m.event?.isSome

variable {m : Message} {id : Uuid} {e : PaymentSucceeded} {σ : Type} {h : Handler σ} {s : σ}

/-- The type of an envelope is looked at before its payload. -/
theorem read_of_envelope {envelope : Envelope Json} (hread : Envelope.untyped.ofOctets m.octets = .ok envelope) :
    m.read = if envelope.eventType = PaymentSucceeded.eventType then
        match PaymentSucceeded.schema.ofValue envelope.payload with
        | .ok event => .ok (envelope.eventId, event)
        | .error _ => .error .payload
      else .error .eventType := by
  simp only [read, hread, PaymentSucceeded.decode]
  by_cases htype : envelope.eventType = PaymentSucceeded.eventType
  · simp only [if_pos htype]
    cases PaymentSucceeded.schema.ofValue envelope.payload <;> rfl
  · simp only [if_neg htype]

theorem read_of_no_envelope {error : Json.Problem} (hread : Envelope.untyped.ofOctets m.octets = .error error) :
    m.read = .error .envelope := by
  simp only [read, hread]

/-- An event is read from a message that holds it. -/
theorem read_eq_ok_iff : m.read = .ok (id, e) ↔ m.Holds id e := by
  unfold Holds
  cases hread : Envelope.untyped.ofOctets m.octets with
  | error => simp only [read_of_no_envelope hread, reduceCtorEq, false_and, exists_false]
  | ok envelope =>
    rw [read_of_envelope hread]
    simp only [Except.ok.injEq, exists_eq_left']
    by_cases htype : envelope.eventType = PaymentSucceeded.eventType
    · simp only [if_pos htype]
      cases PaymentSucceeded.schema.ofValue envelope.payload <;>
        simp only [htype, Except.ok.injEq, Prod.mk.injEq, reduceCtorEq, true_and, and_false]
    · simp only [htype, if_false, reduceCtorEq, false_and, and_false]

/-- The type of a message is unknown if it is an envelope of another type. -/
theorem read_eq_foreign_iff : m.read = .error .eventType ↔ m.IsForeign := by
  unfold IsForeign
  cases hread : Envelope.untyped.ofOctets m.octets with
  | error => simp only [read_of_no_envelope hread, Except.error.injEq, reduceCtorEq, false_and, exists_false]
  | ok envelope =>
    rw [read_of_envelope hread]
    simp only [Except.ok.injEq, exists_eq_left']
    by_cases htype : envelope.eventType = PaymentSucceeded.eventType
    · simp only [if_pos htype]
      cases PaymentSucceeded.schema.ofValue envelope.payload <;>
        simp only [htype, Except.error.injEq, reduceCtorEq, ne_eq, not_true]
    · simp only [htype, if_false, ne_eq, not_false_eq_true]

theorem event?_eq_some_iff : m.event? = some (id, e) ↔ m.Holds id e := by
  rw [← read_eq_ok_iff, event?]
  cases m.read <;> simp only [Except.toOption, reduceCtorEq, Option.some.injEq, Except.ok.injEq]

theorem isUsable_iff : m.isUsable = true ↔ ∃ id e, m.Holds id e := by
  rw [isUsable, Option.isSome_iff_exists, Prod.exists]
  simp only [event?_eq_some_iff]

/-! ## One message -/

/-- The handler is called for an event, and what it makes of it is the result. -/
theorem dispatch_of_holds (hholds : m.Holds id e) :
    m.dispatch h s = (.handed (h.handle id e s).1, (h.handle id e s).2) := by
  simp only [dispatch, read_eq_ok_iff.mpr hholds]

/-- A message without an event is decided about without the handler. -/
theorem dispatch_of_unusable (hbad : m.isUsable = false) :
    ∃ why, m.read = .error why ∧ m.dispatch h s = (.unusable why, s) := by
  cases hread : m.read with
  | ok event =>
    rw [isUsable, event?, hread] at hbad
    cases hbad
  | error why => exact ⟨why, rfl, by simp only [dispatch, hread]⟩

/-- It is unsupported if it is an envelope of another type, and malformed else. -/
theorem verdict_of_unusable (hbad : m.isUsable = false) :
    (m.dispatch h s).1.verdict? = some .unsupported ∧ m.IsForeign ∨
      (m.dispatch h s).1.verdict? = some .malformed ∧ ¬ m.IsForeign := by
  obtain ⟨why, hread, hdispatch⟩ := @dispatch_of_unusable m σ h s hbad
  rw [hdispatch, ← read_eq_foreign_iff, hread]
  cases why with
  | eventType => exact .inl ⟨rfl, rfl⟩
  | envelope | payload => exact .inr ⟨rfl, nofun⟩

/-- The key of a message plays no part. -/
theorem dispatch_eq_of_octets {other : Message} (hoctets : other.octets = m.octets) :
    other.dispatch h s = m.dispatch h s := by
  simp only [dispatch, read, hoctets]

end Message

/-! ## Any number of messages -/

/-- Takes messages in turn, and keeps of each what became of it. -/
def Handler.consume {σ : Type} (h : Handler σ) : List Message → σ → List (Message × Dispatch) × σ
  | [], s => ([], s)
  | m :: rest, s =>
    let (dispatch, s) := m.dispatch h s
    let (results, s) := h.consume rest s
    ((m, dispatch) :: results, s)

namespace Handler

variable {σ : Type} {h : Handler σ} {m : Message} {messages : List Message} {s : σ}

theorem consume_cons : h.consume (m :: messages) s =
    ((m, (m.dispatch h s).1) :: (h.consume messages (m.dispatch h s).2).1,
      (h.consume messages (m.dispatch h s).2).2) := rfl

theorem consume_append (before : List Message) : h.consume (before ++ messages) s =
    ((h.consume before s).1 ++ (h.consume messages (h.consume before s).2).1,
      (h.consume messages (h.consume before s).2).2) := by
  induction before generalizing s with
  | nil => rfl
  | cons m rest ih => simp only [List.cons_append, consume, ih]

/-- There is a result for each message. -/
theorem messages_consume : (h.consume messages s).1.map (·.1) = messages := by
  induction messages generalizing s with
  | nil => rfl
  | cons m rest ih => exact congrArg (m :: ·) ih

/-- A result is that of the message in some state. -/
theorem dispatch_of_mem_consume {seen : Message × Dispatch} (hseen : seen ∈ (h.consume messages s).1) :
    ∃ s', seen.2 = (seen.1.dispatch h s').1 := by
  induction messages generalizing s with
  | nil => cases hseen
  | cons m rest ih =>
    rcases List.mem_cons.mp hseen with rfl | hseen
    · exact ⟨s, rfl⟩
    · exact ih hseen

/-- The message at a place finds the state in which those before it have left it. -/
theorem getElem?_consume {before after : List Message} :
    (h.consume (before ++ m :: after) s).1[before.length]? = some (m, (m.dispatch h (h.consume before s).2).1) := by
  have hlength : (h.consume before s).1.length = before.length := by
    rw [← List.length_map (·.1), messages_consume]
  rw [consume_append, ← hlength, List.getElem?_append_right (Nat.le_refl _), Nat.sub_self]
  rfl

/-- **Messages without an event may be left out.** The others get the same results, and the state is the same. -/
theorem consume_filter : h.consume (messages.filter (·.isUsable)) s =
    ((h.consume messages s).1.filter (·.1.isUsable), (h.consume messages s).2) := by
  induction messages generalizing s with
  | nil => rfl
  | cons m rest ih =>
    cases hm : m.isUsable with
    | true => simp only [List.filter_cons, hm, if_true, consume_cons, ih]
    | false =>
      obtain ⟨why, -, hdispatch⟩ := @Message.dispatch_of_unusable m σ h s hm
      simp only [List.filter_cons, hm, Bool.false_eq_true, if_false, consume_cons, ih, hdispatch]

/-- Keeping the calls changes nothing else, and the calls are those for the events, in their order. -/
theorem consume_recording (calls : List (Uuid × PaymentSucceeded)) : h.recording.consume messages (calls, s) =
    ((h.consume messages s).1, calls ++ messages.filterMap (·.event?), (h.consume messages s).2) := by
  induction messages generalizing s calls with
  | nil => exact congrArg (fun calls => ([], calls, s)) (List.append_nil calls).symm
  | cons m rest ih =>
    cases hevent : m.event? with
    | none =>
      have hbad : m.isUsable = false := by rw [Message.isUsable, hevent]; rfl
      obtain ⟨why, hread, hdispatch⟩ := @Message.dispatch_of_unusable m σ h s hbad
      have hrecording : m.dispatch h.recording (calls, s) = (.unusable why, calls, s) := by
        simp only [Message.dispatch, hread]
      rw [consume_cons, hrecording, consume_cons, hdispatch, List.filterMap_cons_none hevent, ih]
    | some event =>
      have hholds := Message.event?_eq_some_iff.mp hevent
      rw [consume_cons, Message.dispatch_of_holds hholds, consume_cons, Message.dispatch_of_holds hholds,
        List.filterMap_cons_some hevent, List.append_cons]
      have hrecorded : h.recording.handle event.1 event.2 (calls, s) =
          ((h.handle event.1 event.2 s).1, calls ++ [event], (h.handle event.1 event.2 s).2) := rfl
      rw [hrecorded, ih]

/-- Results and state depend on the octets of the messages alone. -/
theorem consume_eq_of_octets {others : List Message} (hoctets : others.map (·.octets) = messages.map (·.octets)) :
    (h.consume others s).1.map (·.2) = (h.consume messages s).1.map (·.2) ∧
      (h.consume others s).2 = (h.consume messages s).2 := by
  induction messages generalizing others s with
  | nil =>
    cases List.map_eq_nil_iff.mp hoctets
    exact ⟨rfl, rfl⟩
  | cons m rest ih =>
    obtain ⟨other, others', rfl, hother, hrest⟩ := List.map_eq_cons_iff.mp hoctets
    obtain ⟨hresults, hstate⟩ := ih (s := (m.dispatch h s).2) hrest
    simp only [consume_cons, Message.dispatch_eq_of_octets hother, List.map_cons, hresults, hstate, and_self]

end Handler

/-! ## The law -/

/-- **Bad messages are invisible.** For every handler in every state, and all messages with whatever octets and keys:

* what the handler makes of those that hold an event, and the state it ends in, are as if the others had not come;
* a message that holds no event is unsupported if it is an envelope of another type, and malformed else;
* a message that holds one gets as its result what the handler makes of the event in the state in which the messages
  before it have left it: it is applied when that is done, and failed when it failed;
* the handler is called for the events that the messages hold, once for each and in their order;
* the keys play no part. -/
theorem bad_messages_invisible {σ : Type} (h : Handler σ) (messages : List Message) (s : σ) :
    let all := h.consume messages s
    (all.1.map (·.1) = messages ∧ (∀ m : Message, m.isUsable = true ↔ ∃ id e, m.Holds id e) ∧
      h.consume (messages.filter (·.isUsable)) s = (all.1.filter (·.1.isUsable), all.2)) ∧
    (∀ seen ∈ all.1, (¬ ∃ id e, seen.1.Holds id e) → seen.2.verdict? = some .unsupported ∧ seen.1.IsForeign ∨
      seen.2.verdict? = some .malformed ∧ ¬ seen.1.IsForeign) ∧
    (∀ before m after, messages = before ++ m :: after → ∀ id e, m.Holds id e →
      let handled := (h.handle id e (h.consume before s).2).1
      ∃ d, all.1[before.length]? = some (m, d) ∧ d = .handed handled ∧
        (handled = .done → d.verdict? = some .applied) ∧
        ∀ error, handled = .failed error → d.verdict? = some .failed) ∧
    ((∀ m : Message, ∀ id e, m.event? = some (id, e) ↔ m.Holds id e) ∧
      h.recording.consume messages ([], s) = (all.1, messages.filterMap (·.event?), all.2)) ∧
    ∀ others : List Message, others.map (·.octets) = messages.map (·.octets) →
      (h.consume others s).1.map (·.2) = all.1.map (·.2) ∧ (h.consume others s).2 = all.2 := by
  intro all
  refine ⟨⟨Handler.messages_consume, fun m => m.isUsable_iff, Handler.consume_filter⟩, ?bad, ?good,
    ⟨fun m id e => m.event?_eq_some_iff, Handler.consume_recording []⟩, fun others => Handler.consume_eq_of_octets⟩
  case bad =>
    intro seen hseen hholds
    obtain ⟨s', hresult⟩ := Handler.dispatch_of_mem_consume hseen
    rw [hresult]
    exact Message.verdict_of_unusable (Bool.eq_false_iff.mpr fun h => hholds (Message.isUsable_iff.mp h))
  case good =>
    rintro before m after rfl id e hholds handled
    have hresult := @Handler.getElem?_consume σ h m s before after
    rw [Message.dispatch_of_holds hholds] at hresult
    refine ⟨_, hresult, rfl, fun hdone => ?_, fun error hfailed => ?_⟩
    · exact congrArg (fun handled => (Dispatch.handed handled).verdict?) hdone
    · exact congrArg (fun handled => (Dispatch.handed handled).verdict?) hfailed

/-- Octets that are no envelope, an envelope of another type, and one with the payload of something else. -/
def badMessages : List Message :=
  [⟨some "k", [0x7b]⟩,
    ⟨none, Json.octetsOf (Envelope.encode ⟨.ofNat 7, "payment.refunded", "", .object []⟩)⟩,
    ⟨none, Json.octetsOf (Envelope.encode ⟨.ofNat 8, "payment.successful", "", .object [("order", .text "1")]⟩)⟩]

/-- What is published for an event. -/
def goodMessage : Message := .ofRecord (.ofEvent "payments" (.record extremeEvent (.ofNat 11) ⟨-1, 0⟩))

/-- The handler is called for the event only, and does what it would do without the keys. -/
theorem bad_messages_invisible_of_mixed :
    let h : Handler Unit := .accepting "audit"
    let messages := badMessages ++ [goodMessage]
    (h.recording.consume messages ([], ())).2.1 = [(.ofNat 11, extremeEvent)] ∧
    (h.consume (messages.map fun m => { m with key := none }) ()).1.map (·.2) =
      (h.consume messages ()).1.map (·.2) := by
  intro h messages
  obtain ⟨-, -, -, ⟨hholds, hcalls⟩, hkeys⟩ := bad_messages_invisible h messages ()
  have hbad : badMessages.filterMap (·.event?) = [] := by decide +kernel
  have hgood : goodMessage.event? = some (.ofNat 11, extremeEvent) :=
    (hholds ..).mpr (Message.read_eq_ok_iff.mp (Message.read_ofEvent rfl rfl (by decide) _))
  refine ⟨?_, (hkeys _ (by rw [List.map_map]; rfl)).1⟩
  rw [hcalls, List.filterMap_append, hbad, List.filterMap_cons_some hgood]
  rfl

end PaymentRelay
