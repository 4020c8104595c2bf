import Mathlib.Algebra.Group.Nat.Defs
import PaymentRelay.Proofs.Delivery.Selection
import PaymentRelay.Proofs.Json.Fields
import PaymentRelay.Proofs.Text.Trimming

/-!
# What reading does not check

The types of names have a constructor that checks (`IsMade`), and JSON has two ways into them, a text and a value that
has been read already (`Json.Route`). Both look at the head of the value only, so they give the same. An amount goes
through the constructor on its way. An order, a user and a key do not: every uuid, every number of 64 bits and every
string comes out as it stands there.

So **an event that is read, or that a handler is called with, has an amount that keeps the rules, and a user of 64
bits. Every such event is read, and it keeps the rules exactly if its order is not nil and its user is positive**
(`PaymentSucceeded.read_lawful_iff`).
-/

namespace PaymentRelay

/-! ## Made and read -/

/-- The constructor makes this order reference. -/
def OrderReference.IsMade (o : OrderReference) : Prop := ∃ u, OrderReference.ofUuid u = .ok o

/-- The constructor makes this user id of a number of 64 bits. -/
def UserId.IsMade (u : UserId) : Prop := ∃ i, Text.FitsInt64 i ∧ UserId.ofInt i = .ok u

/-- The constructor makes this key. -/
def IdempotencyKey.IsMade (k : IdempotencyKey) : Prop := ∃ s, IdempotencyKey.ofString s = .ok k

/-- The constructor makes this amount. -/
def Amount.IsMade (a : Amount) : Prop := ∃ d, Amount.ofDecimal d = .ok a

/-- An event keeps the rules: its parts are what their constructors make. -/
structure PaymentSucceeded.IsLawful (e : PaymentSucceeded) : Prop where
  order : e.order.IsMade
  user : e.user.IsMade
  amount : e.amount.IsMade

namespace Json

/-- The ways in which JSON is read. -/
inductive Route where
  /-- From the octets of a whole text. -/
  | text
  /-- From a value that has been read already. -/
  | value

variable {α ρ : Type}

/-- Some scalar is read as `a`. -/
def Route.Gives (accept : Head → Except Problem α) (a : α) : Route → Prop
  | text => ∃ s, finish (readScalar accept) s = .ok a
  | value => ∃ v : Json, accept v.head = .ok a

/-- Some record is read as `a`. -/
def Route.GivesRecord (schema : Schema ρ α) (a : α) : Route → Prop
  | text => ∃ s, schema.ofOctets s = .ok a
  | value => ∃ v, schema.ofValue v = .ok a

variable {accept : Head → Except Problem α} {a : α} {route : Route}

/-- Whatever is read is accepted as a head. -/
theorem Route.Gives.accepted (h : route.Gives accept a) : ∃ head, accept head = .ok a := by
  cases route with
  | text =>
    obtain ⟨s, hs⟩ := h
    obtain ⟨⟨a', rest⟩, hscalar, hs⟩ := bind_eq_ok.mp hs
    obtain ⟨⟨head, s'⟩, -, hscalar⟩ := bind_eq_ok.mp hscalar
    obtain ⟨b, hb, hscalar⟩ := bind_eq_ok.mp hscalar
    cases hscalar
    dsimp only at hs
    split at hs
    next => cases hs; exact ⟨head, hb⟩
    next => cases hs
  | value =>
    obtain ⟨v, hv⟩ := h
    exact ⟨v.head, hv⟩

/-- A scalar that comes back from its text is read in both ways. -/
theorem gives_of_scalar {v : Json} {room : Nat} (hback : ReadsBack room v) (hscalar : v.IsScalar)
    (h : accept v.head = .ok a) (route : Route) : route.Gives accept a := by
  cases route with
  | text =>
    refine ⟨encode v.chars, ?_⟩
    have hhead : readHead (encode v.chars ++ []) = .ok (v.head, []) := hback.readHead hscalar trivial
    rw [List.append_nil] at hhead
    simp only [finish, readScalar, bind, Except.bind, hhead, h]
    rfl
  | value => exact ⟨v, h⟩

end Json

open Json (Route)

/-! ## The four kinds of value -/

theorem OrderReference.isMade_iff (o : OrderReference) : o.IsMade ↔ o.uuid ≠ Uuid.nil := by
  unfold IsMade ofUuid
  refine ⟨?_, fun h => ⟨o.uuid, if_neg h⟩⟩
  rintro ⟨u, hu⟩
  split at hu
  next => cases hu
  next hnil => cases hu; exact hnil

theorem UserId.isMade_iff (u : UserId) : u.IsMade ↔ Text.FitsInt64 u.value ∧ 0 < u.value := by
  unfold IsMade ofInt
  refine ⟨?_, fun h => ⟨u.value, h.1, if_neg (Int.not_le.mpr h.2)⟩⟩
  rintro ⟨i, hfits, hi⟩
  split at hi
  next => cases hi
  next hpositive => cases hi; exact ⟨hfits, Int.not_le.mp hpositive⟩

theorem Amount.isMade (a : Amount) : a.IsMade := ⟨a.toDecimal, a.ofDecimal_toDecimal⟩

/-- Every order reference is read. -/
theorem OrderReference.gives (o : OrderReference) (route : Route) : route.Gives accept o := by
  refine Json.gives_of_scalar (.text 0 o.text) trivial ?_ route
  simp only [Json.head, text, accept, Json.acceptUuid, Uuid.ofString?_text, Except.map]

/-- Every key is read. -/
theorem IdempotencyKey.gives (k : IdempotencyKey) (route : Route) : route.Gives accept k := by
  have hhead : accept (Json.text k.text).head = .ok k := rfl
  exact Json.gives_of_scalar (.text 0 k.text) trivial hhead route

/-- A user id is accepted if it is a number of 64 bits. -/
theorem UserId.fits_of_accept {h : Json.Head} {u : UserId} (haccept : accept h = .ok u) : Text.FitsInt64 u.value := by
  obtain ⟨i, hi, rfl⟩ := Json.map_eq_ok.mp haccept
  unfold Json.acceptInt64 at hi
  split at hi
  next =>
    split at hi
    next hfits => cases hi; exact hfits
    next => cases hi
  next => cases hi

/-- A number is read as a user id if it has 64 bits. -/
theorem UserId.gives_iff (u : UserId) (route : Route) : route.Gives accept u ↔ Text.FitsInt64 u.value := by
  refine ⟨fun h => ?_, fun h => ?_⟩
  · obtain ⟨head, hhead⟩ := h.accepted
    exact fits_of_accept hhead
  · have hinteger : Json.IsInteger u.value := ⟨h.1, Int.lt_trans h.2 (by decide)⟩
    refine Json.gives_of_scalar (.integer 0 u.value hinteger) trivial ?_ route
    simp only [Json.head, accept, Json.acceptInt64, h, if_true, Except.map]

/-- Every amount is read. -/
theorem Amount.gives (a : Amount) (route : Route) : route.Gives accept a :=
  Json.gives_of_scalar (.text 0 a.text) trivial a.accept_text route

/-- **An amount is read as the constructor makes it** of the decimal that stands there. -/
theorem Amount.accept_eq_ok_iff {h : Json.Head} {a : Amount} :
    accept h = .ok a ↔ ∃ d, Json.acceptDecimal h = .ok d ∧ ofDecimal d = .ok a := by
  unfold accept
  rw [Json.bind_eq_ok]
  refine exists_congr fun d => and_congr_right fun _ => ?_
  cases ofDecimal d with
  | ok b => simp only [Except.ok.injEq]
  | error why => exact iff_of_false (fun h => by cases h) (fun h => by cases h)

/-! ## Events -/

namespace PaymentSucceeded

/-- An event keeps the rules if its order is not nil and its user is a positive number of 64 bits. -/
theorem isLawful_iff (e : PaymentSucceeded) :
    e.IsLawful ↔ e.order.uuid ≠ Uuid.nil ∧ Text.FitsInt64 e.user.value ∧ 0 < e.user.value := by
  rw [← e.order.isMade_iff, ← e.user.isMade_iff]
  exact ⟨fun h => ⟨h.order, h.user⟩, fun h => ⟨h.1, h.2, e.amount.isMade⟩⟩

/-- The fields see to it that the user has 64 bits. -/
theorem schema_keeps : schema.Keeps (fun d => ∀ u, d.user = some u → Text.FitsInt64 u.value)
    fun e => Text.FitsInt64 e.user.value where
  blank u h := by cases h
  fields := by
    intro field hfield
    simp only [schema, List.mem_cons, List.not_mem_nil, or_false] at hfield
    rcases hfield with rfl | rfl | rfl
    · exact .ofHead fun _ _ _ d hd => hd
    · refine .ofHead fun h u hu d hd u' hu' => ?_
      cases hu'
      exact UserId.fits_of_accept hu
    · exact .ofHead fun _ _ _ d hd => hd
  complete := by
    intro d e hd he
    obtain ⟨order, -, he⟩ := Option.bind_eq_some_iff.mp he
    obtain ⟨user, huser, he⟩ := Option.bind_eq_some_iff.mp he
    obtain ⟨amount, -, he⟩ := Option.bind_eq_some_iff.mp he
    cases he
    exact hd user huser

/-- A payload is read from its text. -/
theorem ofOctets_payload {e : PaymentSucceeded} (h : Text.FitsInt64 e.user.value) :
    schema.ofOctets (Json.encode e.payload.chars) = .ok e := by
  have hinteger : Json.IsInteger e.user.value := ⟨h.1, Int.lt_trans h.2 (by decide)⟩
  have hknown : ∀ m ∈ [("amount", e.amount.toJson), ("order_reference", e.order.toJson), ("user_id", e.user.toJson)],
      ∃ field, schema.fields.find? (·.name == m.1) = some field ∧ field.Agrees (Json.maxDepth - 1) m.2 := by
    intro m hm
    simp only [List.mem_cons, List.not_mem_nil, or_false] at hm
    rcases hm with rfl | rfl | rfl
    · exact ⟨_, rfl, Json.Field.agrees_ofHead (.text 0 _) trivial _⟩
    · exact ⟨_, rfl, Json.Field.agrees_ofHead (.text 0 _) trivial _⟩
    · exact ⟨_, rfl, Json.Field.agrees_ofHead (.integer 0 _ hinteger) trivial _⟩
  rw [payload, Json.Schema.ofOctets_chars hknown]
  exact ofValue_payload h

/-- **The events that are read** are those whose user has 64 bits. -/
theorem givesRecord_iff (e : PaymentSucceeded) (route : Route) :
    route.GivesRecord schema e ↔ Text.FitsInt64 e.user.value := by
  refine ⟨fun h => ?_, fun h => ?_⟩
  · cases route with
    | text => exact h.elim fun _ => schema_keeps.ofOctets
    | value => exact h.elim fun _ => schema_keeps.ofValue
  · cases route with
    | text => exact ⟨_, ofOctets_payload h⟩
    | value => exact ⟨e.payload, ofValue_payload h⟩

/-- An event is decoded of some payload if its user has 64 bits. -/
theorem exists_decode_iff (e : PaymentSucceeded) :
    (∃ type payload, decode type payload = .ok e) ↔ Text.FitsInt64 e.user.value := by
  refine ⟨?_, fun h => ⟨_, _, decode_payload h⟩⟩
  rintro ⟨type, payload, hpayload⟩
  unfold decode at hpayload
  split at hpayload
  next =>
    cases hread : schema.ofValue payload with
    | error problem => rw [hread] at hpayload; cases hpayload
    | ok e' =>
      rw [hread] at hpayload
      cases hpayload
      exact schema_keeps.ofValue hread
  next => cases hpayload

end PaymentSucceeded

/-! ## Messages -/

namespace Message

/-- An event that a message holds has a user of 64 bits. -/
theorem Holds.fits {m : Message} {id : Uuid} {e : PaymentSucceeded} (h : m.Holds id e) :
    Text.FitsInt64 e.user.value := by
  obtain ⟨envelope, -, -, -, hread⟩ := h
  exact PaymentSucceeded.schema_keeps.ofValue hread

/-- The events for which a message calls its handler are those that it holds. -/
theorem mem_calls_iff {m : Message} {σ : Type} {h : Handler σ} {s : σ} {id : Uuid} {e : PaymentSucceeded} :
    (id, e) ∈ (m.dispatch h.recording ([], s)).2.1 ↔ m.Holds id e := by
  rw [← event?_eq_some_iff]
  cases hevent : m.event? with
  | none =>
    have hbad : m.isUsable = false := by rw [isUsable, hevent]; rfl
    obtain ⟨why, -, hdispatch⟩ := @dispatch_of_unusable m _ h.recording ([], s) hbad
    rw [hdispatch]
    exact iff_of_false List.not_mem_nil (fun h => by cases h)
  | some event =>
    rw [dispatch_of_holds (event?_eq_some_iff.mp hevent)]
    show (id, e) ∈ [event] ↔ _
    rw [List.mem_singleton, Option.some.injEq, eq_comm]

end Message

namespace PaymentSucceeded

/-- An event reaches a handler in some message if its user has 64 bits. -/
theorem exists_message_iff (e : PaymentSucceeded) (id : Uuid) :
    (∃ m : Message, ∃ (σ : Type) (h : Handler σ) (s : σ), (id, e) ∈ (m.dispatch h.recording ([], s)).2.1) ↔
      Text.FitsInt64 e.user.value := by
  constructor
  · rintro ⟨m, σ, h, s, hcall⟩
    exact (Message.mem_calls_iff.mp hcall).fits
  · intro hfits
    have hread := Message.read_ofEvent rfl rfl hfits defaultTopic (e := .record e id ⟨0, 0⟩)
    exact ⟨_, Unit, .accepting "", (), Message.mem_calls_iff.mpr (Message.read_eq_ok_iff.mp hread)⟩

/-! ## The law -/

/-- **Of what is read only amounts are sure to keep the rules.** From a text as from a value:

* every uuid is read as an order, every number of 64 bits as a user, and every string as a key, but the constructors
  make only the orders that are not nil, the users above zero, and the keys that are trimmed, not empty and not too
  long;
* every amount is read, and it is what the constructor makes of the decimal that stands there.

An event is read, is decoded, and comes to a handler in some message under the same condition, that its user has 64
bits. Its amount is a whole number of cents from 1 to below 10^12, and it keeps all rules exactly if its order is not
nil and its user is positive. -/
theorem read_lawful_iff (route : Route) (e : PaymentSucceeded) :
    ((∀ o : OrderReference, route.Gives OrderReference.accept o ∧ (o.IsMade ↔ o.uuid ≠ Uuid.nil)) ∧
      (∀ u : UserId, (route.Gives UserId.accept u ↔ Text.FitsInt64 u.value) ∧
        (u.IsMade ↔ Text.FitsInt64 u.value ∧ 0 < u.value)) ∧
      (∀ k : IdempotencyKey, route.Gives IdempotencyKey.accept k ∧
        (k.IsMade ↔ Text.trim k.text = k.text ∧ k.text ≠ "" ∧ k.text.utf8ByteSize ≤ 255)) ∧
      ∀ a : Amount, route.Gives Amount.accept a ∧ a.IsMade) ∧
    (∀ h a, Amount.accept h = .ok a ↔ ∃ d, Json.acceptDecimal h = .ok d ∧ Amount.ofDecimal d = .ok a) ∧
    ((route.GivesRecord schema e ↔ Text.FitsInt64 e.user.value) ∧
      ((∃ type payload, decode type payload = .ok e) ↔ Text.FitsInt64 e.user.value) ∧
      ∀ id, (∃ m : Message, ∃ (σ : Type) (h : Handler σ) (s : σ),
        (id, e) ∈ (m.dispatch h.recording ([], s)).2.1) ↔ Text.FitsInt64 e.user.value) ∧
    (1 ≤ e.amount.cents ∧ e.amount.cents < 10 ^ 12) ∧
    (e.IsLawful ↔ e.order.uuid ≠ Uuid.nil ∧ Text.FitsInt64 e.user.value ∧ 0 < e.user.value) := by
  refine ⟨⟨?order, ?user, ?key, ?amount⟩, fun h a => Amount.accept_eq_ok_iff, ?reached,
    ⟨e.amount.cents_pos, e.amount.cents_lt⟩, e.isLawful_iff⟩
  case order => exact fun o => ⟨o.gives route, o.isMade_iff⟩
  case user => exact fun u => ⟨u.gives_iff route, u.isMade_iff⟩
  case key => exact fun k => ⟨k.gives route, IdempotencyKey.exists_ofString_iff⟩
  case amount => exact fun a => ⟨a.gives route, a.isMade⟩
  case reached => exact ⟨e.givesRecord_iff route, e.exists_decode_iff, e.exists_message_iff⟩

/-- An envelope with the event of a payment for the nil order by the user zero. -/
def lawlessMessage : Message where
  key := none
  octets := Json.octetsOf
    ("[\"01941f29-7c00-7000-8000-000000000001\",\"payment.successful\",\"2025-01-01T00:00:00Z\"," ++
      "[\"00000000-0000-0000-0000-000000000000\",0,\"10.00\"]]")

/-- **A handler may be called with an event that keeps no rule but that of its amount**, and a key of blanks is read. -/
theorem lawless_event_handled :
    (∃ call ∈ (lawlessMessage.dispatch (Handler.accepting "audit").recording ([], ())).2.1,
      call.2.order.uuid = Uuid.nil ∧ ¬ 0 < call.2.user.value ∧ ¬ call.2.IsLawful) ∧
    ∃ k, IdempotencyKey.accept (.text "  ") = .ok k ∧ ¬ k.IsMade := by
  refine ⟨?event, ⟨"  "⟩, rfl, ?key⟩
  case event =>
    have hcalls : (lawlessMessage.dispatch (Handler.accepting "audit").recording ([], ())).2.1 =
        [(.ofNat 0x01941f297c0070008000000000000001, ⟨⟨Uuid.nil⟩, ⟨0⟩, ⟨1000, by decide, by decide⟩⟩)] := by
      decide +kernel
    rw [hcalls]
    refine ⟨_, List.mem_singleton_self _, rfl, by decide, fun h => ?_⟩
    exact ((isLawful_iff _).mp h).1 rfl
  case key =>
    intro hmade
    obtain ⟨htrim, -⟩ := IdempotencyKey.exists_ofString_iff.mp hmade
    exact absurd htrim (by decide +kernel)

end PaymentSucceeded

end PaymentRelay
