import PaymentRelay.Payment.Command

/-!
# The event of a payment

A payment that went through is announced to other services by one event. On the wire it has a type,
which is a text, and a payload, which is a JSON object with the order, the user and the amount.

`payload` has its members in the order of their keys, as every object that travels as an untyped
value has; `toJson` has them in the order of the fields. Both read back: `decode` goes by the type
first and looks at the payload only if it knows the type. The order and the user are taken as they
stand there; the amount is checked.
-/

namespace PaymentRelay

/-- A payment went through. -/
structure PaymentSucceeded where
  order : OrderReference
  user : UserId
  amount : Amount
deriving DecidableEq, Repr

/-- The event that announces a payment. -/
def Payment.succeeded (p : Payment) : PaymentSucceeded :=
  ⟨p.order, p.user, p.amount⟩

namespace PaymentSucceeded

/-- The type of the event on the wire. -/
def eventType : String := "payment.successful"

/-- The topic events are sent to unless settings say otherwise. -/
def defaultTopic : String := "payments"

/-- The event as an untyped payload. -/
def payload (e : PaymentSucceeded) : Json :=
  .object
    [("amount", e.amount.toJson), ("order_reference", e.order.toJson), ("user_id", e.user.toJson)]

/-- The event as a record. -/
def toJson (e : PaymentSucceeded) : Json :=
  .object
    [("order_reference", e.order.toJson), ("user_id", e.user.toJson), ("amount", e.amount.toJson)]

/-- The event while it is read. -/
structure Draft where
  order : Option OrderReference
  user : Option UserId
  amount : Option Amount

/-- How the event is read. -/
def schema : Json.Schema Draft PaymentSucceeded where
  blank := ⟨none, none, none⟩
  fields :=
    [.ofHead "order_reference" Draft.order (fun o d => { d with order := some o })
      OrderReference.accept,
     .ofHead "user_id" Draft.user (fun u d => { d with user := some u }) UserId.accept,
     .ofHead "amount" Draft.amount (fun a d => { d with amount := some a }) Amount.accept]
  complete? := fun d => do
    return ⟨← d.order, ← d.user, ← d.amount⟩

/-- The event of a type and a payload. -/
def decode (type : String) (payload : Json) : Except PaymentError PaymentSucceeded :=
  if type = eventType then (schema.ofValue payload).mapError .serialization
  else .error (.unsupportedEvent type)

end PaymentSucceeded

end PaymentRelay
