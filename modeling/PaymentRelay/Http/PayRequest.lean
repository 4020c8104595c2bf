import PaymentRelay.Payment.Command

/-!
# Payment requests

The body of a payment request names an order, an amount and an idempotency key. Reading it checks
their form only; `toCommand` checks the values, in that order.
-/

namespace PaymentRelay

/-- A request to pay, as it was sent. -/
structure PayRequest where
  order : Uuid
  amount : Decimal
  key : String
deriving DecidableEq, Repr

namespace PayRequest

/-- A payment request while it is read. -/
structure Draft where
  order : Option Uuid
  amount : Option Decimal
  key : Option String

/-- How a payment request is read. -/
def schema : Json.Schema Draft PayRequest where
  blank := ⟨none, none, none⟩
  fields :=
    [.ofHead "order_reference" Draft.order (fun u d => { d with order := some u }) Json.acceptUuid,
     .ofHead "amount" Draft.amount (fun a d => { d with amount := some a }) Json.acceptDecimal,
     .ofHead "idempotency_key" Draft.key (fun k d => { d with key := some k }) Json.acceptText]
  complete? := fun d => do
    return ⟨← d.order, ← d.amount, ← d.key⟩

/-- The command of a request that passes its checks. -/
def toCommand (r : PayRequest) (user : UserId) : Except PaymentError PaymentCommand := do
  let order ← OrderReference.ofUuid r.order
  let amount ← (Amount.ofDecimal r.amount).mapError .refused
  let key ← IdempotencyKey.ofString r.key
  return ⟨user, order, amount, key⟩

end PayRequest

/-- What a payment that was accepted is answered with. -/
structure PayResponse where
  message : String
deriving DecidableEq, Repr

namespace PayResponse

/-- The answer to a payment that was accepted. -/
def accepted : PayResponse :=
  ⟨"Payment accepted. Order status will be updated shortly."⟩

/-- An answer in JSON. -/
def toJson (r : PayResponse) : Json :=
  .object [("message", .text r.message)]

/-- How an answer is read. -/
def schema : Json.Schema (Option String) PayResponse where
  blank := none
  fields := [.ofHead "message" id (fun t _ => some t) Json.acceptText]
  complete? := fun d => d.map PayResponse.mk

end PayResponse

end PaymentRelay
