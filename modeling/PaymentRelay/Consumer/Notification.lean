import PaymentRelay.Event.PaymentSucceeded

/-!
# Notifications

What a customer is told when a payment went through.
-/

namespace PaymentRelay

/-- A message to a user. -/
structure Notification where
  user : UserId
  subject : String
  message : String
deriving DecidableEq, Repr

namespace Notification

/-- The notification of a payment. -/
def ofEvent (e : PaymentSucceeded) : Notification where
  user := e.user
  subject := "Payment received"
  message := "Thank you for paying order " ++ e.order.text ++ " (" ++ e.amount.text ++ ")."

/-- A notification is for the user of its payment, and its message names the order and the amount. -/
theorem ofEvent_fields (e : PaymentSucceeded) : (ofEvent e).user = e.user ∧
    (ofEvent e).message = "Thank you for paying order " ++ e.order.text ++ " (" ++ e.amount.text ++ ")." :=
  ⟨rfl, rfl⟩

/-- A notification in JSON. -/
def toJson (n : Notification) : Json :=
  .object [("user_id", n.user.toJson), ("subject", .text n.subject), ("message", .text n.message)]

end Notification

end PaymentRelay
