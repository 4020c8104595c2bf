import PaymentRelay.Payment.Amount
import PaymentRelay.Payment.Identity
import PaymentRelay.Time.Rfc3339

/-!
# Payment commands and payments

A command is a request to pay that has passed its checks. A payment is the entry a command leaves in
the ledger; it is never changed. `Stage` names how far a command has come.
-/

namespace PaymentRelay

/-- A request to pay for an order, already checked. -/
structure PaymentCommand where
  user : UserId
  order : OrderReference
  amount : Amount
  key : IdempotencyKey
deriving DecidableEq, Repr

/-- An entry of the ledger. -/
structure Payment where
  order : OrderReference
  user : UserId
  amount : Amount
  createdAt : Instant
deriving DecidableEq, Repr

namespace Payment

/-- The payment a command makes at an instant. -/
def ofCommand (c : PaymentCommand) (now : Instant) : Payment :=
  ⟨c.order, c.user, c.amount, now⟩

/-- A payment has the order, the user and the amount of its command. -/
theorem ofCommand_fields (c : PaymentCommand) (now : Instant) :
    (ofCommand c now).order = c.order ∧ (ofCommand c now).user = c.user ∧
      (ofCommand c now).amount = c.amount ∧ (ofCommand c now).createdAt = now :=
  ⟨rfl, rfl, rfl, rfl⟩

/-- A payment in JSON. -/
def toJson (p : Payment) : Json :=
  .object
    [("order_reference", p.order.toJson), ("user_id", p.user.toJson), ("amount", p.amount.toJson),
     ("created_at", .text p.createdAt.exactText)]

end Payment

/-- How far a command has come. -/
inductive Stage where
  /-- Nothing has been done. -/
  | start
  /-- The idempotency key is held. -/
  | guardChecked
  /-- The payment and its event are in the database. -/
  | committed
  /-- All is done. -/
  | done
  /-- The key was taken: nothing was written. -/
  | rejected
  /-- Given up before the commit: nothing was written and the key was let go. -/
  | failed
deriving DecidableEq, Repr

namespace Stage

/-- The name of a stage. -/
def text : Stage → String
  | start => "start"
  | guardChecked => "guard_checked"
  | committed => "committed"
  | done => "done"
  | rejected => "rejected"
  | failed => "failed"

/-- Whether a command at this stage goes no further. -/
def isTerminal : Stage → Bool
  | done | rejected | failed => true
  | start | guardChecked | committed => false

end Stage

end PaymentRelay
