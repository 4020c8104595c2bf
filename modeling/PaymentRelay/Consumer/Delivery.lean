import PaymentRelay.System

/-!
# Delivering an event to a handler

Two handlers act on the event of a payment, and the broker may bring the event to each of them more
than once.

* The order handler marks the order paid. Doing it again is harmless by itself.
* The notification handler tells the customer. It reserves a key made of the event's id first; whoever
  finds the key taken has nothing to do and is done. If sending fails, the key is let go, so that the
  next delivery tries again.

A delivery to the notification handler is a machine like a command, because several deliveries of one
event may be under way at once: `Delivery.step` takes one step, and a `Move` says which. Unlike a
command, a delivery that is dropped **leaves its key behind**: nobody lets it go, and the event counts
as notified until the key expires.
-/

namespace PaymentRelay

/-- How a handler ends. -/
inductive Handled where
  | done
  | failed (error : PaymentError)
  /-- It was dropped. -/
  | cancelled
  | panicked
deriving DecidableEq, Repr

/-! ## Orders -/

/-- Marks the order of a payment paid. -/
def System.payOrder (s : System) (e : PaymentSucceeded) : Handled × System :=
  match s.orders.markPaid e.order with
  | .ok (true, orders) => (.done, { s with orders }.log .orderPaid)
  | .ok (false, _) => (.done, s.log .orderPaidAlready)
  | .error error => (.failed error, s)

/-! ## Notifications -/

/-- Where notifications go. -/
inductive Channel where
  /-- To the customer. -/
  | mail
  /-- To the journal, in place of a gateway. -/
  | journal
deriving DecidableEq, Repr

/-- Sends a notification. -/
def System.notify (s : System) (c : Channel) (n : Notification) : System :=
  match c with
  | .mail => { s with notices := s.notices ++ [n] }
  | .journal => s.log .notificationSent

/-- What a delivery waits for. -/
inductive DeliveryProgress where
  /-- The key store: whether it has decided, and what. -/
  | reserving (decision : Option Bool)
  /-- The channel. -/
  | sending
  /-- The release of the key, after which the delivery fails. -/
  | releasing (cause : PaymentError)
  /-- Nothing any more. -/
  | ended (handled : Handled)
deriving DecidableEq, Repr

/-- A delivery to the notification handler. -/
structure Delivery where
  eventId : Uuid
  event : PaymentSucceeded
  channel : Channel
  /-- The token under which the delivery holds its key. -/
  token : Uuid
  progress : DeliveryProgress
deriving DecidableEq, Repr

namespace Delivery

/-- What happens to a delivery. -/
inductive Move where
  /-- The key store decides on the key; its answer is still to come. -/
  | reserve
  /-- The key store's answer arrives. -/
  | reply
  /-- The reservation fails, although the key store may have decided. -/
  | reserveFails (error : PaymentError)
  | send
  | sendFails (error : PaymentError)
  | sendPanics
  /-- The key is released. -/
  | release
  /-- The key is not released. -/
  | releaseFails (error : PaymentError)
  /-- Nobody waits for the delivery any more. -/
  | drop
deriving DecidableEq, Repr

/-- The key of an event's notification. -/
def keyOf (eventId : Uuid) : IdempotencyKey :=
  ⟨"notification:" ++ eventId.text⟩

/-- A delivery that is about to reserve its key. -/
def start (eventId : Uuid) (event : PaymentSucceeded) (channel : Channel) (token : Uuid) : Delivery :=
  ⟨eventId, event, channel, token, .reserving none⟩

/-- The delivery with its progress replaced. -/
def become (d : Delivery) (p : DeliveryProgress) : Delivery :=
  { d with progress := p }

/-- How a delivery ended, if it did. -/
def handled? (d : Delivery) : Option Handled :=
  match d.progress with
  | .ended handled => some handled
  | _ => none

/-- The key store's answer arrives. -/
def onReply (d : Delivery) (granted : Bool) (s : System) : Delivery × System :=
  if granted then (d.become .sending, s)
  else (d.become (.ended .done), s.log .notificationSentAlready)

/-- One step of a delivery. -/
def step (d : Delivery) (m : Move) (s : System) : Option (Delivery × System) :=
  match d.progress, m with
  | .reserving none, .reserve =>
    let (answer, sent) := s.sent.reserve (keyOf d.eventId) d.token s.elapsed
    let s := { s with sent }
    match answer with
    | .granted => some (d.become (.reserving (some true)), s)
    | .taken => some (d.become (.reserving (some false)), s)
    | .overflow => some (d.become (.ended .panicked), s)
  | .reserving (some granted), .reply => some (d.onReply granted s)
  | .reserving _, .reserveFails error => some (d.become (.ended (.failed error)), s)
  | .sending, .send =>
    some (d.become (.ended .done), s.notify d.channel (.ofEvent d.event))
  | .sending, .sendFails error => some (d.become (.releasing error), s)
  | .sending, .sendPanics => some (d.become (.ended .panicked), s)
  | .releasing cause, .release =>
    some (d.become (.ended (.failed cause)),
      { s with sent := s.sent.release (keyOf d.eventId) d.token })
  | .releasing _, .releaseFails error => some (d.become (.ended (.failed error)), s)
  | .ended _, _ => none
  | _, .drop => some (d.become (.ended .cancelled), s)
  | _, _ => none

end Delivery

end PaymentRelay
