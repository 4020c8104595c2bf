import PaymentRelay.Payment.Command

/-!
# The journal

What the parts of the relay report about their work, one entry for an event. An entry is data; how it
reads is decided in one place, `Entry.text`.
-/

namespace PaymentRelay

/-- An entry of the journal. -/
inductive Entry where
  /-- A command moves from one stage to the next. -/
  | stage (before after : Stage)
  | duplicateRejected
  | paymentAccepted
  | commandFailed
  | keyNotReleased
  | orphanReleased
  | orphanNotReleased
  | keyKept
  | noRuntime
  | paymentFailed
  | pollerStarted
  | pollerTicked
  | pollerStopping
  | pollerCrashed
  | fetchFailed
  | publishFailed
  | claimNotReleased
  | markFailed
  | envelopeUnreadable
  | eventUnsupported
  | payloadUnreadable
  | handlerFailed
  | orderPaid
  | orderPaidAlready
  | notificationSent
  | notificationSentAlready
deriving DecidableEq, Repr

namespace Entry

/-- The text of a report on work that goes as it should. -/
def info (message : String) : String := "INFO " ++ message

/-- The text of a report on something to look at. -/
def warn (message : String) : String := "WARN " ++ message

/-- The text of a report on a failure. -/
def error (message : String) : String := "ERROR " ++ message

/-- The text of an entry. -/
def text : Entry → String
  | stage before after => "stage " ++ before.text ++ ">" ++ after.text
  | duplicateRejected => info "duplicate payment rejected"
  | paymentAccepted => info "payment accepted"
  | commandFailed => warn "payment command failed, releasing idempotency key"
  | keyNotReleased =>
    error "failed to release idempotency key, it stays blocked until its ttl expires"
  | orphanReleased => info "released key of cancelled command"
  | orphanNotReleased => error "failed to release key of cancelled command"
  | keyKept => warn "command cancelled during commit, keeping idempotency key"
  | noRuntime => error "no runtime to release idempotency key"
  | paymentFailed => error "payment failed"
  | pollerStarted => info "outbox poller started"
  | pollerTicked => info "outbox tick"
  | pollerStopping => info "outbox poller shutting down"
  | pollerCrashed => error "outbox poller task failed"
  | fetchFailed => error "failed to fetch pending outbox events"
  | publishFailed => error "failed to publish event"
  | claimNotReleased => warn "failed to release outbox claim"
  | markFailed => error "failed to mark event published"
  | envelopeUnreadable => error "failed to decode envelope"
  | eventUnsupported => warn "skipping unsupported event type"
  | payloadUnreadable => error "failed to decode payload"
  | handlerFailed => error "handler failed"
  | orderPaid => info "order marked as paid"
  | orderPaidAlready => info "order already paid, redelivery ignored"
  | notificationSent => info "notification sent"
  | notificationSentAlready => info "notification already sent, redelivery ignored"

end Entry

end PaymentRelay
