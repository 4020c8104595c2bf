import PaymentRelay.System

/-!
# One tick of a poller

A tick claims a batch of pending events and goes through it: each event is published, and then marked
published if that succeeded or given back if it failed. A failure concerns one event and is reported;
the tick goes on with the next. Only a batch that cannot be fetched ends a tick early.

An event that was published and could not be marked stays pending. It is sent again after its claim,
so **every event is sent at least once**, and consumers tell repetitions by the event's id.

`Tick.step` takes one step of one tick. As for commands, a `Move` says which step comes next and
whether the store or the broker answers, and between two steps of a tick anything may happen to what
is shared. A call that fails has had no effect.
-/

namespace PaymentRelay

/-- What a tick counts. -/
structure TickReport where
  fetched : Nat
  published : Nat
  failed : Nat
deriving DecidableEq, Repr

/-- What a tick waits for. -/
inductive TickProgress where
  /-- The batch. -/
  | fetching
  /-- The broker. -/
  | publishing (event : OutboxEvent) (rest : List OutboxEvent)
  /-- The mark of an event that was published. -/
  | marking (event : OutboxEvent) (rest : List OutboxEvent)
  /-- The end of the claim of an event that was not published. -/
  | unclaiming (event : OutboxEvent) (rest : List OutboxEvent)
  /-- Nothing any more. -/
  | ended
  /-- Nothing any more; the tick broke off. -/
  | broken
deriving Repr

/-- A tick under way. -/
structure Tick where
  topic : String
  /-- The number of events that are claimed at most. -/
  batch : Nat
  report : TickReport
  progress : TickProgress
deriving Repr

namespace Tick

/-- What happens to a tick. -/
inductive Move where
  | fetch
  | fetchFails
  | publish
  | publishFails
  | mark
  | markFails
  | unclaim
  | unclaimFails
  /-- The poller is gone. -/
  | drop
deriving DecidableEq, Repr

/-- A tick that is about to fetch its batch. -/
def start (topic : String) (batch : Nat) : Tick :=
  ⟨topic, batch, ⟨0, 0, 0⟩, .fetching⟩

/-- The tick with its progress replaced. -/
def become (t : Tick) (p : TickProgress) : Tick :=
  { t with progress := p }

/-- The tick at the next event of its batch. -/
def next (t : Tick) : List OutboxEvent → Tick
  | [] => t.become .ended
  | event :: rest => t.become (.publishing event rest)

/-- The tick with one more event published. -/
def countPublished (t : Tick) : Tick :=
  { t with report := { t.report with published := t.report.published + 1 } }

/-- The tick with one more event failed. -/
def countFailed (t : Tick) : Tick :=
  { t with report := { t.report with failed := t.report.failed + 1 } }

/-- One step of a tick. -/
def step (t : Tick) (m : Move) (s : System) : Option (Tick × System) :=
  match t.progress, m with
  | .fetching, .fetch =>
    match s.database.fetch t.batch s.now with
    | some (events, database) =>
      some ({ t with report := { t.report with fetched := events.length } }.next events,
        { s with database })
    | none => some (t.become .broken, s)
  | .fetching, .fetchFails => some (t.become .ended, s.log .fetchFailed)
  | .publishing event rest, .publish =>
    some (t.become (.marking event rest), { s with broker := s.broker.publish t.topic event })
  | .publishing event rest, .publishFails =>
    some (t.countFailed.become (.unclaiming event rest), s.log .publishFailed)
  | .marking event rest, .mark =>
    some (t.countPublished.next rest,
      { s with database := s.database.markPublished event.id s.now })
  | .marking _ rest, .markFails => some (t.countFailed.next rest, s.log .markFailed)
  | .unclaiming event rest, .unclaim =>
    some (t.next rest, { s with database := s.database.releaseClaim event.id })
  | .unclaiming _ rest, .unclaimFails => some (t.next rest, s.log .claimNotReleased)
  | .ended, _ | .broken, _ => none
  | _, .drop => some (t.become .broken, s)
  | _, _ => none

end Tick

end PaymentRelay
