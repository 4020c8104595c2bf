import PaymentRelay.System

/-!
# A payment command at work

A command reserves its idempotency key, writes the payment and its event in one transaction, and
commits. If something fails before the commit it lets the key go, so that the command can be tried
again; if the command is dropped or panics, the key is left for the system to release. The system can
do so only if the command ends within a runtime, on which the release goes on: the moves that end a
command in this way say whether it does (`hasRuntime`).

`Job.step` takes one step of one command. Which step comes next, and what a store answers, is decided
outside: a `Move` says so, and `step` has no answer where a move does not fit what the command waits
for. So a run of commands is a list of moves, and every order, failure, loss of a reply and drop is
such a list.

**The key is kept from the moment the body of the transaction is finished** as far as dropping goes:
from then on the commit may go through without the command. An error that comes instead of the
commit's acknowledgement still lets the key go (`Move.commitFails`), whether or not the rows are in
the database.
-/

namespace PaymentRelay

/-- How a command ends. -/
inductive Outcome where
  /-- Payment and event are in the database. -/
  | accepted (eventId : Uuid)
  | failed (error : PaymentError)
  /-- The command was dropped. -/
  | cancelled
  | panicked
deriving DecidableEq, Repr

/-- What a command waits for. -/
inductive Progress where
  /-- The key store: whether it has decided, and what. -/
  | reserving (decision : Option Bool)
  /-- The ledger. -/
  | writingPayment (payment : Payment) (event : OutboxEvent)
  /-- The outbox. -/
  | writingEvent (event : OutboxEvent) (transaction : Transaction)
  /-- The commit; the body of the transaction is finished. -/
  | committing (eventId : Uuid) (transaction : Transaction)
  /-- A commit that goes on without the command. -/
  | awaitingCommit (eventId : Uuid)
  /-- The release of the key, after which the command fails. -/
  | releasing (cause : PaymentError)
  /-- Nothing any more. -/
  | ended (outcome : Outcome)
deriving Repr

/-- A command at work. -/
structure Job where
  command : PaymentCommand
  /-- The token under which the command holds its key. -/
  token : Uuid
  progress : Progress
deriving Repr

namespace Job

/-- What happens to a command. -/
inductive Move where
  /-- The key store decides on the key; its answer is still to come. -/
  | reserve
  /-- The key store's answer arrives; if it is granted, the event gets this id. -/
  | reply (eventId : Uuid)
  /-- The reservation fails, although the key store may have decided. -/
  | reserveFails (error : PaymentError)
  /-- The key store panics, because the end of the reservation cannot be told. -/
  | reservePanics (hasRuntime : Bool)
  | writePayment
  | writeEvent
  /-- A write fails. -/
  | writeFails (error : PaymentError)
  /-- A write panics. -/
  | writePanics (hasRuntime : Bool)
  | commit
  /-- The commit goes on by itself. -/
  | detach
  /-- The commit that went on by itself is done. -/
  | acknowledge
  /-- The commit fails as far as the command can tell. `isDurable` says whether the rows are in the
  database all the same. -/
  | commitFails (error : PaymentError) (isDurable : Bool)
  /-- The key is released. -/
  | release
  /-- The key is not released. -/
  | releaseFails
  /-- Nobody waits for the command any more. -/
  | drop (hasRuntime : Bool)
deriving Repr

/-- A command that is about to reserve its key. -/
def start (command : PaymentCommand) (token : Uuid) : Job :=
  ⟨command, token, .reserving none⟩

/-- The command with its progress replaced. -/
def become (j : Job) (p : Progress) : Job :=
  { j with progress := p }

/-- How a command ended, if it did. -/
def outcome? (j : Job) : Option Outcome :=
  match j.progress with
  | .ended outcome => some outcome
  | _ => none

/-- Gives the command up for a cause; its key is to be released. -/
def abort (j : Job) (stage : Stage) (cause : PaymentError) (s : System) : Job × System :=
  (j.become (.releasing cause), (s.log (.stage stage .failed)).log .commandFailed)

/-- Leaves the key of a command that is gone to the system to release, which takes a runtime to release
it on; without one this is reported and nobody releases the key. -/
def leaveKey (hasRuntime : Bool) (key : IdempotencyKey) (token : Uuid) (s : System) : System :=
  if hasRuntime then s.orphan key token else s.log .noRuntime

/-- Ends the command without the help of its key's holder: a key that may be held is left behind, unless
the body of the transaction is finished or the release has begun. -/
def abandon (j : Job) (hasRuntime : Bool) (outcome : Outcome) (s : System) : Job × System :=
  (j.become (.ended outcome),
    match j.progress with
    | .reserving _ | .writingPayment .. | .writingEvent .. =>
      leaveKey hasRuntime j.command.key j.token s
    | .committing .. | .awaitingCommit _ => s.log .keyKept
    | .releasing _ | .ended _ => s)

/-- The key store's answer arrives. -/
def onReply (j : Job) (granted : Bool) (eventId : Uuid) (s : System) : Job × System :=
  if granted then
    let payment := Payment.ofCommand j.command s.now
    let event := OutboxEvent.record payment.succeeded eventId s.now
    (j.become (.writingPayment payment event), s.log (.stage .start .guardChecked))
  else
    (j.become (.ended (.failed .duplicatePayment)),
      (s.log (.stage .start .rejected)).log .duplicateRejected)

/-- The rows are in the database. -/
def onCommitted (j : Job) (eventId : Uuid) (s : System) : Job × System :=
  (j.become (.ended (.accepted eventId)),
    ((s.log (.stage .guardChecked .committed)).log (.stage .committed .done)).log .paymentAccepted)

/-- One step of a command. -/
def step (j : Job) (m : Move) (s : System) : Option (Job × System) :=
  match j.progress, m with
  | .reserving none, .reserve =>
    let (answer, keys) := s.keys.reserve j.command.key j.token s.elapsed
    let s := { s with keys }
    match answer with
    | .granted => some (j.become (.reserving (some true)), s)
    | .taken => some (j.become (.reserving (some false)), s)
    | .overflow => none
  | .reserving none, .reservePanics hasRuntime =>
    let (answer, keys) := s.keys.reserve j.command.key j.token s.elapsed
    if answer = .overflow then some (j.abandon hasRuntime .panicked { s with keys }) else none
  | .reserving (some granted), .reply eventId => some (j.onReply granted eventId s)
  | .reserving _, .reserveFails error => some (j.abort .start error s)
  | .writingPayment payment event, .writePayment =>
    some (j.become (.writingEvent event (Transaction.empty.insertPayment payment)), s)
  | .writingEvent event transaction, .writeEvent =>
    match s.database.insertEvent transaction event with
    | .ok transaction => some (j.become (.committing event.id transaction), s)
    | .error error => some (j.abort .guardChecked error s)
  | .writingPayment .., .writeFails error | .writingEvent .., .writeFails error =>
    some (j.abort .guardChecked error s)
  | .writingPayment .., .writePanics hasRuntime | .writingEvent .., .writePanics hasRuntime =>
    some (j.abandon hasRuntime .panicked s)
  | .committing eventId transaction, .commit => some (j.onCommitted eventId (s.commit transaction))
  | .committing eventId transaction, .detach =>
    some (j.become (.awaitingCommit eventId), s.detach j.token transaction)
  | .committing _ transaction, .commitFails error isDurable =>
    some (j.abort .guardChecked error (if isDurable then s.commit transaction else s))
  | .awaitingCommit eventId, .acknowledge =>
    if s.isDetached j.token then none else some (j.onCommitted eventId s)
  | .awaitingCommit _, .commitFails error _ => some (j.abort .guardChecked error s)
  | .releasing cause, .release =>
    some (j.become (.ended (.failed cause)),
      { s with keys := s.keys.release j.command.key j.token })
  | .releasing cause, .releaseFails =>
    some (j.become (.ended (.failed cause)), s.log .keyNotReleased)
  | .ended _, .drop _ => none
  | _, .drop hasRuntime => some (j.abandon hasRuntime .cancelled s)
  | _, _ => none

end Job

end PaymentRelay
