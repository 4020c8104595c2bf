import PaymentRelay.Consumer.Delivery
import PaymentRelay.Outbox.Tick
import PaymentRelay.Payment.Processing

/-!
# Faults

A fault makes the calls at one site of the system go wrong in one way, until it is switched off. From
the faults follows which move a command, a tick or a delivery makes next: `jobMove?`, `tickMove`,
`deliveryMove?`. A command or a delivery has no next move where it waits for an answer that does not
come. A scenario runs within a runtime, so a command that ends without an answer has one on which its key
is released.
-/

namespace PaymentRelay.Scenario

/-- Where calls can go wrong. -/
inductive Site where
  | ledger
  | outbox
  | reserve
  | release
  | sentReserve
  | sentRelease
  | commit
  | fetch
  | mark
  | releaseClaim
  | broker
  | orders
deriving DecidableEq, Repr

/-- How calls go wrong. -/
inductive Mode where
  | ok
  /-- The call fails and has no effect. -/
  | fail
  /-- The call has no effect and is never answered. -/
  | stall
  | panic
  /-- The call has its effect and is never answered. -/
  | lostReply
  /-- The call has its effect when it is let through. -/
  | gated
deriving DecidableEq, Repr

/-- The mode of every site. -/
abbrev Faults := Site → Mode

/-- The faults with the mode of a site replaced. -/
def Faults.set (f : Faults) (site : Site) (mode : Mode) : Faults :=
  fun s => if s = site then mode else f s

/-- The adapter that is not available if calls at a site fail. -/
def Site.adapter : Site → String
  | ledger => "ledger"
  | outbox => "outbox"
  | reserve | release | sentReserve | sentRelease => "redis"
  | commit => "commit"
  | fetch | mark | releaseClaim | orders => "postgres"
  | broker => "broker"

/-- The error of a call that fails at a site. -/
def Site.error (site : Site) : PaymentError := .unavailable site.adapter

/-- The move at a write, by the mode of its site. -/
def writeMove? (f : Faults) (site : Site) (write : Job.Move) : Option Job.Move :=
  match f site with
  | .fail => some (.writeFails site.error)
  | .stall => none
  | .panic => some (.writePanics true)
  | _ => some write

/-- The move at a reservation, by the mode of its site. -/
def reserveMove (f : Faults) (s : System) (j : Job) : Job.Move :=
  if f .reserve = .fail then .reserveFails Site.reserve.error
  else if (s.keys.reserve j.command.key j.token s.elapsed).1 = .overflow then .reservePanics true
  else .reserve

/-- The next move of a command in a system; its event would get this id. -/
def jobMove? (f : Faults) (eventId : Uuid) (j : Job) (s : System) : Option Job.Move :=
  match j.progress with
  | .reserving none => some (reserveMove f s j)
  | .reserving (some _) => if f .reserve = .lostReply then none else some (.reply eventId)
  | .writingPayment .. => writeMove? f .ledger .writePayment
  | .writingEvent .. => writeMove? f .outbox .writeEvent
  | .committing .. => match f .commit with
    | .fail => some (.commitFails Site.commit.error false)
    | .gated => some .detach
    | _ => some .commit
  | .awaitingCommit _ => some .acknowledge
  | .releasing _ => some (if f .release = .fail then .releaseFails else .release)
  | .ended _ => none

/-- The next move of a tick. `refused` holds the events whose next publication fails; the second part
is what is left of it. -/
def tickMove (f : Faults) (refused : List Uuid) (t : Tick) : Tick.Move × List Uuid :=
  match t.progress with
  | .fetching => (if f .fetch = .fail then .fetchFails else .fetch, refused)
  | .publishing event _ =>
    if f .broker = .fail then (.publishFails, refused)
    else if refused.contains event.id then (.publishFails, refused.filter (· ≠ event.id))
    else (.publish, refused)
  | .marking .. => (if f .mark = .fail then .markFails else .mark, refused)
  | .unclaiming .. => (if f .releaseClaim = .fail then .unclaimFails else .unclaim, refused)
  | .ended | .broken => (.drop, refused)

/-- The next move of a delivery. `failures` counts the notifications that fail from here on; the
second part is what is left of it. -/
def deliveryMove? (f : Faults) (failures : Nat) (d : Delivery) : Option (Delivery.Move × Nat) :=
  match d.progress with
  | .reserving none =>
    let move := if f .sentReserve = .fail then .reserveFails Site.sentReserve.error else .reserve
    some (move, failures)
  | .reserving (some _) => if f .sentReserve = .lostReply then none else some (.reply, failures)
  | .sending => match d.channel, failures with
    | .mail, n + 1 => some (.sendFails (.unavailable "mail gateway"), n)
    | _, n => some (.send, n)
  | .releasing _ =>
    let move := if f .sentRelease = .fail then .releaseFails Site.sentRelease.error else .release
    some (move, failures)
  | .ended _ => none

end PaymentRelay.Scenario
