import PaymentRelay.Consumer.Dispatch
import PaymentRelay.Http.Request
import PaymentRelay.Outbox.Poller
import PaymentRelay.Scenario.Fault

/-!
# Sessions

A session is a system with all that decides how things go in it: the faults, a gate for commits, a
source of new ids, a running poller, and a timer. The timer counts milliseconds and stands still while
there is work to do; only waiting moves it, and it has nothing to do with the clock of the system.

The machines of the system are driven from here. `runJob` and `runTick` take steps until a machine has
ended or waits for something that does not come, and `settle` does what is left to the system: a tick
that is due, commits the gate lets through, and keys to be released.
-/

namespace PaymentRelay.Scenario

/-- A system and what decides how things go in it. -/
structure Session where
  system : System
  faults : Faults
  /-- The topic events are sent to. -/
  topic : String
  /-- The batch of a tick, unless it is given. -/
  batch : Nat
  /-- What the timer shows. -/
  timer : Nat
  /-- The poller that was started last, until its handle is given up. -/
  poller : Option Poller
  /-- Whether the gate lets the next commit through. -/
  isGateOpen : Bool
  /-- The events whose next publication fails. -/
  refused : List Uuid
  /-- The number of notifications that fail next. -/
  mailFailures : Nat
  /-- How many ids have been given out. -/
  drawn : Nat

namespace Session

/-- The session in which nothing has happened. -/
def fresh (start : Instant) (claims keys sent : Duration) (topic : String) (batch : Nat) :
    Session where
  system := .fresh start claims keys sent
  faults := fun _ => .ok
  topic := topic
  batch := batch
  timer := 0
  poller := none
  isGateOpen := false
  refused := []
  mailFailures := 0
  drawn := 0

/-! ## New ids -/

/-- The first id that is given out. -/
def firstId : Nat := 0xfffffffe000070008000000000000000

/-- Every id given out is below this one. -/
def idBound : Nat := 0xffffffff000000000000000000000000

/-- Whether an id was given out, and not chosen by a caller. -/
def isDrawn (u : Uuid) : Bool :=
  firstId ≤ u.number && u.number < idBound

/-- A new id. New ids ascend. -/
def draw (w : Session) : Uuid × Session :=
  (.ofNat (firstId + w.drawn), { w with drawn := w.drawn + 1 })

/-- The ids in the outbox that were given out, in the order of their rows. -/
def drawnIds (w : Session) : List Uuid :=
  (w.system.database.outbox.map (·.event.id)).filter isDrawn

/-! ## Running the machines -/

/-- The steps a command takes at most. -/
def jobSteps : Nat := 8

/-- Runs a command until it has ended or waits. -/
def runJob (f : Faults) (eventId : Uuid) : Nat → Job → System → Job × System
  | 0, j, s => (j, s)
  | fuel + 1, j, s =>
    match (jobMove? f eventId j s).bind fun m => j.step m s with
    | some (j, s) => runJob f eventId fuel j s
    | none => (j, s)

/-- The steps a tick takes at most: one to fetch, and two for an event. -/
def tickSteps (s : System) : Nat := 2 * s.database.outbox.length + 2

/-- Runs a tick to its end. -/
def runTick (f : Faults) : Nat → List Uuid → Tick → System → List Uuid × Tick × System
  | 0, refused, t, s => (refused, t, s)
  | fuel + 1, refused, t, s =>
    let (m, left) := tickMove f refused t
    match t.step m s with
    | some (t, s) => runTick f fuel left t s
    | none => (refused, t, s)

/-- Runs the tick of a poller to its end. -/
def runPollerTick (f : Faults) : Nat → List Uuid → Poller → System → List Uuid × Poller × System
  | 0, refused, p, s => (refused, p, s)
  | fuel + 1, refused, p, s =>
    match p.phase with
    | .ticking t _ =>
      let (m, left) := tickMove f refused t
      match p.step (.tick m) s with
      | some (p, s) => runPollerTick f fuel left p s
      | none => (refused, p, s)
    | _ => (refused, p, s)

/-- The steps a delivery takes at most. -/
def deliverySteps : Nat := 4

/-- Runs a delivery until it has ended or waits. -/
def runDelivery (f : Faults) : Nat → Nat → Delivery → System → Nat × Delivery × System
  | 0, failures, d, s => (failures, d, s)
  | fuel + 1, failures, d, s =>
    match deliveryMove? f failures d with
    | none => (failures, d, s)
    | some (m, left) => match d.step m s with
      | some (d, s) => runDelivery f fuel left d s
      | none => (failures, d, s)

/-! ## Background work -/

/-- A poller takes a step that takes no call, if it can. -/
def movePoller (w : Session) (m : Poller.Move) : Session :=
  match w.poller.bind fun p => p.step m w.system with
  | some (p, system) => { w with poller := some p, system }
  | none => w

/-- The poller ticks once at the time of the timer. -/
def tickPoller (w : Session) : Session :=
  let w := w.movePoller (.wake w.timer)
  match w.poller with
  | some p =>
    let (refused, p, system) := runPollerTick w.faults (tickSteps w.system) w.refused p w.system
    { w with poller := some p, refused, system }
  | none => w

/-- The tick of the poller that is due, if one is. -/
def settlePoller (w : Session) : Session :=
  match w.poller.bind Poller.due? with
  | some due => if due ≤ w.timer then w.tickPoller else w
  | none => w

/-- The commit that has waited longest at an open gate goes through and closes it. -/
def settleGate (w : Session) : Session :=
  if w.isGateOpen && !w.system.detached.isEmpty then
    { w with isGateOpen := false, system := w.system.finishCommit 0 }
  else w

/-- Every key that is left to the system is released, the oldest first. -/
def settleOrphans (w : Session) : Session :=
  let isReleased := w.faults .release != .fail
  { w with system := w.system.orphans.foldl (fun s _ => s.finishOrphan 0 isReleased) w.system }

/-- All work that can be done without waiting. -/
def settle (w : Session) : Session :=
  w.settlePoller.settleGate.settleOrphans

/-- The poller ticks whenever it is due before `limit`, and the timer moves along. -/
def tickUntil (limit : Nat) : Nat → Session → Session
  | 0, w => w
  | fuel + 1, w =>
    match w.poller.bind Poller.due? with
    | some due =>
      if due < limit then tickUntil limit fuel { w with timer := max due w.timer }.tickPoller
      else w
    | none => w

/-- Time passes on the timer. Ticks that are due before its end take place. Of two alarms for one time
the one that was set first goes off first: a tick that is due at the end takes place if that was known
from the start, and is left if it became due by a tick in between. -/
def wait (w : Session) (millis : Nat) : Session :=
  let limit := w.timer + millis
  if w.poller.bind Poller.due? = some limit then { w with timer := limit }.tickPoller
  else { tickUntil limit (millis + 1) w with timer := limit }

/-- How long a pause is at most, whether between two ticks or in a scenario: thirty years of 365 days,
in milliseconds. -/
def longestPause : Nat := 30 * 365 * 24 * 60 * 60 * 1000

/-- Nothing is asked of the system for a while. -/
def pause (w : Session) (millis : Nat) : Session :=
  w.wait (min millis longestPause)

/-! ## Commands -/

/-- A command and the id its event would get. -/
structure Entrant where
  job : Job
  eventId : Uuid

/-- A command runs until it has ended or waits. -/
def runEntrant (w : Session) (e : Entrant) : Entrant × Session :=
  let (job, system) := runJob w.faults e.eventId jobSteps e.job w.system
  ({ e with job }, { w with system })

/-- A command enters and runs until it has ended or waits. -/
def enter (w : Session) (c : PaymentCommand) : Entrant × Session :=
  let (token, w) := w.draw
  let (eventId, w) := w.draw
  w.runEntrant ⟨.start c token, eventId⟩

/-- Nobody waits for a command any more. -/
def leave (w : Session) (e : Entrant) : Entrant × Session :=
  match e.job.step (.drop true) w.system with
  | some (job, system) => ({ e with job }, { w with system })
  | none => (e, w)

/-- Does something for every item of a list, the first first. -/
def each (act : Session → α → β × Session) (w : Session) : List α → List β × Session
  | [] => ([], w)
  | a :: rest =>
    let (b, w) := act w a
    let (bs, w) := each act w rest
    (b :: bs, w)

/-- How a command ended; one that is still waiting counts as dropped. -/
def Entrant.outcome (e : Entrant) : Outcome :=
  e.job.outcome?.getD .cancelled

/-- Gives commands that wait the chance to go on when all other work that can be done is done. -/
def resume (w : Session) (entrants : List Entrant) : List Entrant × Session :=
  each runEntrant w.settle entrants

/-- Runs commands that enter one after the other. Those that still wait after so many milliseconds
are dropped; without any patience they are dropped as soon as they wait. -/
def process (w : Session) (commands : List PaymentCommand) (patience : Nat) :
    List Outcome × Session :=
  let (entrants, w) := each enter w commands
  let (entrants, w) := if patience = 0 then (entrants, w) else w.resume entrants
  let (entrants, w) :=
    if entrants.all fun e => e.job.outcome?.isSome then (entrants, w)
    else each leave (w.wait patience) entrants
  (entrants.map Entrant.outcome, w.settle)

/-! ## Requests -/

/-- How long a request may take, in milliseconds. -/
def requestPatience : Nat := 10000

/-- Reports an error that is answered without its wording. -/
def reportOutcome (w : Session) (o : Outcome) : Session :=
  match o with
  | .failed e => match Response.report? e with
    | some entry => { w with system := w.system.log entry }
    | none => w
  | _ => w

/-- Answers a request; a request that broke down is left without an answer. -/
def serve (w : Session) (r : Request) : Option Response × Session :=
  match r.resolve with
  | .error response => (some response, w)
  | .ok command =>
    let (outcomes, w) := w.process [command] requestPatience
    let outcome := outcomes.headD .cancelled
    (Response.ofOutcome? outcome, w.reportOutcome outcome)

/-! ## Deliveries -/

/-- The handlers of a session. -/
inductive HandlerKind where
  /-- Marks orders paid. -/
  | orders
  /-- Notifies customers. -/
  | notifications
  /-- Writes notifications to the journal. -/
  | logNotifications
  /-- Accepts every event. -/
  | counting
deriving DecidableEq, Repr

/-- Marks the order of a payment paid, if the orders are there. -/
def payOrder (w : Session) (e : PaymentSucceeded) : Handled × Session :=
  if w.faults .orders = .fail then (.failed Site.orders.error, w)
  else
    let (handled, system) := w.system.payOrder e
    (handled, { w with system })

/-- How long a delivery may take, in milliseconds. -/
def deliveryPatience : Nat := 60000

/-- Delivers an event to the notification handler. A delivery that still waits when patience is at its
end is dropped. -/
def notify (w : Session) (channel : Channel) (eventId : Uuid) (e : PaymentSucceeded) :
    Handled × Session :=
  let (token, w) := w.draw
  let (mailFailures, d, system) :=
    runDelivery w.faults deliverySteps w.mailFailures (.start eventId e channel token) w.system
  let w := { w with mailFailures, system }
  match d.handled? with
  | some handled => (handled, w)
  | none =>
    let w := w.wait deliveryPatience
    match d.step .drop w.system with
    | some (d, system) => (d.handled?.getD .cancelled, { w with system })
    | none => (.cancelled, w)

/-- A handler of a session. -/
def handler : HandlerKind → Handler Session
  | .orders => ⟨"order_payment", fun _ e w => w.payOrder e⟩
  | .notifications => ⟨"payment_notification", fun id e w => w.notify .mail id e⟩
  | .logNotifications => ⟨"payment_notification", fun id e w => w.notify .journal id e⟩
  | .counting => .accepting "counting"

/-- Hands a message to a handler, and reports what became of it. -/
def dispatch (w : Session) (kind : HandlerKind) (m : Message) : Dispatch × Session :=
  let (dispatch, w) := m.dispatch (handler kind) w
  match dispatch.entry? with
  | some entry => (dispatch, { w with system := w.system.log entry })
  | none => (dispatch, w)

end Session

end PaymentRelay.Scenario
