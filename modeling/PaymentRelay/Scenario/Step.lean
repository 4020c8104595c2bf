import PaymentRelay.Scenario.Session

/-!
# Steps of a scenario

A scenario is a list of steps in a session. `Session.perform` carries one out and tells its result; the
journal it leaves holds what was reported during that step alone. After a step all work that can be
done without waiting is done.

Steps that act on a store by themselves (reserving a key, adding an order) bypass the faults. Those
that stand for a call of a poller or for a transaction do not.
-/

namespace PaymentRelay.Scenario

/-- One of the two key stores. -/
inductive Store where
  | keys
  | sent
deriving DecidableEq, Repr

/-- A row to write in a transaction. -/
inductive Write where
  | payment (p : Payment)
  | event (e : OutboxEvent)
deriving Repr

/-- A transaction to run. -/
structure Batch where
  writes : List Write
  /-- Whether a write that fails is passed over. -/
  isPersistent : Bool
  /-- Whether the transaction is given up at its end. -/
  isAborted : Bool
deriving Repr

/-- A step. -/
inductive Step where
  | fault (site : Site) (mode : Mode)
  | refuseOnce (id : Uuid)
  | failMail (count : Nat)
  | advance (nanos : Nat)
  | pay (command : PaymentCommand) (patience : Nat)
  | payAll (commands : List PaymentCommand)
  | request (r : Request)
  | openGate
  | reserve (store : Store) (key : IdempotencyKey) (token : Uuid)
  | release (store : Store) (key : IdempotencyKey) (token : Uuid)
  | contains (store : Store) (key : IdempotencyKey)
  | size (store : Store)
  | transact (batch : Batch)
  | fetch (limit : Nat)
  | mark (id : Uuid)
  | unclaim (id : Uuid)
  | tick (batch : Option Nat)
  | startPoller (interval : Nat) (batch : Option Nat)
  | sleep (millis : Nat)
  | stopPoller
  | dropPoller
  | addOrder (order : OrderReference)
  | orderStatus (order : OrderReference)
  | markPaid (order : OrderReference)
  | dispatch (handler : Session.HandlerKind) (m : Message)
  | deliver (handler : Session.HandlerKind) (record : Nat)
  | countRecords (topic : String)

/-- What a step cannot be carried out for. -/
inductive Missing where
  | poller
  | record
deriving DecidableEq, Repr

/-- The result of a step. -/
inductive Result where
  | nothing
  | flag (value : Bool)
  | count (n : Nat)
  | written (n : Nat)
  | size (n : Nat)
  | ids (events : List Uuid)
  | report (r : TickReport)
  | status (s : Option OrderStatus)
  | outcome (o : Outcome)
  | outcomes (os : List Outcome)
  | response (r : Response)
  | verdict (handler : String) (v : Verdict)
  | failed (error : PaymentError)
  | missing (what : Missing)
deriving Repr

/-- The result of a call that panicked. -/
def Result.panicked : Result := .outcome .panicked

/-! ## Transactions -/

/-- How the body of a transaction goes. -/
inductive Course where
  | done (written : Nat) (transaction : Transaction)
  | failed (error : PaymentError)
  | stalled
  | panicked
deriving Repr

/-- Makes a write, or tells why not. -/
def Write.run (w : Write) (f : Faults) (db : Database) (t : Transaction) : Course :=
  let site := match w with
    | .payment _ => Site.ledger
    | .event _ => Site.outbox
  match f site, w with
  | .fail, _ => .failed site.error
  | .stall, _ => .stalled
  | .panic, _ => .panicked
  | _, .payment p => .done 1 (t.insertPayment p)
  | _, .event e => match db.insertEvent t e with
    | .ok t => .done 1 t
    | .error error => .failed error

/-- Makes writes one after the other. -/
def runWrites (f : Faults) (db : Database) (isPersistent : Bool) :
    List Write → Nat → Transaction → Course
  | [], written, t => .done written t
  | w :: rest, written, t =>
    match w.run f db t with
    | .done n t => runWrites f db isPersistent rest (written + n) t
    | .failed error =>
      if isPersistent then runWrites f db isPersistent rest written t else .failed error
    | .stalled => .stalled
    | .panicked => .panicked

namespace Session

/-- How long a transaction may take, in milliseconds. -/
def transactionPatience : Nat := 60000

/-- A transaction waits in vain and is dropped. -/
def giveUp (w : Session) : Result × Session :=
  (.outcome .cancelled, w.wait transactionPatience)

/-- Runs a transaction. -/
def transact (w : Session) (b : Batch) : Result × Session :=
  match runWrites w.faults w.system.database b.isPersistent b.writes 0 .empty with
  | .failed error => (.failed error, w)
  | .stalled => w.giveUp
  | .panicked => (.panicked, w)
  | .done written t =>
    if b.isAborted then (.failed (.refused (.stated "aborted by the caller")), w)
    else match w.faults .commit with
      | .fail => (.failed Site.commit.error, w)
      | .gated =>
        let (owner, w) := w.draw
        let w := { w with system := w.system.detach owner t }.settle
        if w.system.isDetached owner then w.giveUp else (.written written, w)
      | _ => (.written written, { w with system := w.system.commit t })

/-! ## Calls on stores -/

/-- A key store of the system. -/
def store (w : Session) : Store → KeyStore
  | .keys => w.system.keys
  | .sent => w.system.sent

/-- The session with a key store replaced. -/
def setStore (w : Session) (which : Store) (s : KeyStore) : Session :=
  match which with
  | .keys => { w with system := { w.system with keys := s } }
  | .sent => { w with system := { w.system with sent := s } }

/-- Reserves a key. -/
def reserve (w : Session) (which : Store) (key : IdempotencyKey) (token : Uuid) : Result × Session :=
  let (answer, s) := (w.store which).reserve key token w.system.elapsed
  let result := match answer with
    | .granted => Result.flag true
    | .taken => .flag false
    | .overflow => .panicked
  (result, w.setStore which s)

/-- Changes the database, if the calls at a site are answered. -/
def changeDatabase (w : Session) (site : Site) (change : Database → Database) : Result × Session :=
  if w.faults site = .fail then (.failed site.error, w)
  else (.nothing, { w with system := { w.system with database := change w.system.database } })

/-- Claims events. -/
def fetch (w : Session) (limit : Nat) : Result × Session :=
  if w.faults .fetch = .fail then (.failed Site.fetch.error, w)
  else match w.system.database.fetch limit w.system.now with
    | some (events, database) =>
      (.ids (events.map (·.id)), { w with system := { w.system with database } })
    | none => (.panicked, w)

/-- Runs one tick. -/
def tick (w : Session) (batch : Nat) : Result × Session :=
  let (refused, t, system) :=
    runTick w.faults (tickSteps w.system) w.refused (.start w.topic batch) w.system
  let result := match t.progress with
    | .broken => Result.panicked
    | _ => .report t.report
  (result, { w with refused, system })

/-! ## The poller -/

/-- The handle of the running poller is given up; the poller stops unless it has broken down. -/
def releasePoller (w : Session) : Session :=
  { { w with poller := w.poller.map Poller.stop }.movePoller .observe with poller := none }

/-- Starts a poller. One that was running before loses its handle, and takes notice of it when the
new one has begun. -/
def startPoller (w : Session) (interval batch : Nat) : Session :=
  let before := w.poller
  let w := { w with poller := some (.start w.topic batch (min interval longestPause)) }
  let w := (w.movePoller (.begin w.timer)).settlePoller
  { { w with poller := before }.releasePoller with poller := w.poller }

/-- Stops the poller, and reports if it had broken down. -/
def stopPoller (w : Session) : Result × Session :=
  match w.poller with
  | none => (.missing .poller, w)
  | some p =>
    let w := w.releasePoller
    match p.phase with
    | .crashed => (.nothing, { w with system := w.system.log .pollerCrashed })
    | _ => (.nothing, w)

/-! ## Steps -/

/-- The result of a message that was handed over. -/
def resultOf (kind : HandlerKind) (d : Dispatch) : Result :=
  match d.verdict?, d with
  | some v, _ => .verdict (handler kind).name v
  | none, .handed .cancelled => .outcome .cancelled
  | none, _ => .panicked

/-- Carries a step out, up to the work that is left to the system. -/
def act (w : Session) : Step → Result × Session
  | .fault site mode => (.nothing, { w with faults := w.faults.set site mode })
  | .refuseOnce id => (.nothing, { w with refused := w.refused ++ [id] })
  | .failMail count => (.nothing, { w with mailFailures := count })
  | .advance nanos => (.nothing, { w with system := w.system.advance nanos })
  | .pay command patience =>
    let (outcomes, w) := w.process [command] patience
    (.outcome (outcomes.headD .cancelled), w)
  | .payAll commands =>
    let (outcomes, w) := w.process commands transactionPatience
    (.outcomes outcomes, w)
  | .request r => match w.serve r with
    | (some response, w) => (.response response, w)
    | (none, w) => (.panicked, w)
  | .openGate =>
    (.nothing,
      if w.system.detached.isEmpty then { w with isGateOpen := true }
      else { w with system := w.system.finishCommit 0 })
  | .reserve which key token => w.reserve which key token
  | .release which key token => (.nothing, w.setStore which ((w.store which).release key token))
  | .contains which key => (.flag ((w.store which).contains key w.system.elapsed), w)
  | .size which => (.size (w.store which).size, w)
  | .transact b => w.transact b
  | .fetch limit => w.fetch limit
  | .mark id => w.changeDatabase .mark fun db => db.markPublished id w.system.now
  | .unclaim id => w.changeDatabase .releaseClaim fun db => db.releaseClaim id
  | .tick batch => w.tick (batch.getD w.batch)
  | .startPoller interval batch => (.nothing, w.startPoller interval (batch.getD w.batch))
  | .sleep millis => (.nothing, w.pause millis)
  | .stopPoller => w.stopPoller
  | .dropPoller => (.nothing, w.releasePoller)
  | .addOrder order =>
    (.nothing, { w with system := { w.system with orders := w.system.orders.insert order } })
  | .orderStatus order => (.status (w.system.orders.status? order), w)
  | .markPaid order => match w.system.orders.markPaid order with
    | .ok (isNew, orders) => (.flag isNew, { w with system := { w.system with orders } })
    | .error error => (.failed error, w)
  | .dispatch kind m =>
    let (d, w) := w.dispatch kind m
    (resultOf kind d, w)
  | .deliver kind record => match w.system.broker.records[record]? with
    | some r =>
      let (d, w) := w.dispatch kind (.ofRecord r)
      (resultOf kind d, w)
    | none => (.missing .record, w)
  | .countRecords topic => (.count (w.system.broker.recordsFor topic).length, w)

/-- Carries a step out. -/
def perform (w : Session) (step : Step) : Result × Session :=
  let (result, w) := { w with system := { w.system with journal := [] } }.act step
  (result, w.settle)

/-- The sizes of all that a session keeps: payments, outbox rows, pending rows, keys of commands, keys
of notifications, records and notifications. -/
def sizes (w : Session) : List Nat :=
  let s := w.system
  [s.database.payments.length, s.database.outbox.length, s.database.pending.length, s.keys.size,
   s.sent.size, s.broker.records.length, s.notices.length]

end Session

end PaymentRelay.Scenario
