import PaymentRelay.Event.Envelope
import PaymentRelay.Width

/-!
# The database

Two tables with one commit point: the ledger of payments, and the outbox with the events that
announce them. Rows are written to a transaction first; a commit appends them to both tables at once,
in the order in which they were written.

An outbox row may be *claimed* by a poller until an instant, and is hidden from every other poller
up to and including that instant. `fetch` claims the oldest rows that are pending and not claimed;
`markPublished` and `releaseClaim` end a claim.

Event ids are checked when a row is written to a transaction, against that transaction and the
table. They are not checked again when it is committed.
-/

namespace PaymentRelay

/-- A row of the outbox. -/
structure OutboxRow where
  event : OutboxEvent
  lockedUntil : Option Instant
deriving Repr

namespace OutboxRow

/-- The row of an event that nobody has claimed. -/
def ofEvent (e : OutboxEvent) : OutboxRow := ⟨e, none⟩

/-- Whether a poller may claim a row: it is pending, and no claim covers this instant. -/
def isClaimable (r : OutboxRow) (now : Instant) : Bool :=
  r.event.isPending && match r.lockedUntil with
    | some last => last < now
    | none => true

/-- The row claimed up to an instant. -/
def lock (r : OutboxRow) (last : Instant) : OutboxRow :=
  { r with lockedUntil := some last }

/-- The row with its claim ended. -/
def unlock (r : OutboxRow) : OutboxRow :=
  { r with lockedUntil := none }

/-- The row marked published. The first time it was marked stays. -/
def publish (r : OutboxRow) (now : Instant) : OutboxRow :=
  { event := { r.event with publishedAt := some (r.event.publishedAt.getD now) }
    lockedUntil := none }

end OutboxRow

/-- Rows written but not committed. -/
structure Transaction where
  payments : List Payment
  events : List OutboxEvent
deriving Repr

namespace Transaction

/-- The transaction that has written nothing. -/
def empty : Transaction := ⟨[], []⟩

/-- Writes a payment. -/
def insertPayment (t : Transaction) (p : Payment) : Transaction :=
  { t with payments := t.payments ++ [p] }

end Transaction

/-- The ledger and the outbox. -/
structure Database where
  /-- How long a claim lasts. -/
  claimLifetime : Duration
  payments : List Payment
  outbox : List OutboxRow
deriving Repr

namespace Database

/-- The database with empty tables. -/
def empty (claimLifetime : Duration) : Database := ⟨claimLifetime, [], []⟩

/-! ## Transactions -/

/-- Whether the outbox has an event. -/
def hasEvent (db : Database) (id : Uuid) : Bool :=
  db.outbox.any fun r => r.event.id == id

/-- Writes an event to a transaction, if its id is new. -/
def insertEvent (db : Database) (t : Transaction) (e : OutboxEvent) :
    Except PaymentError Transaction :=
  if t.events.any (fun other => other.id == e.id) || db.hasEvent e.id then
    .error (.infrastructure (.duplicateEvent e.id))
  else .ok { t with events := t.events ++ [e] }

/-- Appends the rows of a transaction to the tables. -/
def commit (db : Database) (t : Transaction) : Database :=
  { db with
    payments := db.payments ++ t.payments
    outbox := db.outbox ++ t.events.map OutboxRow.ofEvent }

/-! ## Claims -/

/-- The events still to be sent. -/
def pending (db : Database) : List OutboxEvent :=
  (db.outbox.filter fun r => r.event.isPending).map (·.event)

/-- The longest length of time the calendar counts with: as many milliseconds as 64 bits with a sign
hold. -/
def longestLease : Duration := .ofMillis (Width.signed64 - 1)

/-- How long a claim is given for: its lifetime, or a day if that is longer than can be counted. -/
def lease (db : Database) : Duration :=
  if longestLease.toNanos < db.claimLifetime.toNanos then .ofDays 1 else db.claimLifetime

/-- The rows that may be claimed and where they stand in the table, the first to be sent first. -/
def claimable (db : Database) (now : Instant) : List (OutboxRow × Nat) :=
  (db.outbox.zipIdx.filter fun r => r.1.isClaimable now).mergeSort
    fun a b => a.1.event.before b.1.event

/-- Claims the oldest `limit` rows that may be claimed. There is no answer if the calendar does not
reach as far as the claim. -/
def fetch (db : Database) (limit : Nat) (now : Instant) : Option (List OutboxEvent × Database) :=
  (now.add? db.lease).map fun last =>
    let claimed := (db.claimable now).take limit
    let isClaimed (i : Nat) := claimed.any fun r => r.2 == i
    (claimed.map (·.1.event),
      { db with outbox := db.outbox.mapIdx fun i r => if isClaimed i then r.lock last else r })

/-- Changes the first row with a property. -/
def updateFirst (p : OutboxRow → Bool) (f : OutboxRow → OutboxRow) : List OutboxRow → List OutboxRow
  | [] => []
  | r :: rest => if p r then f r :: rest else r :: updateFirst p f rest

/-- Marks an event published. An event that is not there is passed over. -/
def markPublished (db : Database) (id : Uuid) (now : Instant) : Database :=
  { db with outbox := updateFirst (·.event.id == id) (·.publish now) db.outbox }

/-- Ends the claim of an event that is still to be sent. -/
def releaseClaim (db : Database) (id : Uuid) : Database :=
  { db with
    outbox := updateFirst (fun r => r.event.id == id && r.event.isPending) (·.unlock) db.outbox }

end Database

end PaymentRelay
