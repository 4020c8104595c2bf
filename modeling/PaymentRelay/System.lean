import PaymentRelay.Consumer.Notification
import PaymentRelay.Journal
import PaymentRelay.Order.Book
import PaymentRelay.Store.Broker
import PaymentRelay.Store.Database
import PaymentRelay.Store.KeyStore

/-!
# The shared state

Commands, pollers and consumers run side by side. Each of them is a small machine with a state of its
own; what they share is a `System`, and a step of any machine is a function on it. Two things belong
to no machine any more and are left for the system to finish:

* an **orphan** is a key whose command was dropped or panicked and that is still to be released;
* a **detached** commit is a transaction that will be committed whether or not its owner still waits.

Two clocks are one here: the steady clock of the key stores counts from the start, and the calendar
is that many nanoseconds later than the instant of the start.
-/

namespace PaymentRelay

/-- A key to be released for a command that is gone. -/
structure Orphan where
  key : IdempotencyKey
  token : Uuid
deriving DecidableEq, Repr

/-- A commit on its way, and by whom it was begun. -/
structure Detached where
  owner : Uuid
  transaction : Transaction
deriving Repr

/-- All that commands, pollers and consumers share. -/
structure System where
  /-- The instant at which the steady clock shows zero. -/
  start : Instant
  /-- What the steady clock shows, in nanoseconds. -/
  elapsed : Nat
  /-- The keys of payment commands. -/
  keys : KeyStore
  /-- The keys of notifications. -/
  sent : KeyStore
  database : Database
  /-- The commits on their way, the oldest first. -/
  detached : List Detached
  /-- The keys to be released, the oldest first. -/
  orphans : List Orphan
  broker : Broker
  orders : OrderBook
  /-- The notifications that were sent. -/
  notices : List Notification
  /-- What was reported, the oldest entry first. -/
  journal : List Entry
deriving Repr

namespace System

/-- The system in which nothing has happened. -/
def fresh (start : Instant) (claims keys sent : Duration) : System where
  start := start
  elapsed := 0
  keys := .empty keys
  sent := .empty sent
  database := .empty claims
  detached := []
  orphans := []
  broker := .empty
  orders := .empty
  notices := []
  journal := []

/-- The instant of the calendar. -/
def now (s : System) : Instant :=
  s.start.later (.ofNanos s.elapsed)

/-- Time passes. -/
def advance (s : System) (nanos : Nat) : System :=
  { s with elapsed := s.elapsed + nanos }

/-- Reports. -/
def log (s : System) (e : Entry) : System :=
  { s with journal := s.journal ++ [e] }

/-- Commits a transaction. -/
def commit (s : System) (t : Transaction) : System :=
  { s with database := s.database.commit t }

/-- Lets a commit go on without waiting for it. -/
def detach (s : System) (owner : Uuid) (t : Transaction) : System :=
  { s with detached := s.detached ++ [⟨owner, t⟩] }

/-- Leaves a key to be released for a command that is gone. -/
def orphan (s : System) (key : IdempotencyKey) (token : Uuid) : System :=
  { s with orphans := s.orphans ++ [⟨key, token⟩] }

/-- Whether a commit of this owner is still on its way. -/
def isDetached (s : System) (owner : Uuid) : Bool :=
  s.detached.any fun d => d.owner == owner

/-- Finishes the commit on its way that stands at a place. -/
def finishCommit (s : System) (place : Nat) : System :=
  match s.detached[place]? with
  | some d => { s.commit d.transaction with detached := s.detached.eraseIdx place }
  | none => s

/-- Finishes the release of the orphan that stands at a place. -/
def finishOrphan (s : System) (place : Nat) (isReleased : Bool) : System :=
  match s.orphans[place]? with
  | some o =>
    let s := { s with orphans := s.orphans.eraseIdx place }
    if isReleased then { s with keys := s.keys.release o.key o.token }.log .orphanReleased
    else s.log .orphanNotReleased
  | none => s

end System

end PaymentRelay
