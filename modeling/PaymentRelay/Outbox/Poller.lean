import PaymentRelay.Outbox.Tick

/-!
# A running poller

A poller ticks at once when it begins, and then whenever its interval has passed since the last tick
began. It is told to stop by its handle, or by the handle's going away, and takes notice of that
**between ticks only**: a tick that has begun goes on to its end.

A poller that is both due and told to stop may do either. A poller without an interval breaks down as
it begins, and one whose tick breaks down goes with it.

Times are counted in milliseconds.
-/

namespace PaymentRelay

/-- What a poller is at. -/
inductive PollerPhase where
  /-- It has not begun. -/
  | fresh
  /-- It waits for its next tick. -/
  | waiting (due : Nat)
  /-- It ticks, and knows when its next tick is due. -/
  | ticking (tick : Tick) (due : Nat)
  /-- It stopped between two ticks. -/
  | stopped
  /-- It broke down. -/
  | crashed
deriving Repr

/-- A running poller. -/
structure Poller where
  topic : String
  batch : Nat
  interval : Nat
  /-- Whether it was told to stop. -/
  isStopping : Bool
  phase : PollerPhase
deriving Repr

namespace Poller

/-- What happens to a poller. -/
inductive Move where
  /-- It begins at a time. -/
  | begin (now : Nat)
  /-- Its tick begins at a time. -/
  | wake (now : Nat)
  /-- Its tick takes a step. -/
  | tick (m : Tick.Move)
  /-- It takes notice that it was told to stop. -/
  | observe
deriving Repr

/-- A poller that has not begun. -/
def start (topic : String) (batch interval : Nat) : Poller :=
  ⟨topic, batch, interval, false, .fresh⟩

/-- The poller in another phase. -/
def become (p : Poller) (phase : PollerPhase) : Poller :=
  { p with phase }

/-- Tells a poller to stop. -/
def stop (p : Poller) : Poller :=
  { p with isStopping := true }

/-- When the next tick of a waiting poller is due. -/
def due? (p : Poller) : Option Nat :=
  match p.phase with
  | .waiting due => some due
  | _ => none

/-- Goes on after a step of the tick. -/
def afterTick (p : Poller) (t : Tick) (due : Nat) (s : System) : Poller × System :=
  match t.progress with
  | .ended => (p.become (.waiting due), if 0 < t.report.fetched then s.log .pollerTicked else s)
  | .broken => (p.become .crashed, s)
  | _ => (p.become (.ticking t due), s)

/-- One step of a poller. -/
def step (p : Poller) (m : Move) (s : System) : Option (Poller × System) :=
  match p.phase, m with
  | .fresh, .begin now =>
    some (p.become (if p.interval = 0 then .crashed else .waiting now), s.log .pollerStarted)
  | .waiting due, .wake now =>
    if due ≤ now then
      some (p.become (.ticking (.start p.topic p.batch) (now + p.interval)), s)
    else none
  | .waiting _, .observe =>
    if p.isStopping then some (p.become .stopped, s.log .pollerStopping) else none
  | .ticking t due, .tick m => (t.step m s).map fun (t, s) => p.afterTick t due s
  | _, _ => none

end Poller

end PaymentRelay
