import PaymentRelay.Outbox.Tick

/-!
# What one step of a tick does

`Tick.step` read as a relation, as `Job.step` is: `Tick.Transition` has one constructor for each way a tick
goes on, and every later law about ticks splits on it (`Tick.transition_of_step`).

A tick that has gone through an event goes on with the rest of its batch, whether it published the event or
not; so the events it has in hand (`TickProgress.events`) only get fewer once the batch is there.
-/

namespace PaymentRelay

namespace TickProgress

/-- Progress after which a tick still waits for something. -/
def IsUnderWay : TickProgress → Prop
  | .ended | .broken => False
  | _ => True

/-- The events that a tick has claimed and not gone through yet. -/
def events : TickProgress → List OutboxEvent
  | .publishing event rest | .marking event rest | .unclaiming event rest => event :: rest
  | .fetching | .ended | .broken => []

/-- The event that a tick has sent and is to mark. -/
def sent : TickProgress → List OutboxEvent
  | .marking event _ => [event]
  | .fetching | .publishing .. | .unclaiming .. | .ended | .broken => []

/-- The events that a tick has in hand and has not sent. -/
def unsent : TickProgress → List OutboxEvent
  | .publishing event rest | .unclaiming event rest => event :: rest
  | .marking _ rest => rest
  | .fetching | .ended | .broken => []

end TickProgress

namespace Tick

/-- A tick that goes on to the rest of its batch has the rest in hand. -/
theorem events_next (t : Tick) (rest : List OutboxEvent) : (t.next rest).progress.events = rest := by
  cases rest <;> rfl

theorem sent_next (t : Tick) (rest : List OutboxEvent) : (t.next rest).progress.sent = [] := by
  cases rest <;> rfl

theorem unsent_next (t : Tick) (rest : List OutboxEvent) : (t.next rest).progress.unsent = rest := by
  cases rest <;> rfl

theorem report_next (t : Tick) (rest : List OutboxEvent) : (t.next rest).report = t.report := by
  cases rest <;> rfl

theorem topic_next (t : Tick) (rest : List OutboxEvent) : (t.next rest).topic = t.topic := by
  cases rest <;> rfl

/-- The tick whose batch has so many events. -/
def countFetched (t : Tick) (n : Nat) : Tick :=
  { t with report := { t.report with fetched := n } }

/-- The transitions of a tick, from the system `s`. -/
inductive Transition (t : Tick) (s : System) : Move → Tick → System → Prop
  -- the batch
  | fetches (events : List OutboxEvent) (db : Database) (hp : t.progress = .fetching)
      (h : s.database.fetch t.batch s.now = some (events, db)) :
      Transition t s .fetch ((t.countFetched events.length).next events) { s with database := db }
  | overflows (hp : t.progress = .fetching) (h : s.database.fetch t.batch s.now = none) :
      Transition t s .fetch (t.become .broken) s
  | fetchFails (hp : t.progress = .fetching) :
      Transition t s .fetchFails (t.become .ended) (s.log .fetchFailed)
  -- the events, one after the other
  | publishes (event : OutboxEvent) (rest : List OutboxEvent) (hp : t.progress = .publishing event rest) :
      Transition t s .publish (t.become (.marking event rest))
        { s with broker := s.broker.publish t.topic event }
  | publishFails (event : OutboxEvent) (rest : List OutboxEvent)
      (hp : t.progress = .publishing event rest) :
      Transition t s .publishFails (t.countFailed.become (.unclaiming event rest)) (s.log .publishFailed)
  | marks (event : OutboxEvent) (rest : List OutboxEvent) (hp : t.progress = .marking event rest) :
      Transition t s .mark (t.countPublished.next rest)
        { s with database := s.database.markPublished event.id s.now }
  | markFails (event : OutboxEvent) (rest : List OutboxEvent) (hp : t.progress = .marking event rest) :
      Transition t s .markFails (t.countFailed.next rest) (s.log .markFailed)
  | unclaims (event : OutboxEvent) (rest : List OutboxEvent) (hp : t.progress = .unclaiming event rest) :
      Transition t s .unclaim (t.next rest) { s with database := s.database.releaseClaim event.id }
  | unclaimFails (event : OutboxEvent) (rest : List OutboxEvent)
      (hp : t.progress = .unclaiming event rest) :
      Transition t s .unclaimFails (t.next rest) (s.log .claimNotReleased)
  -- the end of the poller
  | dropped (hp : t.progress.IsUnderWay) : Transition t s .drop (t.become .broken) s

/-- Every step of a tick is one of the transitions. -/
theorem transition_of_step {t : Tick} {m : Move} {s : System} {next : Tick × System}
    (h : t.step m s = some next) : Transition t s m next.1 next.2 := by
  unfold step at h
  split at h
  next hp =>
    split at h
    next hfetch => cases h; exact .fetches _ _ hp hfetch
    next hfetch => cases h; exact .overflows hp hfetch
  next hp => cases h; exact .fetchFails hp
  next hp => cases h; exact .publishes _ _ hp
  next hp => cases h; exact .publishFails _ _ hp
  next hp => cases h; exact .marks _ _ hp
  next hp => cases h; exact .markFails _ _ hp
  next hp => cases h; exact .unclaims _ _ hp
  next hp => cases h; exact .unclaimFails _ _ hp
  next => cases h
  next => cases h
  next hended hbroken =>
    cases h
    refine .dropped ?_
    cases hp : t.progress with
    | ended => exact absurd hp hended
    | broken => exact absurd hp hbroken
    | _ => trivial
  next => cases h

section

variable {t t' : Tick} {m : Move} {s s' : System}

/-- A tick sends to one topic throughout. -/
theorem Transition.topic (h : t.Transition s m t' s') : t'.topic = t.topic := by
  cases h with
  | fetches | marks | markFails | unclaims | unclaimFails => exact topic_next ..
  | _ => rfl

/-- A tick that has ended takes no step. -/
theorem Transition.underWay (h : t.Transition s m t' s') : t.progress.IsUnderWay := by
  cases h with
  | dropped hp => exact hp
  | fetches _ _ hp | overflows hp | fetchFails hp | publishes _ _ hp | publishFails _ _ hp | marks _ _ hp
  | markFails _ _ hp | unclaims _ _ hp | unclaimFails _ _ hp =>
    rw [hp]
    trivial

end

end Tick

end PaymentRelay
