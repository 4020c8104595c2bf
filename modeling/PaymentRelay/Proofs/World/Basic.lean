import PaymentRelay.Consumer.Dispatch
import PaymentRelay.Outbox.Tick
import PaymentRelay.Proofs.Command.Rows

/-!
# Worlds and their runs

A world is one system with everything that is at work on it: commands, the ticks of pollers, pollers
that call the outbox by themselves, and consumers to which records of the broker are handed. An
`Action` lets one of them take one step, or lets time pass, or lets the system finish something that
was left to it; a `run` is a list of actions. So every order in which the steps can come, every fault
and every drop is a run, and a command that stalls is one that is not moved any more.

Some things in a world are there to be talked about and decide nothing: when a command was granted its
key, under which token each payment was committed (`authors`), which ids were drawn for events
(`drawn`), and what became of each delivery.

A command goes by its token. Tokens are drawn new, so a command cannot enter under a token that is
in use or was used by a commit.
-/

namespace PaymentRelay

/-! ## Consumers -/

/-- Takes the moves of a list one after the other, up to the first that does not apply. -/
def Delivery.follow (d : Delivery) (s : System) : List Delivery.Move → Delivery × System
  | [] => (d, s)
  | m :: rest => match d.step m s with
    | some (d, s) => d.follow s rest
    | none => (d, s)

/-- The moves of a delivery that nothing interrupts, given the error of the notifier, if it fails. -/
def Delivery.course : Option PaymentError → List Delivery.Move
  | none => [.reserve, .reply, .send]
  | some error => [.reserve, .reply, .sendFails error, .release]

/-- A service that consumes events. -/
inductive Service where
  | orders
  /-- Notifies customers. It draws a token for each delivery, and its notifier may fail. -/
  | notifications (token : Uuid) (fault : Option PaymentError)
deriving DecidableEq, Repr

namespace Service

/-- Whether a service notifies customers. -/
def isNotifying : Service → Bool
  | orders => false
  | notifications .. => true

/-- The handler of a service. -/
def handler : Service → Handler System
  | orders => ⟨"order_payment", fun _ e s => s.payOrder e⟩
  | notifications token fault =>
    ⟨"payment_notification", fun id e s =>
      let (d, s) := (Delivery.start id e .mail token).follow s (Delivery.course fault)
      (d.handled?.getD .cancelled, s)⟩

end Service

/-- A delivery that took place. -/
structure Delivered where
  service : Service
  record : BrokerRecord
  dispatch : Dispatch
  /-- The notifications that were sent. -/
  notices : List Notification
deriving DecidableEq, Repr

/-! ## Worlds -/

/-- A command in a world. -/
structure Party where
  command : PaymentCommand
  progress : Progress
  /-- When the key store granted the command its key. -/
  reservedAt : Option Nat
deriving Repr

/-- How a command ended, if it did. -/
def Party.outcome? (p : Party) : Option Outcome :=
  match p.progress with
  | .ended outcome => some outcome
  | _ => none

/-- A command after a step that took it to `progress` at the time `now`. -/
def Party.advanced (p : Party) (progress : Progress) (now : Nat) : Party :=
  { p with
    progress := progress
    reservedAt := match progress with
      | .reserving (some true) => some now
      | _ => p.reservedAt }

/-- A command that is granted its key has reserved it now. -/
theorem Party.reservedAt_granted (p : Party) (now : Nat) :
    (p.advanced (.reserving (some true)) now).reservedAt = some now := rfl

/-- No other step changes when a command reserved its key. -/
theorem Party.reservedAt_advanced (p : Party) {progress : Progress}
    (h : progress ≠ .reserving (some true)) (now : Nat) :
    (p.advanced progress now).reservedAt = p.reservedAt := by
  unfold Party.advanced
  split
  · exact absurd rfl h
  · rfl

/-- A system with everything that is at work on it. -/
structure World where
  system : System
  /-- The commands that have entered, by their tokens. -/
  parties : Register Uuid Party
  ticks : List Tick
  /-- The token under which each payment was committed, the oldest first. -/
  authors : List Uuid
  /-- The ids that were drawn for events, the oldest first. -/
  drawn : List Uuid
  /-- What became of each delivery, the oldest first. -/
  deliveries : List Delivered

namespace World

/-- What happens in a world. -/
inductive Action where
  /-- Time passes. -/
  | advance (nanos : Nat)
  /-- A command enters. -/
  | enter (command : PaymentCommand) (token : Uuid)
  /-- A command takes a step. -/
  | move (token : Uuid) (m : Job.Move)
  /-- The system finishes a commit on its way. -/
  | finishCommit (place : Nat)
  /-- The system releases an orphan, or fails to. -/
  | finishOrphan (place : Nat) (isReleased : Bool)
  /-- A tick begins. -/
  | startTick (topic : String) (batch : Nat)
  /-- A tick takes a step. -/
  | tick (place : Nat) (m : Tick.Move)
  /-- A poller claims a batch by itself. -/
  | fetch (limit : Nat)
  /-- A poller marks an event published by itself. -/
  | mark (id : Uuid)
  /-- A poller ends a claim by itself. -/
  | unclaim (id : Uuid)
  /-- A record of the broker is handed to a service. -/
  | deliver (service : Service) (record : Nat)
deriving Repr

/-- The world in which nobody has been at work on a system yet. -/
def opening (s : System) : World := ⟨s, .empty, [], [], [], []⟩

/-- The tokens that are in use or were used. -/
def tokens (w : World) : List Uuid :=
  w.parties.entries.map (·.1) ++ w.authors ++ w.system.detached.map (·.owner) ++
    w.system.orphans.map (·.token)

/-- The world with another system; payments that have come in by that are those of `author`. -/
def commitAs (w : World) (author : Uuid) (s : System) : World :=
  { w with
    system := s
    authors := w.authors ++
      .replicate (s.database.payments.length - w.system.database.payments.length) author }

/-- The world a command has entered. -/
def entered (w : World) (command : PaymentCommand) (token : Uuid) : World :=
  { w with parties := w.parties.put token ⟨command, .reserving none, none⟩ }

/-- The world after a step took the command of a token to `progress` and the system to `s`. -/
def moved (w : World) (token : Uuid) (p : Party) (progress : Progress) (s : System) : World :=
  { w.commitAs token s with
    parties := w.parties.put token (p.advanced progress w.system.elapsed)
    drawn := w.drawn ++ p.progress.drawn progress }

/-- The world with another database. -/
def withDatabase (w : World) (db : Database) : World :=
  { w with system := { w.system with database := db } }

/-- One action. There is no answer where an action does not apply. -/
def step (w : World) : Action → Option World
  | .advance nanos => some { w with system := w.system.advance nanos }
  | .enter command token =>
    if token ∈ w.tokens then none
    else some (w.entered command token)
  | .move token m => do
    let p ← w.parties.find? token
    let (job, s) ← Job.step ⟨p.command, token, p.progress⟩ m w.system
    return w.moved token p job.progress s
  | .finishCommit place => do
    let d ← w.system.detached[place]?
    return w.commitAs d.owner (w.system.finishCommit place)
  | .finishOrphan place isReleased => do
    let _ ← w.system.orphans[place]?
    return { w with system := w.system.finishOrphan place isReleased }
  | .startTick topic batch => some { w with ticks := w.ticks ++ [.start topic batch] }
  | .tick place m => do
    let t ← w.ticks[place]?
    let (t, system) ← t.step m w.system
    return { w with system, ticks := w.ticks.set place t }
  | .fetch limit => do
    let (_, db) ← w.system.database.fetch limit w.system.now
    return w.withDatabase db
  | .mark id => some (w.withDatabase (w.system.database.markPublished id w.system.now))
  | .unclaim id => some (w.withDatabase (w.system.database.releaseClaim id))
  | .deliver service place => do
    let record ← w.system.broker.records[place]?
    let (dispatch, s) := (Message.ofRecord record).dispatch service.handler w.system
    let notices := s.notices.drop w.system.notices.length
    return { w with system := s, deliveries := w.deliveries ++ [⟨service, record, dispatch, notices⟩] }

/-- The actions of a list, the first first. -/
def run (w : World) : List Action → Option World
  | [] => some w
  | a :: rest => (w.step a).bind fun w => w.run rest

/-! ## Looking up commands -/

theorem find?_opening {s : System} {token : Uuid} {p : Party} :
    (opening s).parties.find? token ≠ some p := by
  intro h
  cases h

/-- A token that is in use nowhere is no command's. -/
theorem ne_of_new {w : World} {token other : Uuid} (hnew : token ∉ w.tokens) {p : Party}
    (hp : w.parties.find? other = some p) : other ≠ token := by
  rintro rfl
  simp only [tokens, List.mem_append, not_or] at hnew
  exact hnew.1.1.1 (List.mem_map_of_mem ((Register.find?_eq_some_iff _).mp hp))

theorem find?_entered {w : World} {c : PaymentCommand} {token other : Uuid} {q : Party}
    (h : (w.entered c token).parties.find? other = some q) :
    other = token ∧ q = ⟨c, .reserving none, none⟩ ∨ other ≠ token ∧ w.parties.find? other = some q := by
  rw [entered, Register.find?_put] at h
  split at h
  next heq => exact .inl ⟨heq, (Option.some.inj h).symm⟩
  next hne => exact .inr ⟨hne, h⟩

theorem find?_moved_self (w : World) (token : Uuid) (p : Party) (progress : Progress) (s : System) :
    (w.moved token p progress s).parties.find? token =
      some (p.advanced progress w.system.elapsed) := by
  rw [moved, Register.find?_put, if_pos rfl]

theorem find?_moved_of_ne (w : World) {token other : Uuid} (hne : other ≠ token) (p : Party)
    (progress : Progress) (s : System) :
    (w.moved token p progress s).parties.find? other = w.parties.find? other := by
  rw [moved, Register.find?_put, if_neg hne]

theorem find?_moved {w : World} {token other : Uuid} {p q : Party} {progress : Progress} {s : System}
    (h : (w.moved token p progress s).parties.find? other = some q) :
    other = token ∧ q = p.advanced progress w.system.elapsed ∨
      other ≠ token ∧ w.parties.find? other = some q := by
  by_cases hne : other = token
  · subst hne
    rw [find?_moved_self] at h
    exact .inl ⟨rfl, (Option.some.inj h).symm⟩
  · rw [find?_moved_of_ne w hne] at h
    exact .inr ⟨hne, h⟩

/-! ## Runs -/

/-- **Invariants.** What holds in a world and is kept by every action of a run holds after the run. The
property may speak of the actions that are still to come. -/
theorem run_keeps {P : World → List Action → Prop}
    (hstep : ∀ w a rest w', P w (a :: rest) → w.step a = some w' → P w' rest)
    {w w' : World} {as : List Action} (h : P w as) (hrun : w.run as = some w') : P w' [] := by
  induction as generalizing w with
  | nil =>
    cases hrun
    exact h
  | cons a rest ih =>
    obtain ⟨next, hnext, hrest⟩ := Option.bind_eq_some_iff.mp hrun
    exact ih (hstep w a rest next h hnext) hrest

/-- A run is its beginning and then its rest. -/
theorem run_append (w : World) (as bs : List Action) :
    w.run (as ++ bs) = (w.run as).bind fun w => w.run bs := by
  induction as generalizing w with
  | nil => rfl
  | cons a rest ih =>
    rw [List.cons_append, run, run, Option.bind_assoc]
    exact congrArg _ (funext ih)

/-- A run is the fold of its steps. -/
theorem run_eq_foldlM : run = fun w as => as.foldlM step w := by
  funext w as
  induction as generalizing w with
  | nil => rfl
  | cons a rest ih => exact congrArg _ (funext ih)

/-- What is true of the actions so far and of the world they have led to, and is kept by every further action,
is true of the whole run. -/
theorem run_traced {P : List Action → World → Prop}
    (hstep : ∀ done w a w', P done w → w.step a = some w' → P (done ++ [a]) w')
    {w w' : World} {done as : List Action} (h : P done w) (hrun : w.run as = some w') : P (done ++ as) w' := by
  induction as generalizing done w with
  | nil =>
    cases hrun
    rwa [List.append_nil]
  | cons a rest ih =>
    obtain ⟨next, hnext, hrest⟩ := Option.bind_eq_some_iff.mp hrun
    rw [List.append_cons]
    exact ih (hstep done w a next h hnext) hrest

/-- What can be read off the world a run leads to can be read off the run. -/
theorem read_run {α : Type} {w w' : World} {as : List Action} (hrun : w.run as = some w')
    {read : World → α} {a : α} (h : (w.run as).map read = some a) : read w' = a := by
  rw [hrun] at h
  exact Option.some.inj h

/-! ## Particular runs -/

/-- A command enters and is accepted, its event with the given id. -/
def accepted (c : PaymentCommand) (token id : Uuid) : List Action :=
  .enter c token :: [.reserve, .reply id, .writePayment, .writeEvent, .commit].map (.move token)

/-- Whether a commit is reported to have failed. -/
def Action.isCommitFault : Action → Bool
  | .move _ (.commitFails ..) => true
  | _ => false

end World

end PaymentRelay
