import PaymentRelay.Proofs.Outbox.Rows
import PaymentRelay.Proofs.Outbox.Transition
import PaymentRelay.Proofs.World.Handling

/-!
# What an action changes for commands

Commands share keys, tables, commits on their way and orphans. Of the tables only the commands and the
system's own commits put rows in: a poller changes when a row counts as sent and until when it is
claimed, and a consumer changes neither. `Database.written` is what is left of the outbox when that is
left out, and `System.SameForCommands` says that two systems agree in all that commands share.

`change_of_step` sorts the actions of a world: those of commands and of the system, one by one, and all
others together as `elsewhere`.
-/

namespace PaymentRelay

/-! ## What commands share -/

/-- Two systems agree in all that commands share. -/
structure System.SameForCommands (s s' : System) : Prop where
  start : s'.start = s.start
  elapsed : s'.elapsed = s.elapsed
  keys : s'.keys = s.keys
  detached : s'.detached = s.detached
  orphans : s'.orphans = s.orphans
  payments : s'.database.payments = s.database.payments
  written : s'.database.written = s.database.written

namespace System.SameForCommands

variable {s s' : System}

/-- Another report changes nothing commands share. -/
theorem log (h : s.SameForCommands s') (e : Entry) : s.SameForCommands (s'.log e) :=
  ⟨h.start, h.elapsed, h.keys, h.detached, h.orphans, h.payments, h.written⟩

/-- A system agrees with itself. -/
theorem refl (s : System) : s.SameForCommands s := ⟨rfl, rfl, rfl, rfl, rfl, rfl, rfl⟩

/-- Another database with the same payments and the same events as written. -/
theorem ofDatabase {db : Database} (hp : db.payments = s.database.payments)
    (hw : db.written = s.database.written) : s.SameForCommands { s with database := db } :=
  ⟨rfl, rfl, rfl, rfl, rfl, hp, hw⟩

end System.SameForCommands

/-! ## Who leaves it alone -/

/-- A tick leaves alone what commands share. -/
theorem Tick.Transition.sameForCommands {t t' : Tick} {m : Tick.Move} {s s' : System}
    (h : t.Transition s m t' s') : s.SameForCommands s' := by
  cases h with
  | fetches events db _ hfetch =>
    obtain ⟨hwritten, hpayments⟩ := Database.written_fetch hfetch
    exact .ofDatabase hpayments hwritten
  | marks => exact .ofDatabase rfl (Database.written_markPublished ..)
  | unclaims => exact .ofDatabase rfl (Database.written_releaseClaim ..)
  | publishes => exact ⟨rfl, rfl, rfl, rfl, rfl, rfl, rfl⟩
  | fetchFails | publishFails | markFails | unclaimFails => exact (System.SameForCommands.refl s).log _
  | overflows | dropped => exact .refl s

/-- A service that handles an event leaves alone what commands share. -/
theorem Service.Handles.sameForCommands {id : Uuid} {e : PaymentSucceeded} {s s' : System}
    {service : Service} {handled : Handled} (h : Service.Handles id e s service handled s') :
    s.SameForCommands s' := by
  cases h <;> exact ⟨rfl, rfl, rfl, rfl, rfl, rfl, rfl⟩

/-- So does a service to which a message is handed. -/
theorem Service.sameForCommands_dispatch (service : Service) (m : Message) (s : System) :
    s.SameForCommands (m.dispatch service.handler s).2 := by
  unfold Message.dispatch
  split
  next => exact .refl s
  next id e _ => exact (service.handles id e s).sameForCommands

/-! ## Actions sorted -/

namespace World

/-- Whether an action is one of a poller or a consumer. -/
def Action.isElsewhere : Action → Bool
  | .startTick .. | .tick .. | .fetch _ | .mark _ | .unclaim _ | .deliver .. => true
  | _ => false

/-- What an action does, sorted by what it changes for commands. -/
inductive Change (w : World) : Action → World → Prop
  | advance (nanos : Nat) :
      Change w (.advance nanos) { w with system := w.system.advance nanos }
  | enter (c : PaymentCommand) (token : Uuid) (h : token ∉ w.tokens) :
      Change w (.enter c token) (w.entered c token)
  | move (token : Uuid) (m : Job.Move) (p : Party) (progress : Progress) (s : System)
      (hp : w.parties.find? token = some p)
      (h : Job.Transition p.command token w.system p.progress m progress s) :
      Change w (.move token m) (w.moved token p progress s)
  | finishCommit (place : Nat) (d : Detached) (h : w.system.detached[place]? = some d) :
      Change w (.finishCommit place) (w.commitAs d.owner (w.system.finishCommit place))
  | finishOrphan (place : Nat) (isReleased : Bool) (o : Orphan)
      (h : w.system.orphans[place]? = some o) :
      Change w (.finishOrphan place isReleased)
        { w with system := w.system.finishOrphan place isReleased }
  | elsewhere (a : Action) (w' : World) (ha : a.isElsewhere = true)
      (hparties : w'.parties = w.parties) (hauthors : w'.authors = w.authors)
      (hdrawn : w'.drawn = w.drawn) (hsystem : w.system.SameForCommands w'.system) :
      Change w a w'

/-- Every action is one of these changes. -/
theorem change_of_step {w w' : World} {a : Action} (h : w.step a = some w') : w.Change a w' := by
  cases a with
  | advance nanos => cases h; exact .advance nanos
  | enter c token =>
    simp only [step] at h
    split at h
    next => cases h
    next hnew => cases h; exact .enter c token hnew
  | move token m =>
    obtain ⟨p, hp, h⟩ := Option.bind_eq_some_iff.mp h
    obtain ⟨⟨job, s⟩, hstep, h⟩ := Option.bind_eq_some_iff.mp h
    obtain ⟨progress, hjob, ht⟩ := Job.transition_of_step hstep
    cases hjob
    cases h
    exact .move token m p progress s hp ht
  | finishCommit place =>
    obtain ⟨d, hd, h⟩ := Option.bind_eq_some_iff.mp h
    cases h
    exact .finishCommit place d hd
  | finishOrphan place isReleased =>
    obtain ⟨o, ho, h⟩ := Option.bind_eq_some_iff.mp h
    cases h
    exact .finishOrphan place isReleased o ho
  | startTick topic batch => cases h; exact .elsewhere _ _ rfl rfl rfl rfl (.refl _)
  | tick place m =>
    obtain ⟨t, -, h⟩ := Option.bind_eq_some_iff.mp h
    obtain ⟨⟨t', s⟩, hstep, h⟩ := Option.bind_eq_some_iff.mp h
    cases h
    exact .elsewhere _ _ rfl rfl rfl rfl (Tick.transition_of_step hstep).sameForCommands
  | fetch limit =>
    obtain ⟨⟨events, db⟩, hfetch, h⟩ := Option.bind_eq_some_iff.mp h
    cases h
    obtain ⟨hw, hp⟩ := Database.written_fetch hfetch
    exact .elsewhere _ _ rfl rfl rfl rfl (.ofDatabase hp hw)
  | mark id =>
    cases h
    exact .elsewhere _ _ rfl rfl rfl rfl (.ofDatabase rfl (Database.written_markPublished ..))
  | unclaim id =>
    cases h
    exact .elsewhere _ _ rfl rfl rfl rfl (.ofDatabase rfl (Database.written_releaseClaim ..))
  | deliver service place =>
    obtain ⟨record, -, h⟩ := Option.bind_eq_some_iff.mp h
    cases h
    exact .elsewhere _ _ rfl rfl rfl rfl (Service.sameForCommands_dispatch ..)

/-- A move of a command is one of its transitions, and the world afterwards is the one that this makes. -/
theorem moved_of_step {w w' : World} {token : Uuid} {m : Job.Move} (h : w.step (.move token m) = some w') :
    ∃ p progress s, w.parties.find? token = some p ∧
      Job.Transition p.command token w.system p.progress m progress s ∧ w' = w.moved token p progress s := by
  cases change_of_step h with
  | move _ _ p progress s hp ht => exact ⟨p, progress, s, hp, ht, rfl⟩
  | elsewhere _ _ ha => cases ha

end World

end PaymentRelay
