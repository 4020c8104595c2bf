import PaymentRelay.Proofs.Command.Transition

/-!
# The rows a command writes

From the reply that grants its key to the end of its transaction a command has two rows in hand: its own
payment and the event that announces it. `Progress.InHand` says so for one id and one instant, and
`Transition.carries` that no step of the command ever leaves it with other rows.

What a step does to the database is then one of four things (`Job.Effect`): nothing, nothing but a new
id in hand, a commit of both rows, or a commit of both rows sent on its way.
-/

namespace PaymentRelay

/-- The rows of a command: its payment and the event of it. -/
def Transaction.ofCommand (c : PaymentCommand) (id : Uuid) (now : Instant) : Transaction :=
  ⟨[.ofCommand c now], [.record (Payment.ofCommand c now).succeeded id now]⟩

/-- An event is written to a transaction if its id is new there and in the table. -/
theorem Database.insertEvent_eq_ok {db : Database} {t t' : Transaction} {e : OutboxEvent}
    (h : db.insertEvent t e = .ok t') :
    t' = { t with events := t.events ++ [e] } ∧ db.hasEvent e.id = false := by
  unfold insertEvent at h
  split at h
  next => cases h
  next hnew =>
    cases h
    simp only [Bool.or_eq_true, not_or, Bool.not_eq_true] at hnew
    exact ⟨rfl, hnew.2⟩

/-- An event that is refused is refused because its id is not new. -/
theorem Database.insertEvent_eq_error {db : Database} {t : Transaction} {e : OutboxEvent}
    {error : PaymentError} (h : db.insertEvent t e = .error error) :
    error = .infrastructure (.duplicateEvent e.id) ∧
      (t.events.any (fun other => other.id == e.id) = true ∨ db.hasEvent e.id = true) := by
  unfold insertEvent at h
  split at h
  next hold =>
    cases h
    exact ⟨rfl, Bool.or_eq_true_iff.mp hold⟩
  next => cases h

namespace Progress

/-- The rows of the command, with this id and of this instant, are what the command has in hand. -/
def InHand (c : PaymentCommand) (id : Uuid) (now : Instant) : Progress → Prop
  | .writingPayment payment event =>
    payment = .ofCommand c now ∧ event = .record (Payment.ofCommand c now).succeeded id now
  | .writingEvent event transaction =>
    event = .record (Payment.ofCommand c now).succeeded id now ∧
      transaction = Transaction.empty.insertPayment (.ofCommand c now)
  | .committing eventId transaction => eventId = id ∧ transaction = .ofCommand c id now
  | _ => False

/-- The id of the event a command has in hand. -/
def eventId? : Progress → Option Uuid
  | .writingPayment _ event | .writingEvent event _ => some event.id
  | .committing eventId _ => some eventId
  | _ => none

/-- The id that is drawn for an event in a step from one progress to another, if one is. -/
def drawn : Progress → Progress → List Uuid
  | .reserving _, .writingPayment _ event => [event.id]
  | _, _ => []

/-- Whatever rows a command has in hand are its own. -/
def Carries (c : PaymentCommand) (p : Progress) : Prop :=
  ∀ id, p.eventId? = some id → ∃ now, p.InHand c id now

/-- Rows in hand have the id of their event. -/
theorem InHand.eventId {c : PaymentCommand} {id : Uuid} {now : Instant} {p : Progress}
    (h : p.InHand c id now) : p.eventId? = some id := by
  cases p with
  | writingPayment => rw [eventId?, h.2]; rfl
  | writingEvent => rw [eventId?, h.1]; rfl
  | committing => rw [eventId?, h.1]
  | _ => exact h.elim

/-- A command with the rows of one id in hand carries its own rows. -/
theorem InHand.carries {c : PaymentCommand} {id : Uuid} {now : Instant} {p : Progress}
    (h : p.InHand c id now) : p.Carries c := by
  intro other hother
  rw [h.eventId] at hother
  cases hother
  exact ⟨now, h⟩

/-- A finished transaction that is carried has the command's rows. -/
theorem Carries.committing {c : PaymentCommand} {id : Uuid} {t : Transaction}
    (h : (Progress.committing id t).Carries c) : ∃ now, t = .ofCommand c id now := by
  obtain ⟨now, -, ht⟩ := h id rfl
  exact ⟨now, ht⟩

end Progress

namespace Job

variable {c : PaymentCommand} {token : Uuid} {s s' : System} {p p' : Progress} {m : Move}

/-- **A command writes its own rows.** A step leaves a command with the rows it had in hand, with new ones
of its own, or with none. -/
theorem Transition.carries (h : Transition c token s p m p' s') (hp : p.Carries c) : p'.Carries c := by
  cases h with
  | accepts id =>
    intro other hother
    cases hother
    exact ⟨s.now, rfl, rfl⟩
  | writesPayment payment event =>
    intro id hid
    obtain ⟨now, hpayment, hevent⟩ := hp id hid
    exact ⟨now, hevent, by rw [hpayment]⟩
  | writesEvent event t t' hok =>
    intro id hid
    obtain ⟨now, hevent, ht⟩ := hp id hid
    refine ⟨now, Option.some.inj hid, ?_⟩
    rw [(Database.insertEvent_eq_ok hok).1, ht, hevent]
    rfl
  | _ => intro id hid; cases hid

/-- What a step of a command does to the database, to the commits on their way and to the id it has in
hand. -/
inductive Effect (c : PaymentCommand) (token : Uuid) (s : System) (p p' : Progress) (s' : System) :
    Prop
  | none (hdb : s'.database = s.database) (hdetached : s'.detached = s.detached)
      (hid : ∀ id, p'.eventId? = some id → p.eventId? = some id)
  | draws (id : Uuid) (hdrawn : p.drawn p' = [id]) (hp : p.eventId? = Option.none)
      (hid : p'.eventId? = some id) (hdb : s'.database = s.database)
      (hdetached : s'.detached = s.detached)
  | commits (id : Uuid) (now : Instant) (hp : p = .committing id (.ofCommand c id now))
      (hp' : p'.eventId? = Option.none) (hdb : s'.database = s.database.commit (.ofCommand c id now))
      (hdetached : s'.detached = s.detached)
  | detaches (id : Uuid) (now : Instant) (hp : p = .committing id (.ofCommand c id now))
      (hp' : p'.eventId? = Option.none) (hdb : s'.database = s.database)
      (hdetached : s'.detached = s.detached ++ [⟨token, .ofCommand c id now⟩])

/-- **Both rows or none.** Every step of a command has one of the four effects. -/
theorem Transition.effect (h : Transition c token s p m p' s') (hp : p.Carries c) :
    Effect c token s p p' s' := by
  cases h with
  | accepts id => exact .draws id rfl rfl rfl rfl rfl
  | writesPayment => exact .none rfl rfl fun _ => id
  | writesEvent => exact .none rfl rfl fun _ => id
  | commits id t =>
    obtain ⟨now, rfl⟩ := hp.committing
    exact .commits id now rfl rfl rfl rfl
  | detaches id t =>
    obtain ⟨now, rfl⟩ := hp.committing
    exact .detaches id now rfl rfl rfl rfl
  | commitFails id t error isDurable =>
    cases isDurable with
    | true =>
      obtain ⟨now, rfl⟩ := hp.committing
      exact .commits id now rfl rfl rfl rfl
    | false => exact .none rfl rfl nofun
  | overflows | panics | dropped => exact .none leaveKey_database leaveKey_detached nofun
  | _ => exact .none rfl rfl nofun

end Job

/-! ## A sample -/

/-- A system in which nothing has happened, where keys are held for a minute. -/
def sampleSystem : System :=
  .fresh ⟨1700000000, 0⟩ (.ofSeconds 30) (.ofSeconds 60) (.ofSeconds 60)

/-- A command with some key. -/
def sampleCommand (key : String) : PaymentCommand :=
  ⟨⟨7⟩, ⟨.ofNat 5⟩, ⟨1250, by decide, by decide⟩, ⟨key⟩⟩

/-- The event of its payment. -/
def sampleEvent : PaymentSucceeded := ⟨⟨.ofNat 5⟩, ⟨7⟩, (sampleCommand "k").amount⟩

end PaymentRelay
