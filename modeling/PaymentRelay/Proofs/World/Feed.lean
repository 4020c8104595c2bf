import PaymentRelay.Proofs.World.Tally

/-!
# What consumers are fed

A record gets to the broker by a tick, and a tick has its events from the outbox. So every record of the
broker is that of an event that was written (`Fed`), whatever failed on the way and however often the event
was sent.

Consumers share four things with the rest of a system: the broker, the orders, the keys of notifications
and the notifications themselves. Commands and the system's own commits leave all four alone.
-/

namespace PaymentRelay

/-! ## What commands leave alone -/

/-- Two systems agree in all that consumers share. -/
structure System.SameForConsumers (s s' : System) : Prop where
  broker : s'.broker = s.broker
  orders : s'.orders = s.orders
  sent : s'.sent = s.sent
  notices : s'.notices = s.notices

theorem System.SameForConsumers.refl (s : System) : s.SameForConsumers s := ⟨rfl, rfl, rfl, rfl⟩

/-- A command leaves alone what consumers share. -/
theorem Job.Transition.sameForConsumers {c : PaymentCommand} {token : Uuid} {s s' : System}
    {p p' : Progress} {m : Job.Move} (h : Job.Transition c token s p m p' s') : s.SameForConsumers s' := by
  cases h with
  | commitFails id t error isDurable => cases isDurable <;> exact ⟨rfl, rfl, rfl, rfl⟩
  | overflows _ hasRuntime | panics _ _ hasRuntime | dropped _ _ hasRuntime =>
    cases hasRuntime <;> exact ⟨rfl, rfl, rfl, rfl⟩
  | _ => exact ⟨rfl, rfl, rfl, rfl⟩

theorem System.sameForConsumers_finishCommit (s : System) (place : Nat) :
    s.SameForConsumers (s.finishCommit place) := by
  unfold finishCommit
  split <;> exact ⟨rfl, rfl, rfl, rfl⟩

theorem System.sameForConsumers_finishOrphan (s : System) (place : Nat) (isReleased : Bool) :
    s.SameForConsumers (s.finishOrphan place isReleased) := by
  unfold finishOrphan
  split
  · cases isReleased <;> exact ⟨rfl, rfl, rfl, rfl⟩
  · exact .refl s

/-! ## What ticks send -/

/-- Whatever is fetched was written. -/
theorem Database.written_of_fetch {db after : Database} {limit : Nat} {now : Instant}
    {events : List OutboxEvent} (h : db.fetch limit now = some (events, after)) {e : OutboxEvent}
    (he : e ∈ events) : e.asWritten ∈ db.written := by
  obtain ⟨last, -, hfetch⟩ := Option.map_eq_some_iff.mp h
  cases hfetch
  obtain ⟨r, hr, rfl⟩ := List.mem_map.mp he
  have hclaimable : r ∈ db.outbox.zipIdx.filter fun r => r.1.isClaimable now :=
    List.mem_mergeSort.mp (List.mem_of_mem_take hr)
  have hrow : r.1 ∈ db.outbox := List.fst_mem_of_mem_zipIdx (List.mem_filter.mp hclaimable).1
  exact List.mem_map_of_mem hrow

/-- What a step of a tick does for consumers: it adds no record but that of an event in hand, takes no event
in hand but from the outbox, and leaves alone all else that consumers share. -/
structure Tick.Feeds (t : Tick) (s : System) (t' : Tick) (s' : System) : Prop where
  records : ∀ r ∈ s'.broker.records, r ∈ s.broker.records ∨
    ∃ e ∈ t.progress.events, r = .ofEvent t.topic e
  claimed : ∀ e ∈ t'.progress.events, e ∈ t.progress.events ∨ e.asWritten ∈ s.database.written
  orders : s'.orders = s.orders
  sent : s'.sent = s.sent
  notices : s'.notices = s.notices

/-- A step that sends nothing and keeps in hand what it does not drop. -/
theorem Tick.Feeds.ofSame {t t' : Tick} {s s' : System} (hs : s.SameForConsumers s')
    (ht : ∀ e ∈ t'.progress.events, e ∈ t.progress.events) : t.Feeds s t' s' :=
  ⟨fun _ hr => .inl (hs.broker ▸ hr), fun e he => .inl (ht e he), hs.orders, hs.sent, hs.notices⟩

/-- **A tick sends what it has claimed.** -/
theorem Tick.Transition.feeds {t t' : Tick} {m : Tick.Move} {s s' : System}
    (h : t.Transition s m t' s') : t.Feeds s t' s' := by
  have rest_of : ∀ {event : OutboxEvent} {rest : List OutboxEvent}, t.progress.events = event :: rest →
      ∀ {u : Tick}, ∀ e ∈ (u.next rest).progress.events, e ∈ t.progress.events := by
    intro event rest hp u e he
    rw [events_next] at he
    exact hp ▸ List.mem_cons_of_mem _ he
  cases h with
  | fetches events db _ hfetch =>
    refine ⟨fun r hr => .inl hr, fun e he => .inr ?_, rfl, rfl, rfl⟩
    rw [events_next] at he
    exact Database.written_of_fetch hfetch he
  | publishes event rest hp =>
    refine ⟨fun r hr => ?_, fun e he => .inl (hp ▸ he), rfl, rfl, rfl⟩
    rcases List.mem_append.mp hr with hr | hr
    · exact .inl hr
    · exact .inr ⟨event, hp ▸ List.mem_cons_self, List.mem_singleton.mp hr⟩
  | publishFails event rest hp => exact .ofSame ⟨rfl, rfl, rfl, rfl⟩ fun e he => hp ▸ he
  | marks event rest hp | markFails event rest hp | unclaims event rest hp | unclaimFails event rest hp =>
    exact .ofSame ⟨rfl, rfl, rfl, rfl⟩ (rest_of (by rw [hp]; rfl))
  | overflows | fetchFails | dropped => exact .ofSame ⟨rfl, rfl, rfl, rfl⟩ nofun

/-! ## What services send -/

theorem Service.broker_dispatch (service : Service) (m : Message) (s : System) :
    (m.dispatch service.handler s).2.broker = s.broker := by
  unfold Message.dispatch
  split
  next => rfl
  next id e _ => exact (service.handles id e s).frame.2.1

/-! ## Worlds -/

namespace World

/-- Whether an action is one of a tick or a consumer. -/
def Action.isFeeding : Action → Bool
  | .startTick .. | .tick .. | .deliver .. => true
  | _ => false

/-- All other actions leave alone what consumers share, the ticks and the deliveries. -/
theorem sameForConsumers_of_step {w w' : World} {a : Action} (h : w.step a = some w')
    (ha : a.isFeeding = false) :
    w.system.SameForConsumers w'.system ∧ w'.ticks = w.ticks ∧ w'.deliveries = w.deliveries := by
  cases a with
  | startTick | tick | deliver => cases ha
  | advance | mark | unclaim => cases h; exact ⟨⟨rfl, rfl, rfl, rfl⟩, rfl, rfl⟩
  | enter c token =>
    simp only [step] at h
    split at h
    next => cases h
    next => cases h; exact ⟨⟨rfl, rfl, rfl, rfl⟩, rfl, rfl⟩
  | move token m =>
    obtain ⟨p, -, h⟩ := Option.bind_eq_some_iff.mp h
    obtain ⟨⟨job, s⟩, hnext, h⟩ := Option.bind_eq_some_iff.mp h
    obtain ⟨progress, -, ht⟩ := Job.transition_of_step hnext
    cases h
    exact ⟨ht.sameForConsumers, rfl, rfl⟩
  | finishCommit place =>
    obtain ⟨d, -, h⟩ := Option.bind_eq_some_iff.mp h
    cases h
    exact ⟨w.system.sameForConsumers_finishCommit place, rfl, rfl⟩
  | finishOrphan place isReleased =>
    obtain ⟨o, -, h⟩ := Option.bind_eq_some_iff.mp h
    cases h
    exact ⟨w.system.sameForConsumers_finishOrphan place isReleased, rfl, rfl⟩
  | fetch limit =>
    obtain ⟨⟨events, db⟩, -, h⟩ := Option.bind_eq_some_iff.mp h
    cases h
    exact ⟨⟨rfl, rfl, rfl, rfl⟩, rfl, rfl⟩

/-- Every record of the broker, and every event that a tick has in hand, was written to the outbox. -/
structure Fed (w : World) : Prop where
  records : ∀ r ∈ w.system.broker.records, ∃ topic e, r = .ofEvent topic e ∧
    e.asWritten ∈ w.system.database.written
  claimed : ∀ t ∈ w.ticks, ∀ e ∈ t.progress.events, e.asWritten ∈ w.system.database.written

variable {w w' : World}

/-- Where nothing is sent and no tick goes on, consumers are fed as before. -/
theorem Fed.of_same (h : w.Fed) (hwritten : ∀ e ∈ w.system.database.written, e ∈ w'.system.database.written)
    (hbroker : w'.system.broker = w.system.broker) (hticks : w'.ticks = w.ticks) : w'.Fed where
  records r hr := by
    obtain ⟨topic, e, rfl, he⟩ := h.records r (hbroker ▸ hr)
    exact ⟨topic, e, rfl, hwritten _ he⟩
  claimed t ht e he := hwritten _ (h.claimed t (hticks ▸ ht) e he)

/-- **Consumers are fed what was written.** No action sends a record of anything else. -/
theorem Fed.step {first : List OutboxEvent} {a : Action} (h : w.Fed) (hw : w.Tallied first)
    (hstep : w.step a = some w') : w'.Fed := by
  have hmono : ∀ e ∈ w.system.database.written, e ∈ w'.system.database.written :=
    fun e he => hw.written_mono hstep he
  cases a with
  | tick place m =>
    obtain ⟨t, ht, hstep⟩ := Option.bind_eq_some_iff.mp hstep
    obtain ⟨⟨t', s⟩, hnext, hstep⟩ := Option.bind_eq_some_iff.mp hstep
    have hfeeds := (Tick.transition_of_step hnext).feeds
    have hin : t ∈ w.ticks := List.mem_of_getElem? ht
    cases hstep
    constructor
    case records =>
      intro r hr
      rcases hfeeds.records r hr with hr | ⟨e, he, rfl⟩
      · obtain ⟨topic, e, rfl, he⟩ := h.records r hr
        exact ⟨topic, e, rfl, hmono _ he⟩
      · exact ⟨t.topic, e, rfl, hmono _ (h.claimed t hin e he)⟩
    case claimed =>
      intro u hu e he
      refine hmono _ ?_
      -- a tick that took no step has in hand what it had, and the other what it had or fetched
      rcases List.mem_or_eq_of_mem_set hu with hu | rfl
      · exact h.claimed u hu e he
      · rcases hfeeds.claimed e he with he | he
        · exact h.claimed t hin e he
        · exact he
  | startTick topic batch =>
    cases hstep
    constructor
    case records => exact h.records
    case claimed =>
      intro t ht e he
      rcases List.mem_append.mp ht with ht | ht
      · exact h.claimed t ht e he
      · cases List.mem_singleton.mp ht
        cases he
  | deliver service place =>
    obtain ⟨record, -, hstep⟩ := Option.bind_eq_some_iff.mp hstep
    cases hstep
    exact h.of_same hmono (service.broker_dispatch ..) rfl
  | _ =>
    obtain ⟨hsame, hticks, -⟩ := sameForConsumers_of_step hstep rfl
    exact h.of_same hmono hsame.broker hticks

end World

end PaymentRelay
