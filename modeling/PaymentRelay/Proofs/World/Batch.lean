import PaymentRelay.Proofs.Outbox.Calls
import PaymentRelay.Proofs.Outbox.Queue
import PaymentRelay.Proofs.World.Exclusion

/-!
# A tick whose calls succeed

A tick that nobody disturbs takes its batch from the head of the line and goes through it: it sends an event, marks
it, and goes on to the next. `Tick.Working` says how far it is: what it has done, what it has sent and is to mark, and
what it still has to send make up its batch in this order, and the records and the line are those that follow.

So when it has ended, its batch has been sent in order, and the line begins with the event after it
(`Working.ended`). Until then it can always go on, and every step leaves less to do (`Working.exists_move`).
-/

namespace PaymentRelay

/-- Progress of a tick that has its batch and has had no failure. -/
def TickProgress.IsOnCourse : TickProgress → Prop
  | .publishing .. | .marking .. | .ended => True
  | _ => False

namespace Tick

/-- Whether a move is a call that succeeds. -/
def Move.succeeds : Move → Bool
  | .fetch | .publish | .mark => true
  | _ => false

variable {t t' : Tick} {m : Move} {s s' : System} {topic : String} {batch : Nat} {line : List OutboxEvent}
  {records : List BrokerRecord}

theorem isOnCourse_next (t : Tick) (rest : List OutboxEvent) : (t.next rest).progress.IsOnCourse := by
  cases rest <;> trivial

/-- A tick takes no time and leaves how long claims last, so a claim of now would be over at the same instant. -/
theorem Transition.last_eq (h : t.Transition s m t' s') :
    s'.now.add? s'.database.lease = s.now.add? s.database.lease := by
  have hlifetime : s'.database.claimLifetime = s.database.claimLifetime := by
    cases h with
    | fetches events db hp hfetch =>
      obtain ⟨last, -, hafter⟩ := Option.map_eq_some_iff.mp hfetch
      cases hafter
      rfl
    | _ => rfl
  obtain ⟨hstart, helapsed, -⟩ := h.sameForCommands
  rw [System.now, System.now, Database.lease, Database.lease, hstart, helapsed, hlifetime]

/-- A tick has its batch: it has done with the events `done`, has sent and not marked the next one, or neither, and has
all others before it. -/
structure Batched (topic : String) (batch : Nat) (line : List OutboxEvent) (records : List BrokerRecord)
    (done : List OutboxEvent) (t : Tick) (s : System) : Prop where
  onCourse : t.progress.IsOnCourse
  sendsTo : t.topic = topic
  events : line.take batch = done ++ (t.progress.sent ++ t.progress.unsent)
  counts : t.report = ⟨(line.take batch).length, done.length, 0⟩
  sent : s.broker.records = records ++ (done ++ t.progress.sent).map (.ofEvent topic)
  queued : s.Queued (t.progress.sent ++ t.progress.unsent) (line.drop batch)

/-- How far a tick is whose calls succeed, if there were `records` and the line was `line` when it began. -/
inductive Working (topic : String) (batch : Nat) (line : List OutboxEvent) (records : List BrokerRecord) (t : Tick)
    (s : System) : Prop
  | fetching (ht : t = .start topic batch) (hline : s.Queued [] line) (hrecords : s.broker.records = records)
  | batched (done : List OutboxEvent) (h : t.Batched topic batch line records done s)

/-- Whatever else happens leaves a tick where it is. -/
theorem Working.of_same (h : t.Working topic batch line records s) (hdb : s'.database = s.database)
    (hbroker : s'.broker = s.broker) (hstart : s'.start = s.start) (helapsed : s.elapsed ≤ s'.elapsed) :
    t.Working topic batch line records s' := by
  cases h with
  | fetching ht hline hrecords => exact .fetching ht (hline.of_same hdb hstart helapsed) (hbroker ▸ hrecords)
  | batched done h =>
    exact .batched done { h with sent := hbroker ▸ h.sent, queued := h.queued.of_same hdb hstart helapsed }

/-- A tick that has fetched has the head of the line for its batch. -/
theorem batched_of_fetch {events : List OutboxEvent} {db : Database} (hline : s.Queued [] line)
    (hfetch : s.database.fetch batch s.now = some (events, db)) :
    (((start topic batch).countFetched events.length).next events).Batched topic batch line s.broker.records []
      { s with database := db } := by
  obtain ⟨rfl, hqueued⟩ := hline.fetch hfetch
  constructor
  case onCourse => exact isOnCourse_next ..
  case sendsTo => exact topic_next ..
  case events => rw [sent_next, unsent_next, List.nil_append, List.nil_append]
  case counts => exact report_next ..
  case sent => rw [sent_next, List.append_nil, List.map_nil, List.append_nil]
  case queued =>
    rw [sent_next, unsent_next]
    exact hqueued

variable {done rest : List OutboxEvent} {event : OutboxEvent}

/-- The next event of the batch is sent. -/
theorem Batched.publish (h : t.Batched topic batch line records done s) (hp : t.progress = .publishing event rest) :
    (t.become (.marking event rest)).Batched topic batch line records done
      { s with broker := s.broker.publish t.topic event } := by
  obtain ⟨-, htopic, hbatch, hreport, hrecords, hline⟩ := h
  rw [hp] at hbatch hrecords hline
  constructor
  case onCourse => trivial
  case sendsTo => exact htopic
  case events => exact hbatch
  case counts => exact hreport
  case sent =>
    replace hrecords : s.broker.records = records ++ (done ++ []).map (.ofEvent topic) := hrecords
    show s.broker.records ++ [event].map (.ofEvent t.topic) = records ++ (done ++ [event]).map (.ofEvent topic)
    rw [hrecords, htopic, List.append_nil, List.append_assoc, ← List.map_append]
  case queued => exact hline.of_same rfl rfl (Nat.le_refl _)

/-- The event that was sent is marked. -/
theorem Batched.mark (h : t.Batched topic batch line records done s) (hp : t.progress = .marking event rest) :
    (t.countPublished.next rest).Batched topic batch line records (done ++ [event])
      { s with database := s.database.markPublished event.id s.now } := by
  obtain ⟨-, htopic, hbatch, hreport, hrecords, hline⟩ := h
  rw [hp] at hbatch hrecords hline
  constructor
  case onCourse => exact isOnCourse_next ..
  case sendsTo => exact (topic_next ..).trans htopic
  case events =>
    rw [sent_next, unsent_next, hbatch, List.append_assoc]
    rfl
  case counts =>
    rw [report_next, List.length_append, List.length_singleton]
    show (⟨t.report.fetched, t.report.published + 1, t.report.failed⟩ : TickReport) = _
    rw [hreport]
  case sent =>
    rw [sent_next, List.append_nil]
    exact hrecords
  case queued =>
    rw [sent_next, unsent_next]
    exact hline.mark

/-- **A call that succeeds takes a tick on.** -/
theorem Working.step (h : t.Working topic batch line records s) (ht : t.Transition s m t' s')
    (hm : m.succeeds = true) (hfits : (s.now.add? s.database.lease).isSome = true) :
    t'.Working topic batch line records s' := by
  cases h with
  | fetching hstart hline hrecords =>
    subst hstart hrecords
    cases ht with
    | fetches events db hp hfetch => exact .batched [] (batched_of_fetch hline hfetch)
    | overflows hp hfetch =>
      rw [Database.fetch, Option.map_eq_none_iff] at hfetch
      rw [hfetch] at hfits
      cases hfits
    | _ => contradiction
  | batched done h =>
    cases ht with
    | publishes event rest hp => exact .batched done (h.publish hp)
    | marks event rest hp => exact .batched (done ++ [event]) (h.mark hp)
    | fetches _ _ hp | overflows hp =>
      have honCourse := h.onCourse
      rw [hp] at honCourse
      exact honCourse.elim
    | _ => cases hm

/-- **A tick that has ended has sent its batch.** The line begins with the event after it. -/
theorem Working.ended (h : t.Working topic batch line records s) (hended : t.progress = .ended) :
    t.report = ⟨(line.take batch).length, (line.take batch).length, 0⟩ ∧ s.Queued [] (line.drop batch) ∧
      s.broker.records = records ++ (line.take batch).map (.ofEvent topic) := by
  cases h with
  | fetching ht =>
    rw [ht] at hended
    cases hended
  | batched done h =>
    obtain ⟨-, -, hbatch, hreport, hrecords, hline⟩ := h
    rw [hended] at hbatch hrecords hline
    have hall : line.take batch = done := hbatch.trans (List.append_nil done)
    rw [hall] at hreport ⊢
    replace hrecords : s.broker.records = records ++ (done ++ []).map (.ofEvent topic) := hrecords
    rw [List.append_nil] at hrecords
    exact ⟨hreport, hline, hrecords⟩

/-! ## Going on -/

/-- **A tick that has not ended can go on**, and has fewer calls to make then. -/
theorem Working.exists_move (h : t.Working topic batch line records s) (hended : t.progress ≠ .ended)
    (hfits : (s.now.add? s.database.lease).isSome = true) :
    ∃ m t' s', m.succeeds = true ∧ t.step m s = some (t', s') ∧
      callsLeft (line.take batch).length t'.progress < callsLeft (line.take batch).length t.progress := by
  cases h with
  | fetching ht hline hrecords =>
    subst ht
    obtain ⟨⟨events, db⟩, hfetch⟩ : ∃ next, s.database.fetch batch s.now = some next := by
      rw [← Option.isSome_iff_exists, Database.fetch, Option.isSome_map]
      exact hfits
    refine ⟨.fetch, ((start topic batch).countFetched events.length).next events, { s with database := db }, rfl,
      ?_, ?_⟩
    · simp only [Tick.step, start, hfetch]
      rfl
    · rw [callsLeft_next, (hline.fetch hfetch).1]
      exact Nat.lt_succ_self _
  | batched done h =>
    cases hp : t.progress with
    | publishing event rest =>
      refine ⟨.publish, t.become (.marking event rest), { s with broker := s.broker.publish t.topic event }, rfl,
        ?_, ?_⟩
      · simp only [Tick.step, hp]
      · exact Nat.lt_succ_self _
    | marking event rest =>
      refine ⟨.mark, t.countPublished.next rest,
        { s with database := s.database.markPublished event.id s.now }, rfl, ?_, ?_⟩
      · simp only [Tick.step, hp]
      · rw [callsLeft_next]
        exact Nat.lt_succ_self _
    | ended => exact absurd hp hended
    | fetching | unclaiming | broken =>
      have honCourse := h.onCourse
      rw [hp] at honCourse
      exact honCourse.elim

end Tick

end PaymentRelay
