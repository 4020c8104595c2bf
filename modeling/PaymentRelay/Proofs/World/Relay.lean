import Mathlib.Data.List.Nodup
import PaymentRelay.Proofs.Outbox.Rows
import PaymentRelay.Proofs.World.Feed

/-!
# What pollers send

What an action does to the outbox, to the broker and to the ticks is sorted once (`relay_of_step`): a tick
takes a step, a tick begins, a poller calls the outbox by itself, a payment is committed, or none of the three
changes.

The records of the broker are those of committed events, under the topic of a tick and with the envelope of
their row, and every event that is marked published has a record (`records_of_committed_events`). A tick marks
only what it has sent. Between the two it holds an event that has a record but counts as pending, and it may be
dropped there: the event is sent again, with the same envelope.
-/

namespace PaymentRelay

/-- A system that has sent nothing: every event is pending and nobody has claimed it, no commit is on its way,
and the broker is empty. -/
structure System.IsUnsent (s : System) : Prop where
  rows : ∀ r ∈ s.database.outbox, r.event.isPending = true ∧ r.lockedUntil = none
  detached : s.detached = []
  records : s.broker.records = []

namespace World

variable {w w' : World} {s : System} {first : List OutboxEvent} {a : Action}

/-! ## Actions sorted -/

/-- What an action does to the outbox, the broker and the ticks. -/
inductive Relay (w : World) : Action → World → Prop
  | ticks (place : Nat) (m : Tick.Move) (t t' : Tick) (s : System) (ht : w.ticks[place]? = some t)
      (h : t.Transition w.system m t' s) :
      Relay w (.tick place m) { w with system := s, ticks := w.ticks.set place t' }
  | starts (topic : String) (batch : Nat) :
      Relay w (.startTick topic batch) { w with ticks := w.ticks ++ [.start topic batch] }
  | fetches (limit : Nat) (events : List OutboxEvent) (db : Database)
      (h : w.system.database.fetch limit w.system.now = some (events, db)) :
      Relay w (.fetch limit) (w.withDatabase db)
  | marks (id : Uuid) :
      Relay w (.mark id) (w.withDatabase (w.system.database.markPublished id w.system.now))
  | unclaims (id : Uuid) : Relay w (.unclaim id) (w.withDatabase (w.system.database.releaseClaim id))
  | commits (a : Action) (w' : World) (c : PaymentCommand) (id : Uuid) (now : Instant)
      (hdb : w'.system.database = w.system.database.commit (.ofCommand c id now))
      (hbroker : w'.system.broker = w.system.broker) (hticks : w'.ticks = w.ticks) : Relay w a w'
  | aside (a : Action) (w' : World) (hdb : w'.system.database = w.system.database)
      (hbroker : w'.system.broker = w.system.broker) (hticks : w'.ticks = w.ticks) : Relay w a w'

/-- Every action is one of these. -/
theorem Tallied.relay_of_step (hw : w.Tallied first) (hstep : w.step a = some w') : w.Relay a w' := by
  cases a with
  | tick place m =>
    obtain ⟨t, ht, hstep⟩ := Option.bind_eq_some_iff.mp hstep
    obtain ⟨⟨t', s⟩, hnext, hstep⟩ := Option.bind_eq_some_iff.mp hstep
    cases hstep
    exact .ticks place m t t' s ht (Tick.transition_of_step hnext)
  | startTick topic batch => cases hstep; exact .starts topic batch
  | fetch limit =>
    obtain ⟨⟨events, db⟩, hfetch, hstep⟩ := Option.bind_eq_some_iff.mp hstep
    cases hstep
    exact .fetches limit events db hfetch
  | mark id => cases hstep; exact .marks id
  | unclaim id => cases hstep; exact .unclaims id
  | deliver service place =>
    obtain ⟨record, -, hstep⟩ := Option.bind_eq_some_iff.mp hstep
    cases hstep
    refine .aside _ _ ?_ (service.broker_dispatch ..) rfl
    show ((Message.ofRecord record).dispatch service.handler w.system).2.database = _
    unfold Message.dispatch
    split
    next => rfl
    next id e _ => exact (service.handles id e w.system).frame.1
  | advance nanos => cases hstep; exact .aside _ _ rfl rfl rfl
  | enter c token =>
    obtain ⟨hsame, hticks, -⟩ := sameForConsumers_of_step hstep rfl
    cases change_of_step hstep with
    | enter => exact .aside _ _ rfl hsame.broker hticks
    | elsewhere _ _ ha => cases ha
  | move token m =>
    obtain ⟨hsame, hticks, -⟩ := sameForConsumers_of_step hstep rfl
    cases change_of_step hstep with
    | move _ _ p progress s hp ht =>
      cases ht.effect (hw.carried token p hp) with
      | none hdb | draws _ _ _ _ hdb | detaches _ _ _ _ hdb => exact .aside _ _ hdb hsame.broker hticks
      | commits id now _ _ hdb => exact .commits _ _ p.command id now hdb hsame.broker hticks
    | elsewhere _ _ ha => cases ha
  | finishCommit place =>
    obtain ⟨hsame, hticks, -⟩ := sameForConsumers_of_step hstep rfl
    cases change_of_step hstep with
    | finishCommit _ d hd =>
      obtain ⟨c, id, now, hrows⟩ := hw.detached d (List.mem_of_getElem? hd)
      refine .commits _ _ c id now ?_ hsame.broker hticks
      simp only [commitAs, System.finishCommit, hd, System.commit, hrows]
    | elsewhere _ _ ha => cases ha
  | finishOrphan place isReleased =>
    obtain ⟨hsame, hticks, -⟩ := sameForConsumers_of_step hstep rfl
    cases change_of_step hstep with
    | finishOrphan _ _ o ho =>
      exact .aside _ _ (System.finishOrphan_keeps ho isReleased).1 hsame.broker hticks
    | elsewhere _ _ ha => cases ha

/-! ## What was sent -/

/-- A record of an event was sent. -/
def HasSent (w : World) (id : Uuid) : Prop :=
  ∃ r ∈ w.system.broker.records, r.key = id.text

/-- A tick has sent an event and is to mark it. -/
def IsMarking (w : World) (id : Uuid) : Prop :=
  ∃ t ∈ w.ticks, ∃ e rest, t.progress = .marking e rest ∧ e.id = id

/-- Whoever marks an event by itself does it for a tick that is to mark it: that tick's call takes effect,
although the tick may never learn of it. -/
def MarksSent (w : World) (as : List Action) : Prop :=
  ∀ before id after now, as = before ++ .mark id :: after → w.run before = some now → now.IsMarking id

/-- A run in which marks are of sent events goes on as one. -/
theorem MarksSent.tail {rest : List Action} (h : w.MarksSent (a :: rest)) (hstep : w.step a = some w') :
    w'.MarksSent rest := by
  intro before id after now hrest hrun
  apply h (a :: before) id after now
  · rw [hrest, List.cons_append]
  · rw [run, hstep, Option.bind_some, hrun]

/-- Records are sent under topics of ticks, what a tick is to mark was sent, and so was what is marked. -/
structure Relayed (w : World) : Prop where
  topics : ∀ r ∈ w.system.broker.records, r.topic ∈ w.ticks.map (·.topic)
  marking : ∀ id, w.IsMarking id → w.HasSent id
  published : ∀ r ∈ w.system.database.outbox, r.event.isPending = false → w.HasSent r.event.id

/-- Where the broker keeps its records and gets only records under topics of ticks, what is left to show is
that whatever a tick is to mark from now on, and whatever is marked from now on, was sent. -/
theorem Relayed.of_changes (h : w.Relayed)
    (hold : ∀ r ∈ w.system.broker.records, r ∈ w'.system.broker.records)
    (hnew : ∀ r ∈ w'.system.broker.records, r ∈ w.system.broker.records ∨ r.topic ∈ w'.ticks.map (·.topic))
    (htopics : ∀ topic ∈ w.ticks.map (·.topic), topic ∈ w'.ticks.map (·.topic))
    (hmarking : ∀ id, w'.IsMarking id → w.IsMarking id ∨ w'.HasSent id)
    (hrows : ∀ r ∈ w'.system.database.outbox, r.event.isPending = false →
      (∃ old ∈ w.system.database.outbox, r.event = old.event) ∨ w.HasSent r.event.id) : w'.Relayed := by
  have hsent : ∀ id, w.HasSent id → w'.HasSent id := fun _ ⟨r, hr, hkey⟩ => ⟨r, hold r hr, hkey⟩
  constructor
  case topics =>
    intro r hr
    rcases hnew r hr with hr | hr
    · exact htopics _ (h.topics r hr)
    · exact hr
  case marking =>
    intro id hid
    rcases hmarking id hid with hid | hid
    · exact hsent id (h.marking id hid)
    · exact hid
  case published =>
    intro r hr hpublished
    rcases hrows r hr hpublished with ⟨old, hold, heq⟩ | hr
    · exact hsent _ (heq ▸ h.published old hold (heq ▸ hpublished))
    · exact hsent _ hr

/-- A row that a mark or the end of a claim leaves has an event of before, or the marked one. -/
theorem rows_of_markPublished {db : Database} {id : Uuid} {now : Instant} {r : OutboxRow}
    (h : r ∈ (db.markPublished id now).outbox) :
    (∃ old ∈ db.outbox, r.event = old.event) ∨ r.event.id = id := by
  rcases Database.mem_updateFirst h with hold | ⟨old, -, hid, rfl⟩
  · exact .inl ⟨r, hold, rfl⟩
  · exact .inr (beq_iff_eq.mp hid)

theorem rows_of_releaseClaim {db : Database} {id : Uuid} {r : OutboxRow}
    (h : r ∈ (db.releaseClaim id).outbox) : ∃ old ∈ db.outbox, r.event = old.event := by
  rcases Database.mem_updateFirst h with hold | ⟨old, hold, -, rfl⟩
  · exact ⟨r, hold, rfl⟩
  · exact ⟨old, hold, rfl⟩

/-- **A tick marks what it has sent.** -/
theorem Relayed.tick (h : w.Relayed) {place : Nat} {m : Tick.Move} {t t' : Tick}
    (ht : w.ticks[place]? = some t) (htick : t.Transition w.system m t' s) :
    Relayed { w with system := s, ticks := w.ticks.set place t' } := by
  have hin : t ∈ w.ticks := List.mem_of_getElem? ht
  have htopics : (w.ticks.set place t').map (·.topic) = w.ticks.map (·.topic) := by
    have hplace : (w.ticks.map (·.topic))[place]? = some t'.topic := by
      rw [List.getElem?_map, ht, Option.map_some, htick.topic]
    obtain ⟨hlt, heq⟩ := List.getElem?_eq_some_iff.mp hplace
    rw [List.map_set, ← heq, List.set_getElem_self]
  -- a tick that is to mark an event was to mark it before, or is the one that took the step
  have hmarking : ∀ id, IsMarking { w with system := s, ticks := w.ticks.set place t' } id →
      w.IsMarking id ∨ ∃ e rest, t'.progress = .marking e rest ∧ e.id = id := by
    rintro id ⟨u, hu, e, rest, hmark, hid⟩
    rcases List.mem_or_eq_of_mem_set hu with hu | rfl
    · exact .inl ⟨u, hu, e, rest, hmark, hid⟩
    · exact .inr ⟨e, rest, hmark, hid⟩
  have not_marking : ∀ {u : Tick} {rest : List OutboxEvent} {e : OutboxEvent} {others : List OutboxEvent},
      (u.next rest).progress ≠ .marking e others := by
    intro u rest e others
    cases rest <;> exact nofun
  have aside : ∀ (_ : s.broker = w.system.broker) (_ : ∀ e rest, t'.progress ≠ .marking e rest)
      (_ : ∀ r ∈ s.database.outbox, r.event.isPending = false →
        (∃ old ∈ w.system.database.outbox, r.event = old.event) ∨ w.HasSent r.event.id),
      Relayed { w with system := s, ticks := w.ticks.set place t' } := by
    intro hbroker hno hrows
    refine h.of_changes (fun r hr => hbroker ▸ hr) (fun r hr => .inl (hbroker ▸ hr))
      (fun topic => htopics ▸ id) (fun id hid => ?_) hrows
    rcases hmarking id hid with hid | ⟨e, rest, hmark, -⟩
    · exact .inl hid
    · exact absurd hmark (hno e rest)
  cases htick with
  | fetches events db hp hfetch =>
    exact aside rfl (fun _ _ => not_marking) fun r hr _ => .inl (Database.event_mem_of_fetch hfetch hr)
  | publishes event rest hp =>
    refine h.of_changes (fun r hr => List.mem_append_left _ hr) (fun r hr => ?_) (fun topic => htopics ▸ id)
      (fun id hid => ?_) (fun r hr _ => .inl ⟨r, hr, rfl⟩)
    · rcases List.mem_append.mp hr with hr | hr
      · exact .inl hr
      · cases List.mem_singleton.mp hr
        exact .inr (htopics ▸ List.mem_map_of_mem hin)
    · rcases hmarking id hid with hid | ⟨e, others, hmark, rfl⟩
      · exact .inl hid
      · cases hmark
        exact .inr ⟨_, List.mem_append_right _ List.mem_cons_self, rfl⟩
  | marks event rest hp =>
    refine aside rfl (fun _ _ => not_marking) fun r hr _ => ?_
    rcases rows_of_markPublished hr with hold | hid
    · exact .inl hold
    · exact .inr (hid ▸ h.marking event.id ⟨t, hin, event, rest, hp, rfl⟩)
  | unclaims event rest hp =>
    exact aside rfl (fun _ _ => not_marking) fun r hr _ => .inl (rows_of_releaseClaim hr)
  | markFails | unclaimFails =>
    exact aside rfl (fun _ _ => not_marking) fun r hr _ => .inl ⟨r, hr, rfl⟩
  | overflows | fetchFails | publishFails | dropped =>
    exact aside rfl (fun _ _ => nofun) fun r hr _ => .inl ⟨r, hr, rfl⟩

/-- **What is marked was sent, step by step.** -/
theorem Relayed.step (h : w.Relayed) (hw : w.Tallied first)
    (hmarks : ∀ id, a = .mark id → w.IsMarking id) (hstep : w.step a = some w') : w'.Relayed := by
  have same : ∀ {w' : World} (_ : w'.system.broker = w.system.broker) (_ : w'.ticks = w.ticks)
      (_ : ∀ r ∈ w'.system.database.outbox, r.event.isPending = false →
        (∃ old ∈ w.system.database.outbox, r.event = old.event) ∨ w.HasSent r.event.id), w'.Relayed := by
    intro w' hbroker hticks hrows
    refine h.of_changes (fun r hr => hbroker ▸ hr) (fun r hr => .inl (hbroker ▸ hr))
      (fun topic => hticks ▸ id) (fun id hid => .inl ?_) hrows
    rwa [IsMarking, ← hticks]
  cases hw.relay_of_step hstep with
  | ticks place m t t' s ht htick => exact h.tick ht htick
  | starts topic batch =>
    refine h.of_changes (fun _ => id) (fun _ => .inl) (fun topic htopic => ?_) (fun id hid => .inl ?_)
      (fun r hr _ => .inl ⟨r, hr, rfl⟩)
    · rw [List.map_append]
      exact List.mem_append_left _ htopic
    · obtain ⟨t, ht, e, rest, hmark, hid⟩ := hid
      rcases List.mem_append.mp ht with ht | ht
      · exact ⟨t, ht, e, rest, hmark, hid⟩
      · cases List.mem_singleton.mp ht
        cases hmark
  | fetches limit events db hfetch =>
    exact same rfl rfl fun r hr _ => .inl (Database.event_mem_of_fetch hfetch hr)
  | marks id =>
    refine same rfl rfl fun r hr _ => ?_
    rcases rows_of_markPublished hr with hold | hid
    · exact .inl hold
    · exact .inr (hid ▸ h.marking id (hmarks id rfl))
  | unclaims id => exact same rfl rfl fun r hr _ => .inl (rows_of_releaseClaim hr)
  | commits a w' c id now hdb hbroker hticks =>
    refine same hbroker hticks fun r hr hpublished => ?_
    rw [hdb] at hr
    rcases List.mem_append.mp hr with hr | hr
    · exact .inl ⟨r, hr, rfl⟩
    · -- a row that comes in is pending
      cases List.mem_singleton.mp hr
      cases hpublished
  | aside a w' hdb hbroker hticks => exact same hbroker hticks fun r hr _ => .inl ⟨r, hdb ▸ hr, rfl⟩

/-! ## Runs -/

theorem fed_opening (hs : s.IsUnsent) : (opening s).Fed where
  records _ hr := absurd (hs.records ▸ hr) List.not_mem_nil
  claimed _ ht := absurd ht List.not_mem_nil

theorem relayed_opening (hs : s.IsUnsent) : (opening s).Relayed where
  topics _ hr := absurd (hs.records ▸ hr) List.not_mem_nil
  marking _ := fun ⟨t, ht, _⟩ => absurd ht List.not_mem_nil
  published r hr hpublished := by
    rw [(hs.rows r hr).1] at hpublished
    cases hpublished

/-- The broker is fed what was written throughout a run. -/
theorem fed_run {as : List Action} (hs : s.IsUnsent) (hrun : (opening s).run as = some w) : w.Fed :=
  (run_keeps (P := fun w _ => w.Tallied s.database.written ∧ w.Fed)
    (fun _ _ _ _ ⟨hw, hfed⟩ hstep => ⟨hw.step hstep, hfed.step hw hstep⟩)
    ⟨tallied_opening hs.detached, fed_opening hs⟩ hrun).2

/-- What is marked was sent throughout a run in which only sent events are marked by hand. -/
theorem relayed_run {as : List Action} (hs : s.IsUnsent) (hmarks : (opening s).MarksSent as)
    (hrun : (opening s).run as = some w) : w.Relayed := by
  refine (run_keeps (P := fun w rest => w.Tallied s.database.written ∧ w.Relayed ∧ w.MarksSent rest)
    (fun w a rest w' ⟨hw, hrelayed, hmarks⟩ hstep => ?_)
    ⟨tallied_opening hs.detached, relayed_opening hs, hmarks⟩ hrun).2.1
  refine ⟨hw.step hstep, hrelayed.step hw (fun id ha => ?_) hstep, hmarks.tail hstep⟩
  exact hmarks [] id rest w (by rw [ha, List.nil_append]) rfl

/-- A record is the record of a row: it has the row's id as its key and the row's envelope as its value. -/
theorem Fed.row_of_record (h : w.Fed) {r : BrokerRecord} (hr : r ∈ w.system.broker.records) :
    ∃ row ∈ w.system.database.outbox, r = .ofEvent r.topic row.event := by
  obtain ⟨topic, e, rfl, he⟩ := h.records r hr
  obtain ⟨row, hrow, hsame⟩ := List.mem_map.mp he
  refine ⟨row, hrow, ?_⟩
  -- an envelope does not tell whether its event was published
  show BrokerRecord.ofEvent topic e.asWritten = .ofEvent topic row.event.asWritten
  rw [hsame]

/-- Where ids are distinct, a record with the id of a row is the record of that row. -/
theorem Fed.record_of_key (h : w.Fed) (hids : (w.system.database.outbox.map (·.event.id)).Nodup)
    {row : OutboxRow} (hrow : row ∈ w.system.database.outbox) {r : BrokerRecord}
    (hr : r ∈ w.system.broker.records) (hkey : r.key = row.event.id.text) : r = .ofEvent r.topic row.event := by
  obtain ⟨other, hother, heq⟩ := h.row_of_record hr
  rw [heq] at hkey
  rwa [List.inj_on_of_nodup_map hids hother hrow (Uuid.text_inj hkey)] at heq

/-- Where ids are distinct, records of one key have one value. -/
theorem Fed.value_unique (h : w.Fed) (hids : (w.system.database.outbox.map (·.event.id)).Nodup)
    {r r' : BrokerRecord} (hr : r ∈ w.system.broker.records) (hr' : r' ∈ w.system.broker.records)
    (hkey : r.key = r'.key) : r.value = r'.value := by
  obtain ⟨row, hrow, heq⟩ := h.row_of_record hr
  rw [heq] at hkey
  rw [heq, h.record_of_key hids hrow hr' hkey.symm]
  rfl

/-- **Nothing is marked that was not sent, and nothing is sent that was not committed.** In every run from a
system that has sent nothing, whatever fails and wherever pollers are dropped, every event that is marked
published has a record; and every record was sent under the topic of a tick, with the id of an outbox row as its
key and the envelope of that row as its value. Where no id was drawn twice, all records of one event have one
value. -/
theorem records_of_committed_events {as : List Action} (hs : s.IsUnsent)
    (hmarks : (opening s).MarksSent as) (hrun : (opening s).run as = some w) :
    (∀ row ∈ w.system.database.outbox, row.event.publishedAt.isSome = true →
      ∃ r ∈ w.system.broker.records, r.key = row.event.id.text) ∧
    (∀ r ∈ w.system.broker.records, (∃ t ∈ w.ticks, r.topic = t.topic) ∧
      ∃ row ∈ w.system.database.outbox, r.key = row.event.id.text ∧
        r.value = (Envelope.make row.event.type row.event.id row.event.timestamp row.event.payload).encode) ∧
    ((s.database.outbox.map (·.event.id) ++ w.drawn).Nodup → ∀ r ∈ w.system.broker.records,
      ∀ r' ∈ w.system.broker.records, r.key = r'.key →
        r.value = r'.value ∧ (r.topic = r'.topic → r = r')) := by
  have hrelayed := relayed_run hs hmarks hrun
  have hfed := fed_run hs hrun
  refine ⟨fun row hrow hpublished => ?_, fun r hr => ⟨?_, ?_⟩, fun hids r hr r' hr' hkey => ?_⟩
  · apply hrelayed.published row hrow
    rw [OutboxEvent.isPending, Option.isNone_eq_false_iff]
    exact hpublished
  · obtain ⟨t, ht, htopic⟩ := List.mem_map.mp (hrelayed.topics r hr)
    exact ⟨t, ht, htopic.symm⟩
  · obtain ⟨row, hrow, heq⟩ := hfed.row_of_record hr
    exact ⟨row, hrow, heq ▸ rfl, heq ▸ rfl⟩
  · have hdistinct : (w.system.database.outbox.map (·.event.id)).Nodup := by
      apply (tallied_run hs.detached hrun).nodup_ids
      rwa [Database.written, List.map_map]
    have hvalue := hfed.value_unique hdistinct hr hr' hkey
    refine ⟨hvalue, fun htopic => ?_⟩
    cases r
    cases r'
    simp only at hkey hvalue htopic
    rw [hkey, hvalue, htopic]

/-- A run with one mark by hand marks only what was sent if that event was sent. -/
theorem marksSent_of_one {before after : List Action} {id : Uuid} (hbefore : ∀ other, .mark other ∉ before)
    (hafter : ∀ other, .mark other ∉ after)
    (h : ∀ now, w.run before = some now → now.IsMarking id) : w.MarksSent (before ++ .mark id :: after) := by
  intro others other rest now heq hrun
  rcases List.append_eq_append_iff.mp heq with ⟨between, hothers, hrest⟩ | ⟨between, hothers, hrest⟩
  · cases between with
    | nil =>
      rw [List.append_nil] at hothers
      obtain ⟨hid, -⟩ := List.cons.inj hrest
      rw [hothers] at hrun
      exact Action.mark.inj hid ▸ h now hrun
    | cons a between =>
      have hin : Action.mark other ∈ after := by
        rw [(List.cons.inj hrest).2]
        exact List.mem_append_right _ List.mem_cons_self
      exact absurd hin (hafter other)
  · cases between with
    | nil =>
      rw [List.append_nil] at hothers
      obtain ⟨hid, -⟩ := List.cons.inj hrest
      rw [← hothers] at hrun
      exact Action.mark.inj hid ▸ h now hrun
    | cons a between =>
      obtain ⟨rfl, -⟩ := List.cons.inj hrest
      refine absurd ?_ (hbefore other)
      rw [hothers]
      exact List.mem_append_right _ List.mem_cons_self

/-- A tick sends the event of a payment and is dropped, and another tick sends that of a second payment and
marks it. When the claim on the first event is over a third tick sends it again. -/
def resentRun : List Action :=
  accepted (sampleCommand "k") (.ofNat 1) (.ofNat 11) ++
    [.startTick "payments" 10, .tick 0 .fetch, .tick 0 .publish, .tick 0 .drop] ++
    accepted (sampleCommand "l") (.ofNat 2) (.ofNat 12) ++
    [.startTick "payments" 10, .tick 1 .fetch, .tick 1 .publish, .tick 1 .mark, .advance 31000000000,
      .startTick "payments" 10, .tick 2 .fetch, .tick 2 .publish]

/-- One event sent twice in the same words and one sent once. The mark of the first takes effect although the
tick is told that it failed. -/
theorem records_of_committed_events_of_two :
    ∃ w, (opening sampleSystem).run (resentRun ++ .mark (.ofNat 11) :: [.tick 2 .markFails]) = some w ∧
      w.system.broker.records.map (·.key) = [.ofNat 11, .ofNat 12, .ofNat 11].map Uuid.text ∧
      w.system.database.outbox.map (·.event.isPending) = [false, false] ∧
      ∀ r ∈ w.system.broker.records, ∀ r' ∈ w.system.broker.records, r.key = r'.key → r.value = r'.value := by
  have hmarks : (opening sampleSystem).MarksSent (resentRun ++ .mark (.ofNat 11) :: [.tick 2 .markFails]) := by
    refine marksSent_of_one (by simp [resentRun, accepted]) (by simp) fun now hnow => ?_
    have hread : ((opening sampleSystem).run resentRun).map (fun w =>
        w.ticks.map fun t => match t.progress with
          | .marking e _ => some e.id
          | _ => none) = some [none, none, some (.ofNat 11)] := by decide +kernel
    have hticks := read_run hnow hread
    have hmarking : some (.ofNat 11) ∈ [none, none, some (Uuid.ofNat 11)] := List.mem_of_getElem? (i := 2) rfl
    rw [← hticks] at hmarking
    obtain ⟨t, ht, hid⟩ := List.mem_map.mp hmarking
    split at hid
    next e rest hmarking => exact ⟨t, ht, e, rest, hmarking, Option.some.inj hid⟩
    next => cases hid
  have hread : ((opening sampleSystem).run (resentRun ++ .mark (.ofNat 11) :: [.tick 2 .markFails])).map
      (fun w => (w.drawn, w.system.broker.records.map (·.key),
        w.system.database.outbox.map (·.event.isPending))) =
        some ([.ofNat 11, .ofNat 12], [.ofNat 11, .ofNat 12, .ofNat 11].map Uuid.text, [false, false]) := by
    decide +kernel
  obtain ⟨w, hrun, hworld⟩ := Option.map_eq_some_iff.mp hread
  simp only [Prod.mk.injEq] at hworld
  obtain ⟨hdrawn, hkeys, hpending⟩ := hworld
  obtain ⟨-, -, hsame⟩ := records_of_committed_events ⟨fun _ hr => absurd hr List.not_mem_nil, rfl, rfl⟩ hmarks hrun
  refine ⟨w, hrun, hkeys, hpending, fun r hr r' hr' hkey => ?_⟩
  exact (hsame (by rw [hdrawn]; decide) r hr r' hr' hkey).1

end World

end PaymentRelay
