import PaymentRelay.Proofs.World.Batch
import PaymentRelay.Proofs.World.Touch

/-!
# An outbox that recovers

A run may have left an outbox in any state: with claims of pollers that are gone, with events that were sent and not
marked, with batches half worked off. Once the claims that are left are over, all of that is gone: what is still to be
sent stands in one line again (`System.Queued`), and a poller whose calls succeed goes through that line, batch after
batch.

`Recovering` is what its steps keep, with the number of ticks that it has ended: so many batches are off the head of
the line, and the records are those of before and those of these batches. The tick under way, if there is one, works
on the next batch. A run of any length follows from it (`outbox_recovers`).
-/

namespace PaymentRelay

/-- What a poller sets out to do: how many ticks there were before its own, where it sends to and how many events it
claims at most, the line that it is to work off, and the records that are there. -/
structure Recovery where
  first : Nat
  topic : String
  batch : Nat
  line : List OutboxEvent
  records : List BrokerRecord

namespace Recovery

/-! ## What so many ticks do -/

/-- The line after so many ticks. -/
def lineAfter (r : Recovery) (k : Nat) : List OutboxEvent :=
  r.line.drop (k * r.batch)

/-- The records after so many ticks. -/
def recordsAfter (r : Recovery) (k : Nat) : List BrokerRecord :=
  r.records ++ (r.line.take (k * r.batch)).map (.ofEvent r.topic)

/-- What a tick reports that has so many before it. -/
def reportAfter (r : Recovery) (k : Nat) : TickReport :=
  ⟨min r.batch (r.line.length - k * r.batch), min r.batch (r.line.length - k * r.batch), 0⟩

variable (r : Recovery) (k : Nat)

theorem lineAfter_zero : r.lineAfter 0 = r.line := by
  rw [lineAfter, Nat.zero_mul, List.drop_zero]

theorem recordsAfter_zero : r.recordsAfter 0 = r.records := by
  rw [recordsAfter, Nat.zero_mul, List.take_zero, List.map_nil, List.append_nil]

theorem lineAfter_succ : r.lineAfter (k + 1) = (r.lineAfter k).drop r.batch := by
  rw [lineAfter, lineAfter, List.drop_drop, Nat.succ_mul]

theorem recordsAfter_succ :
    r.recordsAfter (k + 1) = r.recordsAfter k ++ ((r.lineAfter k).take r.batch).map (.ofEvent r.topic) := by
  rw [recordsAfter, recordsAfter, lineAfter, Nat.succ_mul, List.take_add, List.map_append, List.append_assoc]

theorem reportAfter_eq :
    r.reportAfter k = ⟨((r.lineAfter k).take r.batch).length, ((r.lineAfter k).take r.batch).length, 0⟩ := by
  rw [reportAfter, lineAfter, List.length_take, List.length_drop]

end Recovery

namespace World

variable {w w' : World} {s : System} {as : List Action} {a : Action} {r : Recovery} {k first batch place : Nat}
  {topic : String} {t t' : Tick} {m : Tick.Move}

/-! ## One poller at a time -/

/-- All ticks from a place on have ended. -/
def EndedFrom (first : Nat) (w : World) : Prop :=
  ∀ t ∈ w.ticks.drop first, t.progress = .ended

instance (first : Nat) (w : World) : Decidable (w.EndedFrom first) :=
  inferInstanceAs (Decidable (∀ t ∈ w.ticks.drop first, t.progress = .ended))

/-- Whether an action is one of a poller whose ticks stand from a place on and whose calls succeed, or leaves the
outbox to it. -/
def Action.leavesTo (first : Nat) (topic : String) (batch : Nat) : Action → Bool
  | .startTick topic' batch' => topic' == topic && batch' == batch
  | .tick place m => decide (first ≤ place) && m.succeeds
  | .fetch _ | .mark _ | .unclaim _ => false
  | _ => true

/-- Whether an action begins a tick. -/
def Action.isStart : Action → Bool
  | .startTick .. => true
  | _ => false

/-- One poller acts alone and its calls succeed. It begins a tick when it has ended the one before, and the calendar
always reaches as far as a claim. -/
structure OnlyPoller (first : Nat) (topic : String) (batch : Nat) (w : World) (as : List Action) : Prop where
  calls : ∀ a ∈ as, a.leavesTo first topic batch = true
  inTurn : ∀ before after, as = before ++ .startTick topic batch :: after →
    ∀ now, w.run before = some now → now.EndedFrom first
  fits : ∀ before, before <+: as → ∀ now, w.run before = some now →
    (now.system.now.add? now.system.database.lease).isSome = true

/-- A run of one poller goes on as one. -/
theorem OnlyPoller.tail (h : w.OnlyPoller first topic batch (a :: as)) (hstep : w.step a = some w') :
    w'.OnlyPoller first topic batch as := by
  have hrun : ∀ before, w.run (a :: before) = w'.run before := by
    intro before
    rw [run, hstep, Option.bind_some]
  constructor
  case calls => exact (List.forall_mem_cons.mp h.calls).2
  case inTurn =>
    intro before after has now hnow
    apply h.inTurn (a :: before) after _ now
    · rwa [hrun]
    · rw [has, List.cons_append]
  case fits =>
    intro before hbefore now hnow
    apply h.fits (a :: before) (List.cons_prefix_cons.mpr ⟨rfl, hbefore⟩) now
    rwa [hrun]

/-! ## How far it is -/

/-- So many ticks have ended, and each has reported what it should. -/
def HasReported (r : Recovery) (k : Nat) (w : World) : Prop :=
  ∀ i < k, ∃ t, w.ticks[r.first + i]? = some t ∧ t.progress = .ended ∧ t.report = r.reportAfter i

/-- Reports stay while the ticks do. -/
theorem HasReported.of_same (h : w.HasReported r k)
    (hsame : ∀ i < k, w'.ticks[r.first + i]? = w.ticks[r.first + i]?) : w'.HasReported r k := by
  intro i hi
  rw [hsame i hi]
  exact h i hi

/-- A tick of the poller that has not ended comes after those that have. -/
theorem HasReported.le_place (h : w.HasReported r k) (hfirst : r.first ≤ place) (ht : w.ticks[place]? = some t)
    (hunderWay : t.progress.IsUnderWay) : r.first + k ≤ place := by
  apply Nat.le_of_not_lt
  intro hlt
  obtain ⟨u, hu, hended, -⟩ := h (place - r.first) (by omega)
  rw [Nat.add_sub_cancel' hfirst, ht] at hu
  cases hu
  rw [hended] at hunderWay
  exact hunderWay

/-- So many ticks have ended and no other has begun. -/
structure Settled (r : Recovery) (k : Nat) (w : World) : Prop where
  length : w.ticks.length = r.first + k
  reports : w.HasReported r k
  line : w.system.Queued [] (r.lineAfter k)
  records : w.system.broker.records = r.recordsAfter k

/-- So many ticks have ended and the next one works on its batch, or has ended too. -/
structure UnderWay (r : Recovery) (k : Nat) (t : Tick) (w : World) : Prop where
  length : w.ticks.length = r.first + k + 1
  reports : w.HasReported r k
  tick : w.ticks[r.first + k]? = some t
  working : t.Working r.topic r.batch (r.lineAfter k) (r.recordsAfter k) w.system

/-- How far the poller is. -/
inductive Recovering (r : Recovery) (w : World) : Prop
  | settled (k : Nat) (h : w.Settled r k)
  | underWay (k : Nat) (t : Tick) (h : w.UnderWay r k t)

/-- The ticks of the poller are those that have ended. -/
theorem Settled.ended (h : w.Settled r k) : w.EndedFrom r.first := by
  intro t ht
  obtain ⟨i, hi⟩ := List.mem_iff_getElem?.mp ht
  rw [List.getElem?_drop] at hi
  have hlt := (List.getElem?_eq_some_iff.mp hi).1
  obtain ⟨u, hu, hended, -⟩ := h.reports i (by rw [h.length] at hlt; omega)
  rw [hi] at hu
  cases hu
  exact hended

/-- Where the last tick has ended too, one more has. -/
theorem UnderWay.settled (h : w.UnderWay r k t) (hended : t.progress = .ended) : w.Settled r (k + 1) := by
  obtain ⟨hreport, hline, hrecords⟩ := h.working.ended hended
  constructor
  case length => exact h.length
  case reports =>
    intro i hi
    rcases Nat.lt_succ_iff_lt_or_eq.mp hi with hi | rfl
    · exact h.reports i hi
    · exact ⟨t, h.tick, hended, hreport.trans (r.reportAfter_eq i).symm⟩
  case line => rwa [r.lineAfter_succ]
  case records => rwa [r.recordsAfter_succ]

/-- Where all ticks of the poller have ended, as many have ended as have begun. -/
theorem Recovering.settle (h : w.Recovering r) (hended : w.EndedFrom r.first) : ∃ k, w.Settled r k := by
  cases h with
  | settled k h => exact ⟨k, h⟩
  | underWay k t h =>
    refine ⟨k + 1, h.settled (hended t ?_)⟩
    apply List.mem_of_getElem? (i := k)
    rw [List.getElem?_drop, h.tick]

/-- A tick that has ended has reported its batch as it should. -/
theorem Recovering.report (h : w.Recovering r) (ht : w.ticks[r.first + k]? = some t) (hended : t.progress = .ended) :
    t.report = r.reportAfter k := by
  have hlt := (List.getElem?_eq_some_iff.mp ht).1
  have of_reported : ∀ {n}, w.HasReported r n → k < n → t.report = r.reportAfter k := by
    intro n h hk
    obtain ⟨u, hu, -, hreport⟩ := h k hk
    rw [ht] at hu
    cases hu
    exact hreport
  cases h with
  | settled n h =>
    rw [h.length] at hlt
    exact of_reported h.reports (Nat.lt_of_add_lt_add_left hlt)
  | underWay n u h =>
    rw [h.length, Nat.add_assoc] at hlt
    rcases Nat.lt_succ_iff_lt_or_eq.mp (Nat.lt_of_add_lt_add_left hlt) with hk | rfl
    · exact of_reported h.reports hk
    · obtain rfl : t = u := Option.some.inj (ht.symm.trans h.tick)
      exact of_reported (h.settled hended).reports (Nat.lt_succ_self k)

/-! ## Steps -/

/-- A call of the last tick that succeeds takes it on. -/
theorem UnderWay.step (h : w.UnderWay r k t) (htick : t.Transition w.system m t' s) (hm : m.succeeds = true)
    (hfits : (w.system.now.add? w.system.database.lease).isSome = true) :
    UnderWay r k t' { w with system := s, ticks := w.ticks.set (r.first + k) t' } := by
  obtain ⟨hlt, -⟩ := List.getElem?_eq_some_iff.mp h.tick
  constructor
  case length => exact (List.length_set ..).trans h.length
  case reports =>
    refine h.reports.of_same fun i hi => List.getElem?_set_ne ?_
    omega
  case tick => exact List.getElem?_set_self hlt
  case working => exact h.working.step htick hm hfits

/-- A call of the poller that succeeds takes it on. -/
theorem Recovering.tick (h : w.Recovering r) (hfirst : r.first ≤ place) (ht : w.ticks[place]? = some t)
    (htick : t.Transition w.system m t' s) (hm : m.succeeds = true)
    (hfits : (w.system.now.add? w.system.database.lease).isSome = true) :
    Recovering r { w with system := s, ticks := w.ticks.set place t' } := by
  have hlt := (List.getElem?_eq_some_iff.mp ht).1
  cases h with
  | settled k h =>
    have hplace := h.reports.le_place hfirst ht htick.underWay
    rw [h.length] at hlt
    exact absurd hplace (Nat.not_le_of_lt hlt)
  | underWay k u h =>
    -- the tick that takes a step is the last one
    have hplace := h.reports.le_place hfirst ht htick.underWay
    rw [h.length] at hlt
    obtain rfl : place = r.first + k := Nat.le_antisymm (Nat.le_of_lt_succ hlt) hplace
    obtain rfl : t = u := Option.some.inj (ht.symm.trans h.tick)
    exact .underWay k t' (h.step htick hm hfits)

/-- A tick that begins has the rest of the line before it. -/
theorem Settled.start (h : w.Settled r k) :
    UnderWay r k (.start r.topic r.batch) { w with ticks := w.ticks ++ [.start r.topic r.batch] } := by
  constructor
  case length => rw [List.length_append, h.length, List.length_singleton]
  case reports =>
    refine h.reports.of_same fun i hi => List.getElem?_append_left ?_
    rw [h.length]
    omega
  case tick => rw [← h.length, List.getElem?_concat_length]
  case working => exact .fetching rfl h.line h.records

/-- **The poller goes on, step by step.** -/
theorem Recovering.step {written : List OutboxEvent} (h : w.Recovering r) (hw : w.Tallied written)
    (ha : a.leavesTo r.first r.topic r.batch = true)
    (hturn : a = .startTick r.topic r.batch → w.EndedFrom r.first)
    (hfits : (w.system.now.add? w.system.database.lease).isSome = true)
    (hpayments : w'.system.database.payments = w.system.database.payments) (hstep : w.step a = some w') :
    w'.Recovering r := by
  cases hw.relay_of_step hstep with
  | ticks place m t t' s ht htick =>
    rw [Action.leavesTo, Bool.and_eq_true, decide_eq_true_eq] at ha
    exact h.tick ha.1 ht htick ha.2 hfits
  | starts topic batch =>
    rw [Action.leavesTo, Bool.and_eq_true, beq_iff_eq, beq_iff_eq] at ha
    obtain ⟨rfl, rfl⟩ := ha
    obtain ⟨k, h⟩ := h.settle (hturn rfl)
    exact .underWay k _ h.start
  | fetches | marks | unclaims => cases ha
  | commits a w' c id now hdb hbroker hticks =>
    rw [hdb] at hpayments
    exact absurd (List.append_right_eq_self.mp hpayments) (List.cons_ne_nil _ _)
  | aside a w' hdb hbroker hticks =>
    have hstart := start_of_step hstep
    have hlater := elapsed_le_of_step hstep
    have hreports : ∀ {k}, w.HasReported r k → w'.HasReported r k := fun h => h.of_same fun i _ => by rw [hticks]
    cases h with
    | settled k h =>
      exact .settled k ⟨hticks ▸ h.length, hreports h.reports, h.line.of_same hdb hstart hlater, hbroker ▸ h.records⟩
    | underWay k t h =>
      exact .underWay k t
        ⟨hticks ▸ h.length, hreports h.reports, hticks ▸ h.tick, h.working.of_same hdb hbroker hstart hlater⟩

/-! ## Runs -/

/-- Where the claims that are left are over, everything that is still to be sent stands in one line. -/
theorem queued_of_claims_over (hids : (w.system.database.outbox.map (·.event.id)).Nodup)
    (hclaims : ∀ row ∈ w.system.database.outbox, ∀ last, row.lockedUntil = some last → last < w.system.now) :
    w.system.Queued [] (w.system.database.pending.mergeSort OutboxEvent.before) := by
  constructor
  case ids => exact hids
  case pending => exact List.mergeSort_perm _ _
  case ordered => exact OutboxEvent.pairwise_mergeSort _
  case claimable =>
    intro row hrow hpending _
    rw [OutboxRow.isClaimable, hpending, Bool.true_and]
    cases hlocked : row.lockedUntil with
    | none => rfl
    | some last => exact decide_eq_true (hclaims row hrow last hlocked)

/-- The poller goes on throughout a run in which nothing is paid. -/
theorem recovering_run {written : List OutboxEvent} (hw : w.Tallied written) (h : w.Recovering r)
    (hpoller : w.OnlyPoller r.first r.topic r.batch as) (hrun : w.run as = some w')
    (hpayments : w.system.database.payments = w'.system.database.payments) : w'.Recovering r := by
  refine (run_keeps (P := fun now rest => now.Tallied written ∧ now.Recovering r ∧
    now.OnlyPoller r.first r.topic r.batch rest ∧ now.run rest = some w' ∧
      now.system.database.payments = w'.system.database.payments) ?_ ⟨hw, h, hpoller, hrun, hpayments⟩ hrun).2.1
  intro now a rest next ⟨hnow, hrecovering, hpoller, hrest, hsame⟩ hstep
  have hnext := hnow.payments_same hstep (run_tail hstep hrest) hsame
  refine ⟨hnow.step hstep, ?_, hpoller.tail hstep, run_tail hstep hrest, hnext.trans hsame⟩
  apply hrecovering.step hnow (hpoller.calls a List.mem_cons_self) _ _ hnext hstep
  · rintro rfl
    exact hpoller.inTurn [] rest rfl now rfl
  · exact hpoller.fits [] List.nil_prefix now rfl

/-- **The tick under way can be brought to its end**, by its own calls alone. -/
theorem UnderWay.exists_run (h : w.UnderWay r k t)
    (hfits : (w.system.now.add? w.system.database.lease).isSome = true) :
    ∃ as w' t', (∀ a ∈ as, ∃ m, m.succeeds = true ∧ a = .tick (r.first + k) m) ∧ w.run as = some w' ∧
      w'.UnderWay r k t' ∧ t'.progress = .ended := by
  -- every call leaves fewer calls to make
  induction hleft : Tick.callsLeft ((r.lineAfter k).take r.batch).length t.progress
    using Nat.strong_induction_on generalizing w t with
  | _ left ih =>
    by_cases hended : t.progress = .ended
    · exact ⟨[], w, t, nofun, rfl, h, hended⟩
    · obtain ⟨m, t', s, hm, hmove, hless⟩ := h.working.exists_move hended hfits
      have htick := Tick.transition_of_step hmove
      have hstep : w.step (.tick (r.first + k) m) =
          some { w with system := s, ticks := w.ticks.set (r.first + k) t' } := by
        simp only [World.step, h.tick, hmove, Option.bind_some, Option.pure_def, Option.bind_eq_bind]
      have hfits' : (s.now.add? s.database.lease).isSome = true := htick.last_eq ▸ hfits
      obtain ⟨as, w', u, hcalls, hrun, hunderWay, hdone⟩ :=
        ih _ (hleft ▸ hless) (h.step htick hm hfits) hfits' rfl
      refine ⟨.tick (r.first + k) m :: as, w', u, ?_, ?_, hunderWay, hdone⟩
      · exact List.forall_mem_cons.mpr ⟨⟨m, hm, rfl⟩, hcalls⟩
      · rw [run, hstep, Option.bind_some, hrun]

/-- Whatever the poller has under way can be brought to its end by that tick's own calls. -/
theorem Recovering.exists_run (h : w.Recovering r)
    (hfits : (w.system.now.add? w.system.database.lease).isSome = true) :
    ∃ as w', (∀ a ∈ as, ∃ m, m.succeeds = true ∧ a = .tick (w.ticks.length - 1) m) ∧ w.run as = some w' ∧
      w'.ticks.length = w.ticks.length ∧ w'.EndedFrom r.first := by
  cases h with
  | settled k h => exact ⟨[], w, nofun, rfl, rfl, h.ended⟩
  | underWay k t h =>
    obtain ⟨as, w', t', hcalls, hrun, hunderWay, hended⟩ := h.exists_run hfits
    refine ⟨as, w', ?_, hrun, hunderWay.length.trans h.length.symm, (hunderWay.settled hended).ended⟩
    rwa [h.length, Nat.add_sub_cancel]

/-- **Every outbox recovers.** Take any run, with whatever faults and with pollers that went away between any two of
their steps, after which the ids of events are distinct and all claims that are left are over. Then let one poller with
a batch of at least one act alone, with calls that succeed, while nothing is paid. What was still to be sent is one
line, by age and then by id, and each tick that ends reports the next batch of it as fetched and published, and none as
failed. Where all its ticks have ended, their records are those of their batches, in the order of the line and each
with the id of its event as its key, and the rest of the line is still to be sent. So when there were enough ticks for
the line, nothing is, and every event of it has been sent once. And a tick under way can always be brought to its end. -/
theorem outbox_recovers {bs : List Action} (hdetached : s.detached = []) (hrun : (opening s).run as = some w)
    (hids : (w.system.database.outbox.map (·.event.id)).Nodup)
    (hclaims : ∀ row ∈ w.system.database.outbox, ∀ last, row.lockedUntil = some last → last < w.system.now)
    (hbatch : 0 < batch) (hpoller : w.OnlyPoller w.ticks.length topic batch bs) (hrecovery : w.run bs = some w')
    (hpayments : w'.system.database.payments = w.system.database.payments) :
    (∃ line : List OutboxEvent, line.Perm w.system.database.pending ∧ line.Pairwise (·.before · = true) ∧
      (∀ k t, w'.ticks[w.ticks.length + k]? = some t → t.progress = .ended →
        t.report = ⟨min batch (line.length - k * batch), min batch (line.length - k * batch), 0⟩) ∧
      (w'.EndedFrom w.ticks.length → ∃ k, w'.ticks.length = w.ticks.length + k ∧
        w'.system.broker.records = w.system.broker.records ++ (line.take (k * batch)).map (.ofEvent topic) ∧
        (w'.system.broker.records.drop w.system.broker.records.length).map (·.key) =
          (line.take (k * batch)).map (·.id.text) ∧
        (line.drop (k * batch)).Perm w'.system.database.pending ∧
        ((line.length + batch - 1) / batch ≤ k → w'.system.database.pending = [] ∧
          w'.system.broker.records = w.system.broker.records ++ line.map (.ofEvent topic) ∧
          (w'.system.broker.records.drop w.system.broker.records.length).map (·.key) = line.map (·.id.text)))) ∧
    ∃ cs w'', (∀ a ∈ cs, ∃ m, m.succeeds = true ∧ a = .tick (w'.ticks.length - 1) m) ∧ w'.run cs = some w'' ∧
      w''.ticks.length = w'.ticks.length ∧ w''.EndedFrom w.ticks.length := by
  have hqueued := queued_of_claims_over hids hclaims
  generalize w.system.database.pending.mergeSort OutboxEvent.before = line at hqueued
  have hbegins : w.Recovering ⟨w.ticks.length, topic, batch, line, w.system.broker.records⟩ := by
    refine .settled 0 ⟨rfl, nofun, ?_, ?_⟩
    · rwa [Recovery.lineAfter_zero]
    · rw [Recovery.recordsAfter_zero]
  have hrecovering := recovering_run (tallied_run hdetached hrun) hbegins hpoller hrecovery hpayments.symm
  refine ⟨⟨line, hqueued.pending, hqueued.ordered, fun k t ht hended => hrecovering.report ht hended, ?_⟩,
    hrecovering.exists_run (hpoller.fits bs (List.prefix_refl bs) w' hrecovery)⟩
  intro hended
  obtain ⟨k, hsettled⟩ := hrecovering.settle hended
  refine ⟨k, hsettled.length, hsettled.records, BrokerRecord.keys_of_sent hsettled.records,
    hsettled.line.pending, ?_⟩
  intro henough
  -- as many batches as that are the whole line
  have hall : line.length ≤ k * batch := by
    have hlt := (Nat.div_lt_iff_lt_mul hbatch).mp (Nat.lt_succ_of_le henough)
    rw [Nat.succ_mul] at hlt
    omega
  constructor
  · have hpending := hsettled.line.pending
    rw [List.nil_append, Recovery.lineAfter, List.drop_of_length_le hall] at hpending
    exact hpending.nil_eq.symm
  · have hrecords : w'.system.broker.records = w.system.broker.records ++ line.map (.ofEvent topic) := by
      rw [hsettled.records, Recovery.recordsAfter, List.take_of_length_le hall]
    exact ⟨hrecords, BrokerRecord.keys_of_sent hrecords⟩

/-- A poller claims two of three events, sends one of them and is gone; then its claim is over. -/
def abandonedRun : List Action :=
  [.startTick "payments" 2, .tick 0 .fetch, .tick 0 .publish, .tick 0 .drop, .advance 30000000001]

/-- Another poller with batches of two. -/
def recoveringRun : List Action :=
  [.startTick "payments" 2, .tick 1 .fetch, .tick 1 .publish, .tick 1 .mark, .advance 1, .tick 1 .publish,
    .tick 1 .mark, .startTick "payments" 2, .tick 2 .fetch, .tick 2 .publish, .tick 2 .mark]

/-- It takes its turns, and the calendar is far from its end. -/
theorem onlyPoller_recoveringRun (hrun : (opening queuedSystem).run abandonedRun = some w) :
    w.OnlyPoller 1 "payments" 2 recoveringRun := by
  have hall : (recoveringRun.inits.all fun before =>
      ((opening queuedSystem).run (abandonedRun ++ before)).all fun now =>
        (now.system.now.add? now.system.database.lease).isSome &&
          recoveringRun[before.length]?.all fun a => !a.isStart || decide (now.EndedFrom 1)) = true := by
    -- the order of the rows that are fetched has to be computed by recursion on lists
    rw [run_eq_foldlM]
    delta step Tick.step Database.fetch
    rw [Database.claimable_eq_insertionSort]
    rfl
  have hnow : ∀ before, before <+: recoveringRun → ∀ now, w.run before = some now →
      (now.system.now.add? now.system.database.lease).isSome = true ∧
        ∀ topic batch, recoveringRun[before.length]? = some (.startTick topic batch) → now.EndedFrom 1 := by
    intro before hbefore now hnow
    have hworld := List.all_eq_true.mp hall before ((List.mem_inits before recoveringRun).mpr hbefore)
    rw [run_append, hrun, Option.bind_some, hnow, Option.all_some, Bool.and_eq_true] at hworld
    refine ⟨hworld.1, fun topic batch hnext => ?_⟩
    rw [hnext, Option.all_some] at hworld
    exact of_decide_eq_true hworld.2
  constructor
  case calls => decide
  case inTurn =>
    intro before after has now hrun'
    apply (hnow before ⟨_, has.symm⟩ now hrun').2 "payments" 2
    rw [has, List.getElem?_append_right (Nat.le_refl _), Nat.sub_self, List.getElem?_cons_zero]
  case fits =>
    intro before hbefore now hrun'
    exact (hnow before hbefore now hrun').1

/-- Three events in two batches. The one that had a record has a second one then. -/
theorem outbox_recovers_of_abandoned :
    ∃ w w', (opening queuedSystem).run abandonedRun = some w ∧ w.run recoveringRun = some w' ∧
      w.system.broker.records.length = 1 ∧ w'.system.broker.records.length = 4 ∧ w'.system.database.pending = [] ∧
      ∃ line : List OutboxEvent, line.Perm w.system.database.pending ∧ line.Pairwise (·.before · = true) ∧
        w'.system.broker.records = w.system.broker.records ++ line.map (.ofEvent "payments") ∧
        (w'.system.broker.records.drop w.system.broker.records.length).map (·.key) = line.map (·.id.text) := by
  obtain ⟨hread, hread'⟩ : ((opening queuedSystem).run abandonedRun).map (fun w => (w.ticks.length,
        decide (w.system.database.outbox.map (·.event.id)).Nodup,
        w.system.database.outbox.all fun r => r.lockedUntil.all fun last => decide (last < w.system.now),
        w.system.broker.records.length, w.system.database.pending.length, w.system.database.payments.length)) =
        some (1, true, true, 1, 3, 0) ∧
      ((opening queuedSystem).run (abandonedRun ++ recoveringRun)).map (fun w => (w.ticks.length,
        decide (w.EndedFrom 1), w.system.broker.records.length, w.system.database.payments.length)) =
        some (3, true, 4, 0) := by
    rw [run_eq_foldlM]
    delta step Tick.step Database.fetch
    rw [Database.claimable_eq_insertionSort]
    exact ⟨rfl, rfl⟩
  obtain ⟨w, hrun, hworld⟩ := Option.map_eq_some_iff.mp hread
  simp only [Prod.mk.injEq] at hworld
  obtain ⟨hticks, hids, hclaims, hrecords, hthree, hpaid⟩ := hworld
  rw [run_append, hrun, Option.bind_some] at hread'
  obtain ⟨w', hrecovery, hworld'⟩ := Option.map_eq_some_iff.mp hread'
  simp only [Prod.mk.injEq] at hworld'
  obtain ⟨hticks', hended, hrecords', hpaid'⟩ := hworld'
  have hpoller : w.OnlyPoller w.ticks.length "payments" 2 recoveringRun := hticks ▸ onlyPoller_recoveringRun hrun
  have hover : ∀ row ∈ w.system.database.outbox, ∀ last, row.lockedUntil = some last → last < w.system.now := by
    intro row hrow last hlast
    have hrow := List.all_eq_true.mp hclaims row hrow
    rw [hlast] at hrow
    exact of_decide_eq_true hrow
  have hpayments : w'.system.database.payments = w.system.database.payments := by
    rw [List.eq_nil_of_length_eq_zero hpaid, List.eq_nil_of_length_eq_zero hpaid']
  obtain ⟨⟨line, hperm, hordered, -, hdone⟩, -⟩ :=
    outbox_recovers rfl hrun (of_decide_eq_true hids) hover (by decide) hpoller hrecovery hpayments
  obtain ⟨k, hk, -, -, -, henough⟩ := hdone (hticks ▸ of_decide_eq_true hended)
  obtain rfl : k = 2 := by omega
  obtain ⟨hpending, hsent, hkeys⟩ := henough (by rw [hperm.length_eq, hthree])
  exact ⟨w, w', hrun, hrecovery, hrecords, hrecords', hpending, line, hperm, hordered, hsent, hkeys⟩

end World

end PaymentRelay
