import Mathlib.Data.List.Perm.Basic
import PaymentRelay.Proofs.World.Change

/-!
# Rows on their way

A transaction on its way to its commit, be it in the hands of a command or left to the system, has one
payment and the event of it, so a commit adds both rows or none (`Tallied.adds`).

That no two rows have one id is a count (`tally`): an id is in the outbox, in transactions on their way
and in the hands of commands no more often, taken together, than it was drawn, if what stood in the outbox
from the beginning is counted as drawn. Ids are drawn new, so none is there twice.
-/

namespace PaymentRelay

/-- The release of an orphan changes neither the tables nor the commits on their way. -/
theorem System.finishOrphan_keeps {s : System} {place : Nat} {o : Orphan} (ho : s.orphans[place]? = some o)
    (isReleased : Bool) : (s.finishOrphan place isReleased).database = s.database ∧
      (s.finishOrphan place isReleased).detached = s.detached := by
  simp only [System.finishOrphan, ho]
  cases isReleased <;> exact ⟨rfl, rfl⟩

/-! ## Ids -/

namespace Party

/-- How often a command has the event of an id in hand: once or not at all. -/
def holds (id : Uuid) (p : Party) : Nat :=
  if p.progress.eventId? = some id then 1 else 0

/-- A command that has the event of an id in hand holds that id alone. -/
theorem holds_of_eventId {p : Party} {id : Uuid} (h : p.progress.eventId? = some id) (other : Uuid) :
    p.holds other = if id = other then 1 else 0 := by
  simp only [holds, h, Option.some.injEq]

theorem holds_of_none {p : Party} (h : p.progress.eventId? = none) (other : Uuid) :
    p.holds other = 0 := by
  simp only [holds, h, reduceCtorEq, if_false]

end Party

namespace World

/-- How often an id occurs among events. -/
def countId (id : Uuid) (events : List OutboxEvent) : Nat :=
  events.countP (·.id == id)

/-- The events of the commits on their way. -/
def onTheirWay (ds : List Detached) : List OutboxEvent :=
  ds.flatMap (·.transaction.events)

/-- How often an id is in use for an event. -/
def tally (w : World) (id : Uuid) : Nat :=
  countId id w.system.database.written + countId id (onTheirWay w.system.detached) +
    w.parties.total (Party.holds id)

theorem countId_ofCommand (c : PaymentCommand) (id other : Uuid) (now : Instant) :
    countId other (Transaction.ofCommand c id now).events = if id = other then 1 else 0 := by
  simp only [countId, Transaction.ofCommand, OutboxEvent.record, List.countP_cons, List.countP_nil,
    beq_iff_eq, Nat.zero_add]

theorem countId_commit (db : Database) (c : PaymentCommand) (id other : Uuid) (now : Instant) :
    countId other (db.commit (.ofCommand c id now)).written =
      countId other db.written + if id = other then 1 else 0 := by
  rw [Database.written_commit, countId, List.countP_append, ← countId_ofCommand c id other now]
  rfl

theorem countId_eraseIdx {ds : List Detached} {place : Nat} {d : Detached}
    (h : ds[place]? = some d) (id : Uuid) :
    countId id d.transaction.events + countId id (onTheirWay (ds.eraseIdx place)) =
      countId id (onTheirWay ds) := by
  obtain ⟨hlt, hd⟩ := List.getElem?_eq_some_iff.mp h
  have hperm := (List.getElem_cons_eraseIdx_perm hlt).flatMap_right (·.transaction.events)
  rw [hd, List.flatMap_cons] at hperm
  rw [countId, countId, ← List.countP_append]
  exact hperm.countP_eq _

theorem countId_onTheirWay_concat (id : Uuid) (ds : List Detached) (d : Detached) :
    countId id (onTheirWay (ds ++ [d])) =
      countId id (onTheirWay ds) + countId id d.transaction.events := by
  rw [onTheirWay, List.flatMap_append, countId, List.countP_append, List.flatMap_cons,
    List.flatMap_nil, List.append_nil]
  rfl

/-! ## The invariant -/

/-- Transactions on their way have both rows of a command, commands have their own rows in hand, and no id
is in use more often than it was drawn or stood in the outbox from the beginning. -/
structure Tallied (first : List OutboxEvent) (w : World) : Prop where
  detached : ∀ d ∈ w.system.detached, ∃ c id now, d.transaction = Transaction.ofCommand c id now
  carried : ∀ token p, w.parties.find? token = some p → p.progress.Carries p.command
  drawn : ∀ id, w.tally id ≤ countId id first + w.drawn.count id

variable {first : List OutboxEvent} {w w' : World} {token : Uuid} {c : PaymentCommand}

/-- Where outbox, transactions on their way, commands and drawn ids are the same, so is the tally. -/
theorem Tallied.of_same (h : w.Tallied first) (hparties : w'.parties = w.parties)
    (hdrawn : w'.drawn = w.drawn) (hwritten : w'.system.database.written = w.system.database.written)
    (hdetached : w'.system.detached = w.system.detached) : w'.Tallied first where
  detached := hdetached ▸ h.detached
  carried := hparties ▸ h.carried
  drawn id := by
    rw [tally, hwritten, hdetached, hparties, hdrawn]
    exact h.drawn id

/-- A command that enters has nothing in hand. -/
theorem Tallied.entered (h : w.Tallied first) (hnew : token ∉ w.tokens) :
    (w.entered c token).Tallied first where
  detached := h.detached
  carried t q hq := by
    rcases find?_entered hq with ⟨-, rfl⟩ | ⟨-, hold⟩
    · intro id hid
      cases hid
    · exact h.carried t q hold
  drawn id := by
    have hno : w.parties.find? token = none := Option.eq_none_iff_forall_ne_some.mpr fun q hq =>
      ne_of_new hnew hq rfl
    refine Nat.le_trans (Nat.le_of_eq ?_) (h.drawn id)
    rw [tally, tally, World.entered, Register.total_put_new hno]
    rfl

/-- Where an id that a step takes from one place comes to another, or was drawn in the step, it is in use
no more often than it was drawn. -/
theorem Tallied.drawn_moved (h : w.Tallied first) {p : Party} {progress : Progress} {s : System}
    (hp : w.parties.find? token = some p) (id : Uuid)
    (hle : countId id s.database.written + countId id (onTheirWay s.detached) +
        (p.advanced progress w.system.elapsed).holds id ≤
      countId id w.system.database.written + countId id (onTheirWay w.system.detached) + p.holds id +
        (p.progress.drawn progress).count id) :
    (w.moved token p progress s).tally id ≤
      countId id first + (w.moved token p progress s).drawn.count id := by
  have htotal := Register.total_put hp (Party.holds id) (p.advanced progress w.system.elapsed)
  have hold := h.drawn id
  rw [tally] at hold
  show countId id s.database.written + countId id (onTheirWay s.detached) +
    (w.parties.put token (p.advanced progress w.system.elapsed)).total (Party.holds id) ≤
      countId id first + (w.drawn ++ p.progress.drawn progress).count id
  rw [List.count_append]
  omega

/-- **A step of a command keeps the tally.** It draws an id, or hands its rows on, from itself to the system
or to the tables, or lets them go. -/
theorem Tallied.moved (h : w.Tallied first) {m : Job.Move} {p : Party} {progress : Progress} {s : System}
    (hp : w.parties.find? token = some p)
    (ht : Job.Transition p.command token w.system p.progress m progress s) :
    (w.moved token p progress s).Tallied first := by
  have hcarries := h.carried token p hp
  have hcarried : ∀ t q, (w.moved token p progress s).parties.find? t = some q →
      q.progress.Carries q.command := by
    intro t q hq
    rcases find?_moved hq with ⟨-, rfl⟩ | ⟨-, hold⟩
    · exact ht.carries hcarries
    · exact h.carried t q hold
  cases ht.effect hcarries with
  | none hdb hdetached hid =>
    -- the id in hand, if there is one, is let go or stays in hand
    refine ⟨hdetached ▸ h.detached, hcarried, fun id => h.drawn_moved hp id ?_⟩
    have hle : (p.advanced progress w.system.elapsed).holds id ≤ p.holds id := by
      unfold Party.holds
      split
      next hin => exact Nat.le_of_eq (if_pos (hid id hin)).symm
      next => exact Nat.zero_le _
    rw [hdb, hdetached]
    exact Nat.le_trans (Nat.add_le_add_left hle _) (Nat.le_add_right ..)
  | draws id hdrawn hnone hsome hdb hdetached =>
    -- one more id is in use, and one more was drawn
    refine ⟨hdetached ▸ h.detached, hcarried, fun other => h.drawn_moved hp other ?_⟩
    rw [hdb, hdetached, hdrawn, List.count_singleton, Party.holds_of_eventId hsome]
    simp only [beq_iff_eq]
    omega
  | commits id now hcommitting hnone hdb hdetached =>
    have hin : p.progress.eventId? = some id := by rw [hcommitting]; rfl
    refine ⟨hdetached ▸ h.detached, hcarried, fun other => h.drawn_moved hp other ?_⟩
    rw [hdb, hdetached, countId_commit, Party.holds_of_none hnone, Party.holds_of_eventId hin]
    omega
  | detaches id now hcommitting hnone hdb hdetached =>
    have hin : p.progress.eventId? = some id := by rw [hcommitting]; rfl
    refine ⟨fun d hd => ?_, hcarried, fun other => h.drawn_moved hp other ?_⟩
    · rcases List.mem_append.mp (hdetached ▸ hd) with hd | hd
      · exact h.detached d hd
      · exact ⟨p.command, id, now, List.mem_singleton.mp hd ▸ rfl⟩
    · rw [hdb, hdetached, countId_onTheirWay_concat, countId_ofCommand, Party.holds_of_none hnone,
        Party.holds_of_eventId hin]
      omega

/-- A commit on its way brings in an id that was counted already. -/
theorem Tallied.finishCommit (h : w.Tallied first) {place : Nat} {d : Detached}
    (hd : w.system.detached[place]? = some d) :
    (w.commitAs d.owner (w.system.finishCommit place)).Tallied first := by
  obtain ⟨c, id, now, hrows⟩ := h.detached d (List.mem_of_getElem? hd)
  have herase := countId_eraseIdx hd
  simp only [System.finishCommit, hd]
  refine ⟨fun d' hd' => h.detached d' (List.mem_of_mem_eraseIdx hd'), h.carried, fun other => ?_⟩
  refine Nat.le_trans ?_ (h.drawn other)
  show countId other (w.system.database.commit d.transaction).written +
    countId other (onTheirWay (w.system.detached.eraseIdx place)) +
      w.parties.total (Party.holds other) ≤ _
  -- what the commit adds to the table is what it was counted for on its way
  have hevents := countId_ofCommand c id other now
  rw [tally, ← herase other, hrows, countId_commit, hevents]
  omega

/-- **The tally is kept step by step.** -/
theorem Tallied.step {a : Action} (h : w.Tallied first) (hstep : w.step a = some w') :
    w'.Tallied first := by
  cases change_of_step hstep with
  | advance => exact h.of_same rfl rfl rfl rfl
  | enter c token hnew => exact h.entered hnew
  | move token m p progress s hp ht => exact h.moved hp ht
  | finishCommit place d hd => exact h.finishCommit hd
  | finishOrphan place isReleased o ho =>
    obtain ⟨hdb, hdetached⟩ := System.finishOrphan_keeps ho isReleased
    exact h.of_same rfl rfl (by rw [hdb]) hdetached
  | elsewhere a w' _ hparties _ hdrawn hsystem =>
    exact h.of_same hparties hdrawn hsystem.written hsystem.detached

/-! ## What comes in -/

/-- **Both rows or none.** Whatever happens, the tables stay as they are or grow by a payment and the event
of it. -/
theorem Tallied.adds {a : Action} (h : w.Tallied first) (hstep : w.step a = some w') :
    (w'.system.database.payments = w.system.database.payments ∧
      w'.system.database.written = w.system.database.written) ∨
    ∃ c id now, w'.system.database.payments = w.system.database.payments ++ [.ofCommand c now] ∧
      w'.system.database.written = w.system.database.written ++
        [.record (Payment.ofCommand c now).succeeded id now] := by
  have committed : ∀ c id now,
      (w.system.database.commit (.ofCommand c id now)).payments =
        w.system.database.payments ++ [.ofCommand c now] ∧
      (w.system.database.commit (.ofCommand c id now)).written =
        w.system.database.written ++ [.record (Payment.ofCommand c now).succeeded id now] :=
    fun c id now => ⟨rfl, Database.written_commit ..⟩
  cases change_of_step hstep with
  | advance | enter => exact .inl ⟨rfl, rfl⟩
  | move token m p progress s hp ht =>
    show (s.database.payments = _ ∧ s.database.written = _) ∨
      ∃ c id now, s.database.payments = _ ∧ s.database.written = _
    cases ht.effect (h.carried token p hp) with
    | none hdb | draws _ _ _ _ hdb | detaches _ _ _ _ hdb => exact .inl (hdb ▸ ⟨rfl, rfl⟩)
    | commits id now _ _ hdb => exact .inr ⟨p.command, id, now, hdb ▸ committed p.command id now⟩
  | finishCommit place d hd =>
    obtain ⟨c, id, now, hrows⟩ := h.detached d (List.mem_of_getElem? hd)
    refine .inr ⟨c, id, now, ?_⟩
    simp only [commitAs, System.finishCommit, hd, System.commit, hrows]
    exact committed c id now
  | finishOrphan place isReleased o ho =>
    simp only [System.finishOrphan, ho]
    cases isReleased <;> exact .inl ⟨rfl, rfl⟩
  | elsewhere a w' _ _ _ _ hsystem => exact .inl ⟨hsystem.payments, hsystem.written⟩

/-- What was written stays written. -/
theorem Tallied.written_mono {a : Action} (h : w.Tallied first) (hstep : w.step a = some w')
    {e : OutboxEvent} (he : e ∈ w.system.database.written) : e ∈ w'.system.database.written := by
  rcases h.adds hstep with ⟨-, hwritten⟩ | ⟨c, id, now, -, hwritten⟩
  · exact hwritten ▸ he
  · exact hwritten ▸ List.mem_append_left _ he

/-- What was paid stays paid. -/
theorem Tallied.payments_mono {a : Action} (h : w.Tallied first) (hstep : w.step a = some w')
    {p : Payment} (hp : p ∈ w.system.database.payments) : p ∈ w'.system.database.payments := by
  rcases h.adds hstep with ⟨hpayments, -⟩ | ⟨c, id, now, hpayments, -⟩
  · exact hpayments ▸ hp
  · exact hpayments ▸ List.mem_append_left _ hp

/-- Where no id was drawn twice and none was there from the beginning, no two events in the outbox have one
id. -/
theorem Tallied.nodup_ids (h : w.Tallied first) (hids : (first.map (·.id) ++ w.drawn).Nodup) :
    (w.system.database.outbox.map (·.event.id)).Nodup := by
  have hsame : w.system.database.outbox.map (·.event.id) = w.system.database.written.map (·.id) := by
    rw [Database.written, List.map_map]
    rfl
  rw [hsame, List.nodup_iff_count]
  intro id
  have hfirst : countId id first = (first.map (·.id)).count id := by
    rw [List.count, List.countP_map]
    rfl
  have hcount := List.nodup_iff_count.mp hids id
  rw [List.count_append, ← hfirst] at hcount
  have hdrawn := h.drawn id
  rw [tally] at hdrawn
  rw [List.count, List.countP_map]
  show countId id w.system.database.written ≤ 1
  omega

/-- A world that opens with no commit on its way is tallied. -/
theorem tallied_opening {s : System} (hdetached : s.detached = []) :
    (opening s).Tallied s.database.written where
  detached d hd := by
    rw [opening, hdetached] at hd
    cases hd
  carried _ _ hp := absurd hp find?_opening
  drawn id := by
    simp only [tally, opening, hdetached]
    exact Nat.le_refl _

/-- The tally is kept throughout a run that began with no commit on its way. -/
theorem tallied_run {s : System} {as : List Action} (hdetached : s.detached = [])
    (hrun : (opening s).run as = some w) : w.Tallied s.database.written :=
  run_keeps (P := fun w _ => w.Tallied s.database.written) (fun _ _ _ _ h hstep => h.step hstep)
    (tallied_opening hdetached) hrun

/-- Both tables only grow. -/
theorem Tallied.grows {as : List Action} (h : w.Tallied first) (hrun : w.run as = some w') :
    w.system.database.payments <+: w'.system.database.payments ∧
      w.system.database.written <+: w'.system.database.written := by
  refine (run_keeps (P := fun now _ => now.Tallied first ∧
    w.system.database.payments <+: now.system.database.payments ∧
      w.system.database.written <+: now.system.database.written) ?_
    ⟨h, List.prefix_rfl, List.prefix_rfl⟩ hrun).2
  intro now a rest next ⟨hnow, hpayments, hwritten⟩ hstep
  refine ⟨hnow.step hstep, ?_⟩
  rcases hnow.adds hstep with ⟨hsame, hsame'⟩ | ⟨c, id, time, hmore, hmore'⟩
  · exact ⟨hsame ▸ hpayments, hsame' ▸ hwritten⟩
  · rw [hmore, hmore']
    exact ⟨hpayments.trans (List.prefix_append ..), hwritten.trans (List.prefix_append ..)⟩

end World

end PaymentRelay
