import Mathlib.Data.List.Infix
import Mathlib.Data.List.Nodup
import PaymentRelay.Proofs.Outbox.Queue
import PaymentRelay.Proofs.World.Relay

/-!
# Pollers side by side

While claims last and every tick goes through its batch, no two ticks have one event in hand. That is a count
(`Balanced`): an id is claimed in the outbox as often as it is in the hands of ticks, and its records are as many
as its rows that are published and its events that were sent and are still to be marked. The one row of an id is
claimed or published but never both, so an id has one record at most.

Where every event that is sent arrives, whoever finds nothing to claim knows that every event that is still to be
sent is in somebody's hands (`Draining`). When all hands are empty everything was sent.
-/

namespace PaymentRelay

namespace Tick

/-- A tick that goes on to the rest of its batch does not give anything back. -/
theorem next_ne_unclaiming (t : Tick) (rest : List OutboxEvent) (event : OutboxEvent)
    (others : List OutboxEvent) : (t.next rest).progress ≠ .unclaiming event others := by
  cases rest <;> exact nofun

/-- A tick that goes on has ended if nothing is left of its batch. -/
theorem next_eq_ended {t : Tick} {rest : List OutboxEvent} (h : (t.next rest).progress = .ended) :
    rest = [] := by
  cases rest with
  | nil => rfl
  | cons event rest => cases h

/-- A tick has ended and its batch was empty, although it asked for events. -/
structure FoundNothing (t : Tick) : Prop where
  ended : t.progress = .ended
  asked : 0 < t.batch
  empty : t.report.fetched = 0

end Tick

namespace World

variable {w w' : World} {s : System} {first : List OutboxEvent} {a : Action} {t t' : Tick}
  {place : Nat} {m : Tick.Move} {failed : Nat → Prop}

/-! ## What ticks have in hand -/

/-- How often an id is in the hands of ticks, in one part of what each of them has in hand. -/
def inHand (part : TickProgress → List OutboxEvent) (ticks : List Tick) (id : Uuid) : Nat :=
  countId id (ticks.flatMap fun t => part t.progress)

/-- The records of an id. -/
def countRecords (id : Uuid) (records : List BrokerRecord) : Nat :=
  records.countP (·.key == id.text)

theorem countId_cons (id : Uuid) (e : OutboxEvent) (rest : List OutboxEvent) :
    countId id (e :: rest) = (e.id == id).toNat + countId id rest := by
  rw [countId, countId, List.countP_cons, Nat.add_comm]
  cases e.id == id <;> rfl

theorem countId_singleton (id : Uuid) (e : OutboxEvent) : countId id [e] = (e.id == id).toNat := by
  rw [countId_cons]
  rfl

theorem inHand_eraseIdx (part : TickProgress → List OutboxEvent) {ticks : List Tick}
    (ht : ticks[place]? = some t) (id : Uuid) :
    countId id (part t.progress) + inHand part (ticks.eraseIdx place) id = inHand part ticks id := by
  obtain ⟨hlt, rfl⟩ := List.getElem?_eq_some_iff.mp ht
  have hperm := (List.getElem_cons_eraseIdx_perm hlt).flatMap_right fun t => part t.progress
  rw [List.flatMap_cons] at hperm
  rw [inHand, inHand, countId, countId, ← List.countP_append]
  exact hperm.countP_eq _

/-- One tick goes on, and the others keep what they have in hand. -/
theorem inHand_set (part : TickProgress → List OutboxEvent) {ticks : List Tick}
    (ht : ticks[place]? = some t) (t' : Tick) (id : Uuid) :
    inHand part (ticks.set place t') id + countId id (part t.progress) =
      inHand part ticks id + countId id (part t'.progress) := by
  obtain ⟨hlt, -⟩ := List.getElem?_eq_some_iff.mp ht
  have hset : (ticks.set place t')[place]? = some t' := List.getElem?_set_self hlt
  have hold := inHand_eraseIdx part ht id
  have hnew := inHand_eraseIdx part hset id
  rw [List.eraseIdx_set_eq] at hnew
  omega

theorem inHand_start {part : TickProgress → List OutboxEvent} (hpart : part .fetching = []) (ticks : List Tick)
    (topic : String) (batch : Nat) (id : Uuid) :
    inHand part (ticks ++ [.start topic batch]) id = inHand part ticks id := by
  rw [inHand, List.flatMap_append, List.flatMap_singleton]
  show countId id (_ ++ part .fetching) = _
  rw [hpart, List.append_nil]
  rfl

theorem countRecords_publish (b : Broker) (topic : String) (e : OutboxEvent) (id : Uuid) :
    countRecords id (b.publish topic e).records = countRecords id b.records + (e.id == id).toNat := by
  have hkey : ((BrokerRecord.ofEvent topic e).key == id.text) = (e.id == id) :=
    Bool.eq_iff_iff.mpr ⟨fun h => beq_iff_eq.mpr (Uuid.text_inj (beq_iff_eq.mp h)),
      fun h => beq_iff_eq.mpr (congrArg Uuid.text (beq_iff_eq.mp h))⟩
  rw [Broker.publish, countRecords, List.countP_append, List.countP_singleton, hkey]
  cases e.id == id <;> rfl

/-! ## Runs in which claims last -/

/-- Whether an action is not one that breaks a tick's account of its batch: the failure of a mark or of the end
of a claim, the end of a poller, or a call that is not a tick's own. -/
def Action.isOrderly : Action → Bool
  | .tick _ .markFails | .tick _ .unclaimFails | .tick _ .drop => false
  | .fetch _ | .mark _ | .unclaim _ => false
  | _ => true

/-- No claim is over before it was ended. -/
def ClaimsLast (w : World) (as : List Action) : Prop :=
  ∀ before, before <+: as → ∀ now, w.run before = some now →
    ∀ r ∈ now.system.database.outbox, ∀ last, r.lockedUntil = some last → ¬ last < now.system.now

/-- A run in which claims last goes on as one. -/
theorem ClaimsLast.tail {rest : List Action} (h : w.ClaimsLast (a :: rest)) (hstep : w.step a = some w') :
    w'.ClaimsLast rest := by
  intro before hbefore now hrun
  apply h (a :: before) (List.cons_prefix_cons.mpr ⟨rfl, hbefore⟩) now
  rw [run, hstep, Option.bind_some, hrun]

theorem ClaimsLast.now {as : List Action} (h : w.ClaimsLast as) :
    ∀ r ∈ w.system.database.outbox, ∀ last, r.lockedUntil = some last → ¬ last < w.system.now :=
  h [] List.nil_prefix w rfl

/-! ## The account -/

/-- What is claimed is in somebody's hands, and what was sent is published or about to be marked. -/
structure Balanced (w : World) : Prop where
  pending : w.system.database.ClaimsPending
  locked : ∀ id, w.system.database.countLocked id =
    inHand TickProgress.sent w.ticks id + inHand TickProgress.unsent w.ticks id
  records : ∀ id, countRecords id w.system.broker.records =
    w.system.database.countPublished id + inHand TickProgress.sent w.ticks id

/-- Where tables, records and hands have the same counts, so does the account. -/
theorem Balanced.of_same (h : w.Balanced) (hpending : w'.system.database.ClaimsPending)
    (hlocked : ∀ id, w'.system.database.countLocked id = w.system.database.countLocked id)
    (hpublished : ∀ id, w'.system.database.countPublished id = w.system.database.countPublished id)
    (hbroker : w'.system.broker = w.system.broker)
    (hsent : ∀ id, inHand TickProgress.sent w'.ticks id = inHand TickProgress.sent w.ticks id)
    (hunsent : ∀ id, inHand TickProgress.unsent w'.ticks id = inHand TickProgress.unsent w.ticks id) :
    w'.Balanced where
  pending := hpending
  locked id := by rw [hlocked, hsent, hunsent, h.locked]
  records id := by rw [hbroker, hpublished, hsent, h.records]

/-- The account is kept if the tick that goes on takes from the tables what it takes in hand, and sends what it
is to mark. -/
theorem Balanced.of_tick (h : w.Balanced) (ht : w.ticks[place]? = some t) (db : Database) (b : Broker)
    (hdb : s.database = db) (hb : s.broker = b) (hpending : db.ClaimsPending)
    (hlocked : ∀ id, db.countLocked id + (countId id t.progress.sent + countId id t.progress.unsent) =
      w.system.database.countLocked id + (countId id t'.progress.sent + countId id t'.progress.unsent))
    (hrecords : ∀ id, countRecords id b.records +
        (w.system.database.countPublished id + countId id t.progress.sent) =
      countRecords id w.system.broker.records + (db.countPublished id + countId id t'.progress.sent)) :
    Balanced { w with system := s, ticks := w.ticks.set place t' } := by
  subst hdb hb
  refine ⟨hpending, fun id => ?_, fun id => ?_⟩
  · have hsent := inHand_set TickProgress.sent ht t' id
    have hunsent := inHand_set TickProgress.unsent ht t' id
    have hold := h.locked id
    have hnew := hlocked id
    show s.database.countLocked id = inHand TickProgress.sent (w.ticks.set place t') id +
      inHand TickProgress.unsent (w.ticks.set place t') id
    omega
  · have hsent := inHand_set TickProgress.sent ht t' id
    have hold := h.records id
    have hnew := hrecords id
    show countRecords id s.broker.records =
      s.database.countPublished id + inHand TickProgress.sent (w.ticks.set place t') id
    omega

/-- What a tick has in hand is claimed. -/
theorem Balanced.locked_pos (h : w.Balanced) (ht : w.ticks[place]? = some t) {id : Uuid}
    (hid : 0 < countId id t.progress.sent + countId id t.progress.unsent) :
    0 < w.system.database.countLocked id := by
  have hsent := inHand_eraseIdx TickProgress.sent ht id
  have hunsent := inHand_eraseIdx TickProgress.unsent ht id
  rw [h.locked]
  omega

/-- **A tick keeps the account.** -/
theorem Balanced.tick (h : w.Balanced) (hids : (w.system.database.outbox.map (·.event.id)).Nodup)
    (hclaims : ∀ r ∈ w.system.database.outbox, ∀ last, r.lockedUntil = some last → ¬ last < w.system.now)
    (hm : (Action.tick place m).isOrderly = true) (ht : w.ticks[place]? = some t)
    (htick : t.Transition w.system m t' s) :
    Balanced { w with system := s, ticks := w.ticks.set place t' } := by
  cases htick with
  | fetches events db hp hfetch =>
    have hcount := Database.count_fetch hfetch hclaims
    refine h.of_tick ht db w.system.broker rfl rfl (h.pending.fetch hfetch) (fun id => ?_) (fun id => ?_)
    · rw [Tick.sent_next, Tick.unsent_next, hp]
      show db.countLocked id + 0 = _ + (0 + countId id events)
      rw [(hcount id).1, countId]
      omega
    · rw [Tick.sent_next, hp, (hcount id).2]
      rfl
  | overflows hp | fetchFails hp =>
    refine h.of_tick ht w.system.database w.system.broker rfl rfl h.pending (fun id => ?_) (fun id => ?_)
      <;> rw [hp] <;> rfl
  | publishes event rest hp =>
    refine h.of_tick ht w.system.database (w.system.broker.publish t.topic event) rfl rfl h.pending
      (fun id => ?_) (fun id => ?_) <;> rw [hp]
    · show _ + (0 + countId id (event :: rest)) = _ + (countId id [event] + countId id rest)
      rw [countId_cons, countId_singleton]
      omega
    · show countRecords id (w.system.broker.publish t.topic event).records + (_ + 0) =
        _ + (_ + countId id [event])
      rw [countRecords_publish, countId_singleton]
      omega
  | publishFails event rest hp =>
    refine h.of_tick ht w.system.database w.system.broker rfl rfl h.pending (fun id => ?_) (fun id => ?_)
      <;> rw [hp] <;> rfl
  | marks event rest hp =>
    have hpos : 0 < w.system.database.countLocked event.id := by
      refine h.locked_pos ht ?_
      rw [hp]
      show 0 < countId event.id [event] + _
      rw [countId_singleton, beq_self_eq_true, Bool.toNat_true]
      omega
    have hcount := Database.count_markPublished hids h.pending hpos w.system.now
    refine h.of_tick ht (w.system.database.markPublished event.id w.system.now) w.system.broker rfl rfl
      (h.pending.markPublished event.id w.system.now) (fun id => ?_) (fun id => ?_)
    · obtain ⟨hlocked, -⟩ := hcount id
      rw [Tick.sent_next, Tick.unsent_next, hp]
      show _ + (countId id [event] + countId id rest) = _ + (0 + countId id rest)
      rw [countId_singleton, ← hlocked]
      omega
    · obtain ⟨-, hpublished⟩ := hcount id
      rw [Tick.sent_next, hp]
      show countRecords id w.system.broker.records + (_ + countId id [event]) = _ + (_ + 0)
      rw [countId_singleton, hpublished]
      omega
  | unclaims event rest hp =>
    have hpos : 0 < w.system.database.countLocked event.id := by
      refine h.locked_pos ht ?_
      rw [hp]
      show 0 < _ + countId event.id (event :: rest)
      rw [countId_cons, beq_self_eq_true, Bool.toNat_true]
      omega
    have hcount := Database.count_releaseClaim hids h.pending hpos
    refine h.of_tick ht (w.system.database.releaseClaim event.id) w.system.broker rfl rfl
      (h.pending.releaseClaim event.id) (fun id => ?_) (fun id => ?_)
    · obtain ⟨hlocked, -⟩ := hcount id
      rw [Tick.sent_next, Tick.unsent_next, hp]
      show _ + (0 + countId id (event :: rest)) = _ + (0 + countId id rest)
      rw [countId_cons, ← hlocked]
      omega
    · rw [Tick.sent_next, hp, (hcount id).2]
      rfl
  | markFails | unclaimFails | dropped => cases hm

/-- **The account is kept step by step.** -/
theorem Balanced.step (h : w.Balanced) (hw : w.Tallied first)
    (hids : (w.system.database.outbox.map (·.event.id)).Nodup)
    (hclaims : ∀ r ∈ w.system.database.outbox, ∀ last, r.lockedUntil = some last → ¬ last < w.system.now)
    (ha : a.isOrderly = true) (hstep : w.step a = some w') : w'.Balanced := by
  cases hw.relay_of_step hstep with
  | ticks place m t t' s ht htick => exact h.tick hids hclaims ha ht htick
  | starts topic batch =>
    exact h.of_same h.pending (fun _ => rfl) (fun _ => rfl) rfl (inHand_start rfl w.ticks topic batch)
      (inHand_start rfl w.ticks topic batch)
  | fetches | marks | unclaims => cases ha
  | commits a w' c id now hdb hbroker hticks =>
    have hpending : ∀ e ∈ (Transaction.ofCommand c id now).events, e.isPending = true := by
      intro e he
      cases List.mem_singleton.mp he
      rfl
    refine h.of_same ?_ ?_ ?_ hbroker (fun _ => by rw [hticks]) (fun _ => by rw [hticks]) <;> rw [hdb]
    · exact h.pending.commit _
    · exact Database.countLocked_commit _ _
    · exact Database.countPublished_commit _ hpending
  | aside a w' hdb hbroker hticks =>
    exact h.of_same (hdb ▸ h.pending) (fun _ => by rw [hdb]) (fun _ => by rw [hdb]) hbroker
      (fun _ => by rw [hticks]) (fun _ => by rw [hticks])

/-! ## Working off the outbox -/

/-- A tick with events in hand has fetched them and does not give any of them back; and once a tick has found
nothing, all that is still to be sent is claimed. The places at which ticks could not fetch are `failed`: those
ticks have found nothing for another reason. -/
structure Draining (failed : Nat → Prop) (w : World) : Prop where
  fetched : ∀ t ∈ w.ticks, t.progress.events ≠ [] → 0 < t.report.fetched
  keeps : ∀ t ∈ w.ticks, ∀ event rest, t.progress ≠ .unclaiming event rest
  claimed : ∀ place t, w.ticks[place]? = some t → ¬ failed place → t.FoundNothing →
    w.system.database.AllClaimed

theorem Draining.of_tick (h : w.Draining failed) (hfetched : t'.progress.events ≠ [] → 0 < t'.report.fetched)
    (hkeeps : ∀ event rest, t'.progress ≠ .unclaiming event rest)
    (hclaimed : w.system.database.AllClaimed → s.database.AllClaimed)
    (hfound : ¬ failed place → t'.FoundNothing → s.database.AllClaimed) :
    Draining failed { w with system := s, ticks := w.ticks.set place t' } := by
  constructor
  case fetched =>
    intro u hu hevents
    rcases List.mem_or_eq_of_mem_set hu with hu | rfl
    · exact h.fetched u hu hevents
    · exact hfetched hevents
  case keeps =>
    intro u hu event rest
    rcases List.mem_or_eq_of_mem_set hu with hu | rfl
    · exact h.keeps u hu event rest
    · exact hkeeps event rest
  case claimed =>
    intro other u hu hok hnothing
    by_cases hplace : place = other
    · subst hplace
      rw [List.getElem?_set_self'] at hu
      obtain ⟨_, -, rfl⟩ := Option.map_eq_some_iff.mp hu
      exact hfound hok hnothing
    · rw [List.getElem?_set_ne hplace] at hu
      exact hclaimed (h.claimed other u hu hok hnothing)

/-- **Where no event fails to be sent, ticks work the outbox off.** -/
theorem Draining.tick (h : w.Draining failed) (hm : (Action.tick place m).isOrderly = true)
    (hsends : m ≠ .publishFails) (hfails : m = .fetchFails → failed place) (ht : w.ticks[place]? = some t)
    (htick : t.Transition w.system m t' s) :
    Draining failed { w with system := s, ticks := w.ticks.set place t' } := by
  have hin : t ∈ w.ticks := List.mem_of_getElem? ht
  cases htick with
  | fetches events db hp hfetch =>
    refine h.of_tick (fun hevents => ?_) (Tick.next_ne_unclaiming _ _) (fun hall => hall.fetch hfetch)
      fun _ hnothing => ?_
    · rw [Tick.events_next] at hevents
      rw [Tick.report_next]
      exact List.length_pos_iff.mpr hevents
    · have hevents := Tick.next_eq_ended hnothing.ended
      subst hevents
      exact Database.allClaimed_of_fetch_nil hfetch hnothing.asked
  | overflows hp => exact h.of_tick (absurd rfl) nofun id fun _ hnothing => nomatch hnothing.ended
  | fetchFails hp => exact h.of_tick (absurd rfl) nofun id fun hok => absurd (hfails rfl) hok
  | publishes event rest hp =>
    refine h.of_tick (fun _ => h.fetched t hin ?_) nofun id fun _ hnothing => nomatch hnothing.ended
    rw [hp]
    exact List.cons_ne_nil event rest
  | marks event rest hp =>
    have hfetched : 0 < t.report.fetched := by
      apply h.fetched t hin
      rw [hp]
      exact List.cons_ne_nil event rest
    refine h.of_tick (fun _ => ?_) (Tick.next_ne_unclaiming _ _)
      (fun hall => hall.markPublished event.id w.system.now) fun _ hnothing => ?_
    · rw [Tick.report_next]
      exact hfetched
    · -- the tick has fetched the event that it marks
      have hempty := hnothing.empty
      rw [Tick.report_next] at hempty
      exact absurd hempty (Nat.ne_of_gt hfetched)
  | unclaims event rest hp | unclaimFails event rest hp => exact absurd hp (h.keeps t hin event rest)
  | publishFails => exact absurd rfl hsends
  | markFails | dropped => cases hm

theorem Draining.step (h : w.Draining failed) (hw : w.Tallied first) (ha : a.isOrderly = true)
    (hsends : ∀ place, a ≠ .tick place .publishFails) (hfails : ∀ place, a = .tick place .fetchFails → failed place)
    (hpayments : w'.system.database.payments = w.system.database.payments) (hstep : w.step a = some w') :
    w'.Draining failed := by
  cases hw.relay_of_step hstep with
  | ticks place m t t' s ht htick =>
    exact h.tick ha (fun hm => hsends place (hm ▸ rfl)) (fun hm => hfails place (hm ▸ rfl)) ht htick
  | starts topic batch =>
    have hcases : ∀ u ∈ w.ticks ++ [.start topic batch], u ∈ w.ticks ∨ u = .start topic batch := by
      intro u hu
      exact (List.mem_append.mp hu).imp_right List.mem_singleton.mp
    refine ⟨fun u hu hevents => ?_, fun u hu event rest => ?_, fun place u hu hok hnothing => ?_⟩
    · rcases hcases u hu with hu | rfl
      · exact h.fetched u hu hevents
      · exact absurd rfl hevents
    · rcases hcases u hu with hu | rfl
      · exact h.keeps u hu event rest
      · exact nofun
    · rcases Nat.lt_or_ge place w.ticks.length with hlt | hge
      · rw [List.getElem?_append_left hlt] at hu
        exact h.claimed place u hu hok hnothing
      · rw [List.getElem?_append_right hge] at hu
        cases List.mem_singleton.mp (List.mem_of_getElem? hu)
        cases hnothing.ended
  | fetches | marks | unclaims => cases ha
  | commits a w' c id now hdb hbroker hticks =>
    rw [hdb] at hpayments
    exact absurd (List.append_right_eq_self.mp hpayments) (List.cons_ne_nil _ _)
  | aside a w' hdb hbroker hticks =>
    refine ⟨hticks ▸ h.fetched, hticks ▸ h.keeps, fun place u hu hok hnothing => ?_⟩
    rw [hdb]
    exact h.claimed place u (hticks ▸ hu) hok hnothing

/-! ## Runs -/

/-- Ids that are distinct at the end of a run were distinct before. -/
theorem Tallied.nodup_before {as : List Action} (h : w.Tallied first) (hrun : w.run as = some w')
    (hids : (w'.system.database.outbox.map (·.event.id)).Nodup) :
    (w.system.database.outbox.map (·.event.id)).Nodup := by
  obtain ⟨-, hwritten⟩ := h.grows hrun
  have hprefix := hwritten.map (·.id)
  simp only [Database.written, List.map_map] at hprefix
  exact hprefix.sublist.nodup hids

/-- Where no payment is made in the rest of a run, none is made in its first step. -/
theorem Tallied.payments_same {as : List Action} {last : World} (h : w.Tallied first)
    (hstep : w.step a = some w') (hrun : w'.run as = some last)
    (hsame : w.system.database.payments = last.system.database.payments) :
    w'.system.database.payments = w.system.database.payments := by
  rcases h.adds hstep with ⟨hpayments, -⟩ | ⟨c, id, now, hpayments, -⟩
  · exact hpayments
  · obtain ⟨hgrown, -⟩ := (h.step hstep).grows hrun
    have hlength := hgrown.length_le
    rw [hpayments, ← hsame, List.length_append] at hlength
    exact absurd hlength (Nat.not_succ_le_self _)

theorem run_tail {as : List Action} {last : World} (hstep : w.step a = some w')
    (hrun : w.run (a :: as) = some last) : w'.run as = some last := by
  rwa [run, hstep, Option.bind_some] at hrun

theorem balanced_opening (hs : s.IsUnsent) : (opening s).Balanced := by
  constructor
  case pending =>
    intro r hr _
    exact (hs.rows r hr).1
  case locked =>
    intro id
    refine List.countP_eq_zero.mpr fun r hr => ?_
    simp only [(hs.rows r hr).2, Option.isSome_none, Bool.and_false, Bool.false_eq_true, not_false_iff]
  case records =>
    intro id
    have hnone : s.database.countPublished id = 0 := by
      refine List.countP_eq_zero.mpr fun r hr => ?_
      simp only [(hs.rows r hr).1, Bool.not_true, Bool.and_false, Bool.false_eq_true, not_false_iff]
    show countRecords id s.broker.records = s.database.countPublished id + 0
    rw [hs.records, hnone]
    rfl

/-- The account is kept throughout a run in which claims last. -/
theorem balanced_run {as : List Action} (hs : s.IsUnsent) (horderly : ∀ a ∈ as, a.isOrderly = true)
    (hclaims : (opening s).ClaimsLast as) (hrun : (opening s).run as = some w)
    (hids : (w.system.database.outbox.map (·.event.id)).Nodup) : w.Balanced := by
  refine (run_keeps (P := fun now rest => now.Tallied s.database.written ∧ now.Balanced ∧
    now.run rest = some w ∧ now.ClaimsLast rest ∧ ∀ a ∈ rest, a.isOrderly = true) ?_
    ⟨tallied_opening hs.detached, balanced_opening hs, hrun, hclaims, horderly⟩ hrun).2.1
  intro now a rest next ⟨hnow, hbalanced, hrest, hlast, hord⟩ hstep
  obtain ⟨ha, hord⟩ := List.forall_mem_cons.mp hord
  exact ⟨hnow.step hstep, hbalanced.step hnow (hnow.nodup_before hrest hids) hlast.now ha hstep,
    run_tail hstep hrest, hlast.tail hstep, hord⟩

/-- Ticks work the outbox off throughout a run in which no event fails to be sent and nothing comes in. -/
theorem draining_run {as : List Action} (hs : s.IsUnsent) (horderly : ∀ a ∈ as, a.isOrderly = true)
    (hsends : ∀ place, .tick place .publishFails ∉ as) (hrun : (opening s).run as = some w)
    (hpayments : s.database.payments = w.system.database.payments) :
    w.Draining fun place => .tick place .fetchFails ∈ as := by
  have hopening : (opening s).Draining fun place => .tick place .fetchFails ∈ as := by
    refine ⟨fun t ht => ?_, fun t ht => ?_, fun place t ht => nomatch ht⟩ <;> exact absurd ht List.not_mem_nil
  refine (run_keeps (P := fun now rest => now.Tallied s.database.written ∧
    now.Draining (fun place => .tick place .fetchFails ∈ as) ∧ now.run rest = some w ∧
      now.system.database.payments = w.system.database.payments ∧ ∀ a ∈ rest, a ∈ as) ?_
    ⟨tallied_opening hs.detached, hopening, hrun, hpayments, fun _ => id⟩ hrun).2.1
  intro now a rest next ⟨hnow, hdraining, hrest, hsame, hall⟩ hstep
  obtain ⟨ha, hall⟩ := List.forall_mem_cons.mp hall
  have hnext := hnow.payments_same hstep (run_tail hstep hrest) hsame
  refine ⟨hnow.step hstep, ?_, run_tail hstep hrest, hnext.trans hsame, hall⟩
  exact hdraining.step hnow (horderly a ha) (fun place heq => hsends place (heq ▸ ha))
    (fun place heq => heq ▸ ha) hnext hstep

/-! ## Records -/

/-- No event has two records. -/
theorem Balanced.nodup_keys (h : w.Balanced) (hfed : w.Fed)
    (hids : (w.system.database.outbox.map (·.event.id)).Nodup) :
    (w.system.broker.records.map (·.key)).Nodup := by
  rw [List.nodup_iff_count]
  intro key
  by_cases hin : key ∈ w.system.broker.records.map (·.key)
  · obtain ⟨r, hr, rfl⟩ := List.mem_map.mp hin
    obtain ⟨row, hrow, heq⟩ := hfed.row_of_record hr
    have hkey : r.key = row.event.id.text := heq ▸ rfl
    rw [hkey, List.count, List.countP_map]
    calc countRecords row.event.id w.system.broker.records
        = w.system.database.countPublished row.event.id + inHand TickProgress.sent w.ticks row.event.id :=
          h.records _
      _ ≤ w.system.database.countLocked row.event.id + w.system.database.countPublished row.event.id := by
          have hlocked := h.locked row.event.id
          omega
      _ ≤ 1 := Database.countLocked_add_countPublished_le hids h.pending hrow
  · rw [List.count_eq_zero_of_not_mem hin]
    exact Nat.zero_le 1

/-- A row that nobody has claimed has as many records as it was published. -/
theorem Balanced.countRecords_of_free (h : w.Balanced)
    (hids : (w.system.database.outbox.map (·.event.id)).Nodup) {row : OutboxRow}
    (hrow : row ∈ w.system.database.outbox) (hfree : row.lockedUntil = none) :
    countRecords row.event.id w.system.broker.records = (!row.event.isPending).toNat := by
  have hlocked := h.locked row.event.id
  rw [Database.countLocked, Database.countP_row hids hrow, hfree] at hlocked
  have hsent : inHand TickProgress.sent w.ticks row.event.id = 0 :=
    (Nat.add_eq_zero_iff.mp hlocked.symm).1
  rw [h.records, hsent, Database.countPublished, Database.countP_row hids hrow, Nat.add_zero]

/-- Where all ticks have ended, nothing is claimed any more. -/
theorem Balanced.free_of_ended (h : w.Balanced) (hids : (w.system.database.outbox.map (·.event.id)).Nodup)
    (hended : ∀ t ∈ w.ticks, t.progress = .ended) {row : OutboxRow} (hrow : row ∈ w.system.database.outbox) :
    row.lockedUntil = none := by
  have hempty : ∀ (part : TickProgress → List OutboxEvent) (_ : part .ended = []) (id : Uuid),
      inHand part w.ticks id = 0 := by
    intro part hpart id
    have hnothing : (w.ticks.flatMap fun t => part t.progress) = [] :=
      List.flatMap_eq_nil_iff.mpr fun t ht => by rw [hended t ht, hpart]
    rw [inHand, hnothing]
    rfl
  have hlocked := h.locked row.event.id
  rw [hempty TickProgress.sent rfl, hempty TickProgress.unsent rfl, Database.countLocked,
    Database.countP_row hids hrow] at hlocked
  cases hrow' : row.lockedUntil with
  | none => rfl
  | some last =>
    rw [hrow'] at hlocked
    cases hlocked

/-- **Every event is sent once while claims last.** In every run of pollers side by side from a system that has
sent nothing, in which no mark and no end of a claim fails, no poller goes away, and no claim is over before it was
ended, no event has two records, and a row that nobody has claimed is published exactly if its record is there.
Where in addition every event that is sent arrives and nothing is paid, all ticks have ended, and one of them asked
for events and was answered that there are none, every event is published and has exactly one record. -/
theorem sent_once_while_claims_last {as : List Action} (hs : s.IsUnsent)
    (horderly : ∀ a ∈ as, a.isOrderly = true) (hclaims : (opening s).ClaimsLast as)
    (hrun : (opening s).run as = some w) (hids : (s.database.outbox.map (·.event.id) ++ w.drawn).Nodup) :
    (w.system.broker.records.map (·.key)).Nodup ∧
    (∀ row ∈ w.system.database.outbox, row.lockedUntil = none →
      (row.event.publishedAt.isSome = true ↔
        ∃ topic, BrokerRecord.ofEvent topic row.event ∈ w.system.broker.records)) ∧
    ((∀ place, .tick place .publishFails ∉ as) → w.system.database.payments = s.database.payments →
      (∀ t ∈ w.ticks, t.progress = .ended) →
      (∃ place t, w.ticks[place]? = some t ∧ .tick place .fetchFails ∉ as ∧ 0 < t.batch ∧ t.report.fetched = 0) →
      ∀ row ∈ w.system.database.outbox, row.event.publishedAt.isSome = true ∧
        ∃ topic, w.system.broker.records.filter (·.key == row.event.id.text) = [.ofEvent topic row.event]) := by
  have hfed := fed_run hs hrun
  have hdistinct : (w.system.database.outbox.map (·.event.id)).Nodup := by
    apply (tallied_run hs.detached hrun).nodup_ids
    rwa [Database.written, List.map_map]
  have hbalanced := balanced_run hs horderly hclaims hrun hdistinct
  have hpublished : ∀ row : OutboxRow, (!row.event.isPending) = row.event.publishedAt.isSome := fun row =>
    Option.not_isNone _
  refine ⟨hbalanced.nodup_keys hfed hdistinct, fun row hrow hfree => ?_, ?_⟩
  · have hcount := hbalanced.countRecords_of_free hdistinct hrow hfree
    rw [hpublished] at hcount
    constructor
    · intro hmarked
      rw [hmarked] at hcount
      obtain ⟨r, hr, hkey⟩ := List.countP_pos_iff.mp (Nat.lt_of_lt_of_eq Nat.zero_lt_one hcount.symm)
      exact ⟨r.topic, hfed.record_of_key hdistinct hrow hr (beq_iff_eq.mp hkey) ▸ hr⟩
    · rintro ⟨topic, hr⟩
      have hpos : 0 < countRecords row.event.id w.system.broker.records :=
        List.countP_pos_iff.mpr ⟨_, hr, beq_self_eq_true _⟩
      rw [hcount] at hpos
      cases hmarked : row.event.publishedAt.isSome with
      | true => rfl
      | false =>
        rw [hmarked] at hpos
        cases hpos
  · rintro hsends hpayments hended ⟨place, t, ht, hanswered, hasked, hempty⟩ row hrow
    have hdraining := draining_run hs horderly hsends hrun hpayments.symm
    have hall := hdraining.claimed place t ht hanswered ⟨hended t (List.mem_of_getElem? ht), hasked, hempty⟩
    have hfree := hbalanced.free_of_ended hdistinct hended hrow
    have hmarked : (!row.event.isPending) = true := by
      cases hpending : row.event.isPending with
      | false => rfl
      | true =>
        have hlocked := hall row hrow hpending
        rw [hfree] at hlocked
        cases hlocked
    have hcount := hbalanced.countRecords_of_free hdistinct hrow hfree
    rw [hmarked, countRecords, List.countP_eq_length_filter] at hcount
    obtain ⟨r, hr⟩ := List.length_eq_one_iff.mp hcount
    obtain ⟨hin, hkey⟩ := List.mem_filter.mp (hr ▸ List.mem_singleton_self r)
    rw [hpublished] at hmarked
    refine ⟨hmarked, r.topic, ?_⟩
    rw [hr, ← hfed.record_of_key hdistinct hrow hin (beq_iff_eq.mp hkey)]

instance (p : TickProgress) : Decidable (p = .ended) :=
  match p with
  | .ended => .isTrue rfl
  | .fetching | .publishing .. | .marking .. | .unclaiming .. | .broken => .isFalse nofun

/-- A system with three events that are still to be sent. -/
def queuedSystem : System :=
  let now : Instant := ⟨1700000000, 0⟩
  { sampleSystem with
    database := { sampleSystem.database with
      outbox := [11, 12, 13].map fun n =>
        .ofEvent (.record (Payment.ofCommand (sampleCommand "k") now).succeeded (.ofNat n) now) } }

/-- Two pollers share three events and take turns. A third one finds nothing left. -/
def sharedRun : List Action :=
  [.startTick "payments" 1, .startTick "payments" 2, .tick 0 .fetch, .tick 1 .fetch, .tick 1 .publish,
    .tick 0 .publish, .tick 1 .mark, .advance 5000000000, .tick 0 .mark, .tick 1 .publish, .tick 1 .mark,
    .startTick "payments" 3, .tick 2 .fetch]

/-- Three events, three records, one for each. -/
theorem sent_once_while_claims_last_of_three :
    ∃ w, (opening queuedSystem).run sharedRun = some w ∧ w.system.broker.records.length = 3 ∧
      (w.system.broker.records.map (·.key)).Nodup ∧ w.system.database.outbox.length = 3 ∧
      ∀ row ∈ w.system.database.outbox, row.event.publishedAt.isSome = true ∧
        ∃ topic, w.system.broker.records.filter (·.key == row.event.id.text) = [.ofEvent topic row.event] := by
  have hunsent : queuedSystem.IsUnsent := by
    refine ⟨fun r hr => ?_, rfl, rfl⟩
    obtain ⟨n, -, rfl⟩ := List.mem_map.mp hr
    exact ⟨rfl, rfl⟩
  obtain ⟨hall, hread⟩ : (sharedRun.inits.all fun before => ((opening queuedSystem).run before).all fun now =>
        now.system.database.outbox.all fun r => r.lockedUntil.all fun last =>
          decide (¬ last < now.system.now)) = true ∧
      ((opening queuedSystem).run sharedRun).map (fun w =>
        (w.drawn, w.system.database.payments.length, w.system.broker.records.length,
          w.system.database.outbox.length, decide (∀ t ∈ w.ticks, t.progress = .ended),
          w.ticks[2]?.map fun t : Tick => decide (0 < t.batch ∧ t.report.fetched = 0))) =
        some ([], 0, 3, 3, true, some true) := by
    -- the order of the rows that are fetched has to be computed by recursion on lists
    rw [run_eq_foldlM]
    delta step Tick.step Database.fetch
    rw [Database.claimable_eq_insertionSort]
    exact ⟨rfl, rfl⟩
  have hclaims : (opening queuedSystem).ClaimsLast sharedRun := by
    intro before hbefore now hnow r hr last hlast
    have hworld := List.all_eq_true.mp hall before ((List.mem_inits before sharedRun).mpr hbefore)
    rw [hnow] at hworld
    have hrow := List.all_eq_true.mp hworld r hr
    rw [hlast] at hrow
    exact of_decide_eq_true hrow
  obtain ⟨w, hrun, hworld⟩ := Option.map_eq_some_iff.mp hread
  simp only [Prod.mk.injEq] at hworld
  obtain ⟨hdrawn, hpayments, hrecords, hrows, hended, hnothing⟩ := hworld
  obtain ⟨hkeys, -, hsent⟩ := sent_once_while_claims_last hunsent (by decide) hclaims hrun
    (by rw [hdrawn]; decide)
  refine ⟨w, hrun, hrecords, hkeys, hrows, ?_⟩
  apply hsent (by simp [sharedRun]) (List.eq_nil_of_length_eq_zero hpayments)
  · exact of_decide_eq_true hended
  · obtain ⟨t, ht, h⟩ := Option.map_eq_some_iff.mp hnothing
    exact ⟨2, t, ht, by simp [sharedRun], of_decide_eq_true h⟩

end World

end PaymentRelay
