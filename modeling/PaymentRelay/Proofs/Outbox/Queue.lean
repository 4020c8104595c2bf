import Mathlib.Data.List.Sort
import PaymentRelay.Proofs.Outbox.Rows
import PaymentRelay.System

/-!
# The line in which events wait

Events are sent by age, and events of one instant by id. `System.Queued` says how the outbox and a line of events go
together: the events of the line are those that are still to be sent, in that order. Those at its head may be in the
hands of a poller; all others may be claimed now, and so at every later instant.

A fetch takes its batch from the head of the line (`Queued.fetch`), and a mark takes the first event out of it
(`Queued.mark`). The line stays the same otherwise, so what is sent from it is sent in its order.
-/

namespace PaymentRelay

/-! ## The order -/

namespace OutboxEvent

variable {a b c : OutboxEvent}

theorem before_iff : a.before b = true ↔ a.timestamp.seconds < b.timestamp.seconds ∨
    a.timestamp.seconds = b.timestamp.seconds ∧ (a.timestamp.nanos < b.timestamp.nanos ∨
      a.timestamp.nanos = b.timestamp.nanos ∧ a.id.number ≤ b.id.number) := by
  have hlt : a.timestamp < b.timestamp ↔ a.timestamp.seconds < b.timestamp.seconds ∨
      a.timestamp.seconds = b.timestamp.seconds ∧ a.timestamp.nanos < b.timestamp.nanos := Iff.rfl
  have heq : a.timestamp = b.timestamp ↔
      a.timestamp.seconds = b.timestamp.seconds ∧ a.timestamp.nanos = b.timestamp.nanos := by
    cases a.timestamp
    cases b.timestamp
    exact Instant.mk.injEq .. ▸ Iff.rfl
  rw [before, Bool.or_eq_true, Bool.and_eq_true, decide_eq_true_eq, decide_eq_true_eq, beq_iff_eq, hlt, heq]
  omega

theorem before_trans (hab : a.before b = true) (hbc : b.before c = true) : a.before c = true := by
  rw [before_iff] at hab hbc ⊢
  omega

theorem before_total (a b : OutboxEvent) : (a.before b || b.before a) = true := by
  rw [Bool.or_eq_true, before_iff, before_iff]
  omega

/-- Two events that come before each other have one id. -/
theorem id_eq_of_before (hab : a.before b = true) (hba : b.before a = true) : a.id = b.id := by
  rw [before_iff] at hab hba
  have hnumber : a.id.number = b.id.number := by omega
  cases ha : a.id
  cases hb : b.id
  rw [ha, hb] at hnumber
  cases hnumber
  rfl

/-- Events that are sorted stand in a line. -/
theorem pairwise_mergeSort (events : List OutboxEvent) :
    (events.mergeSort before).Pairwise (·.before · = true) :=
  @List.pairwise_mergeSort _ before (fun _ _ _ => before_trans) before_total events

/-- Two lines of the same events with different ids are the same. -/
theorem line_unique {line other : List OutboxEvent} (hperm : line.Perm other) (hids : (line.map (·.id)).Nodup)
    (hline : line.Pairwise (·.before · = true)) (hother : other.Pairwise (·.before · = true)) : line = other := by
  apply List.Perm.eq_of_pairwise ?_ hline hother hperm
  intro a b ha hb hab hba
  exact List.inj_on_of_nodup_map hids ha (hperm.mem_iff.mpr hb) (id_eq_of_before hab hba)

end OutboxEvent

/-! ## Claims that are over -/

/-- A later instant of the clock is later in the calendar. -/
theorem Instant.lt_later {last start : Instant} {elapsed elapsed' : Nat}
    (h : last < start.later (.ofNanos elapsed)) (hle : elapsed ≤ elapsed') :
    last < start.later (.ofNanos elapsed') := by
  have hnanos : ∀ n, (Duration.ofNanos n).toNanos = n := by
    intro n
    simp only [Duration.ofNanos, Duration.toNanos, Duration.nanosPerSecond]
    omega
  have hlater : ∀ n, start.later (.ofNanos n) = ⟨(start.toNanos + n) / 1000000000,
      ((start.toNanos + n) % 1000000000).toNat⟩ := by
    intro n
    simp only [later, hnanos, ofNanos, Duration.nanosPerSecond]
    rw [Int.fdiv_eq_ediv_of_nonneg _ (by decide), Int.fmod_eq_emod_of_nonneg _ (by decide)]
    rfl
  rw [hlater] at h ⊢
  replace h : last.seconds < (start.toNanos + elapsed) / 1000000000 ∨
    last.seconds = (start.toNanos + elapsed) / 1000000000 ∧
      last.nanos < ((start.toNanos + elapsed) % 1000000000).toNat := h
  show last.seconds < (start.toNanos + elapsed') / 1000000000 ∨
    last.seconds = (start.toNanos + elapsed') / 1000000000 ∧
      last.nanos < ((start.toNanos + elapsed') % 1000000000).toNat
  omega

/-- A row that may be claimed may be claimed later. -/
theorem OutboxRow.isClaimable_later {r : OutboxRow} {s s' : System} (h : r.isClaimable s.now = true)
    (hstart : s'.start = s.start) (helapsed : s.elapsed ≤ s'.elapsed) : r.isClaimable s'.now = true := by
  simp only [isClaimable, Bool.and_eq_true] at h ⊢
  refine ⟨h.1, ?_⟩
  cases hlocked : r.lockedUntil with
  | none => rfl
  | some last =>
    rw [hlocked] at h
    have hlater := Instant.lt_later (of_decide_eq_true h.2) helapsed
    rw [← hstart] at hlater
    exact decide_eq_true hlater

namespace Database

variable {db after : Database} {r : OutboxRow} {limit : Nat} {now : Instant} {events : List OutboxEvent}

theorem pending_eq (db : Database) : db.pending = (db.outbox.map (·.event)).filter (·.isPending) := by
  rw [pending, List.filter_map]
  rfl

/-- The events still to be sent have different ids if all have. -/
theorem nodup_pending (hids : (db.outbox.map (·.event.id)).Nodup) : (db.pending.map (·.id)).Nodup := by
  rw [pending, List.map_map]
  exact hids.sublist (List.filter_sublist.map _)

/-- A fetch leaves the events, up to the order of the rows. -/
theorem events_fetch_perm (h : db.fetch limit now = some (events, after)) :
    (after.outbox.map (·.event)).Perm (db.outbox.map (·.event)) := by
  obtain ⟨last, claimed, rest, -, hbefore, hafter, -, -⟩ := fetch_perm h
  refine (hafter.map _).trans (List.Perm.trans (.of_eq ?_) (hbefore.map _).symm)
  rw [List.map_append, List.map_append, List.map_map]
  rfl

/-- The events that may be claimed, in the order in which they are. -/
theorem events_claimable (db : Database) (now : Instant) : (db.claimable now).map (·.1.event) =
    ((db.outbox.filter (·.isClaimable now)).map (·.event)).mergeSort OutboxEvent.before := by
  have hrows : (db.outbox.zipIdx.filter fun r => r.1.isClaimable now).map Prod.fst =
      db.outbox.filter (·.isClaimable now) := by
    rw [← List.zipIdx_map_fst 0 db.outbox, List.filter_map, List.zipIdx_map_fst]
    rfl
  rw [← hrows, List.map_map]
  exact List.map_mergeSort fun _ _ _ _ => rfl

/-- Of numbered things that are equal in an order, the numbers decide which comes first. -/
theorem zipIdxLE_antisymm {α : Type} {le : α → α → Bool} {a b : α × Nat} (hab : List.zipIdxLE le a b = true)
    (hba : List.zipIdxLE le b a = true) : a.2 = b.2 := by
  rw [List.zipIdxLE] at hab hba
  by_cases h : le a.1 b.1 = true
  · by_cases h' : le b.1 a.1 = true
    · rw [if_pos h, if_pos h'] at hab
      rw [if_pos h', if_pos h] at hba
      exact Nat.le_antisymm (of_decide_eq_true hab) (of_decide_eq_true hba)
    · rw [if_neg h'] at hba
      cases hba
  · rw [if_neg h] at hab
    cases hab

/-- The rows that may be claimed are sorted as well by putting in one after the other. Unlike merging, this is
computed by recursion on lists alone, so that whole runs with fetches can be evaluated. -/
theorem claimable_eq_insertionSort : claimable = fun db now =>
    ((db.outbox.zipIdx.filter fun r => r.1.isClaimable now).zipIdx.insertionSort fun a b =>
      List.zipIdxLE (fun a b => a.1.event.before b.1.event) a b = true).map (·.1) := by
  funext db now
  have htrans := List.zipIdxLE_trans (fun a b c : OutboxRow × Nat => @OutboxEvent.before_trans a.1.event b.1.event
    c.1.event)
  have htotal := List.zipIdxLE_total fun a b : OutboxRow × Nat => OutboxEvent.before_total a.1.event b.1.event
  have : IsTrans _ _ := ⟨htrans⟩
  have : Std.Total _ := ⟨fun a b => Bool.or_eq_true_iff.mp (htotal a b)⟩
  rw [claimable, ← List.mergeSort_zipIdx]
  refine congrArg _ (List.Perm.eq_of_pairwise (fun a b ha hb hab hba => ?_)
    (List.pairwise_mergeSort htrans htotal _) (List.pairwise_insertionSort _ _)
    ((List.mergeSort_perm ..).trans (List.perm_insertionSort ..).symm))
  have hplace := zipIdxLE_antisymm hab hba
  have hleft := List.mem_zipIdx_iff_getElem?.mp (List.mem_mergeSort.mp ha)
  have hright := List.mem_zipIdx_iff_getElem?.mp ((List.mem_insertionSort _).mp hb)
  rw [hplace] at hleft
  exact Prod.ext (Option.some_inj.mp (hleft.symm.trans hright)) hplace

/-- A fetch that may claim everything that is pending takes its batch from the head of the line. -/
theorem events_of_fetch (h : db.fetch limit now = some (events, after))
    (hclaimable : ∀ r ∈ db.outbox, r.event.isPending = true → r.isClaimable now = true)
    {line : List OutboxEvent} (hpending : line.Perm db.pending) (hids : (line.map (·.id)).Nodup)
    (hline : line.Pairwise (·.before · = true)) : events = line.take limit := by
  obtain ⟨last, -, hafter⟩ := Option.map_eq_some_iff.mp h
  obtain ⟨rfl, -⟩ := Prod.mk.inj hafter
  have hall : db.outbox.filter (·.isClaimable now) = db.outbox.filter (·.event.isPending) := by
    apply List.filter_congr
    intro r hr
    cases hp : r.event.isPending with
    | true => exact hclaimable r hr hp
    | false => rw [OutboxRow.isClaimable, hp, Bool.false_and]
  rw [List.map_take, events_claimable, hall]
  congr 1
  apply (OutboxEvent.line_unique _ hids hline _).symm
  · exact hpending.trans (List.mergeSort_perm _ _).symm
  · exact OutboxEvent.pairwise_mergeSort _

/-- A mark takes one event out of those that are still to be sent. -/
theorem pending_updateFirst {rows : List OutboxRow} {q : OutboxRow → Bool} {f : OutboxRow → OutboxRow}
    (hfind : rows.find? q = some r) (hr : r.event.isPending = true) (hf : (f r).event.isPending = false) :
    (rows.filter (·.event.isPending)).Perm (r :: (updateFirst q f rows).filter (·.event.isPending)) := by
  induction rows with
  | nil => cases hfind
  | cons first rest ih =>
    by_cases hq : q first = true
    · rw [List.find?_cons_of_pos hq] at hfind
      cases hfind
      rw [updateFirst, if_pos hq, List.filter_cons, if_pos hr, List.filter_cons, if_neg (hf ▸ Bool.false_ne_true)]
    · rw [List.find?_cons_of_neg hq] at hfind
      rw [updateFirst, if_neg hq, List.filter_cons, List.filter_cons]
      split
      next => exact ((ih hfind).cons first).trans (.swap ..)
      next => exact ih hfind

theorem ids_markPublished (db : Database) (id : Uuid) (now : Instant) :
    (db.markPublished id now).outbox.map (·.event.id) = db.outbox.map (·.event.id) :=
  map_updateFirst (f := (·.publish now)) (fun _ => rfl) db.outbox

/-- Where ids are distinct, a mark takes its event out of those that are still to be sent, and no other. -/
theorem pending_markPublished {event : OutboxEvent} (hids : (db.outbox.map (·.event.id)).Nodup)
    (hevent : event ∈ db.pending) (now : Instant) :
    db.pending.Perm (event :: (db.markPublished event.id now).pending) := by
  obtain ⟨r, hr, rfl⟩ := List.mem_map.mp hevent
  obtain ⟨hr, hpending⟩ := List.mem_filter.mp hr
  have hfind : db.outbox.find? (·.event.id == r.event.id) = some r := by
    apply find?_of_unique hr (by rw [beq_self_eq_true])
    intro other hother hsame
    exact List.inj_on_of_nodup_map hids hother hr (beq_iff_eq.mp hsame)
  have hrows := pending_updateFirst hfind (f := (·.publish now)) hpending rfl
  exact hrows.map (·.event)

end Database

/-! ## The line -/

namespace System

variable {s s' : System} {held free line : List OutboxEvent}

/-- The events still to be sent, in their order: those that a poller has in hand, and those that may be claimed. -/
structure Queued (held free : List OutboxEvent) (s : System) : Prop where
  ids : (s.database.outbox.map (·.event.id)).Nodup
  pending : (held ++ free).Perm s.database.pending
  ordered : (held ++ free).Pairwise (·.before · = true)
  claimable : ∀ r ∈ s.database.outbox, r.event.isPending = true → r.event ∉ held → r.isClaimable s.now = true

/-- The line stays while nothing happens to the outbox. -/
theorem Queued.of_same (h : s.Queued held free) (hdb : s'.database = s.database) (hstart : s'.start = s.start)
    (helapsed : s.elapsed ≤ s'.elapsed) : s'.Queued held free where
  ids := hdb ▸ h.ids
  pending := hdb ▸ h.pending
  ordered := h.ordered
  claimable r hr hpending hfree :=
    OutboxRow.isClaimable_later (h.claimable r (hdb ▸ hr) hpending hfree) hstart helapsed

/-- The events of a line have different ids. -/
theorem Queued.nodup (h : s.Queued held free) : ((held ++ free).map (·.id)).Nodup :=
  (h.pending.map _).nodup_iff.mpr (Database.nodup_pending h.ids)

/-- **A fetch takes its batch from the head of the line.** -/
theorem Queued.fetch (h : s.Queued [] line) {limit : Nat} {events : List OutboxEvent} {db : Database}
    (hfetch : s.database.fetch limit s.now = some (events, db)) :
    events = line.take limit ∧ System.Queued (line.take limit) (line.drop limit) { s with database := db } := by
  have hevents : events = line.take limit :=
    Database.events_of_fetch hfetch (fun r hr hpending => h.claimable r hr hpending List.not_mem_nil)
      h.pending h.nodup h.ordered
  have hsame := Database.events_fetch_perm hfetch
  obtain ⟨last, claimed, rest, hclaimed, hbefore, hafter, -, -⟩ := Database.fetch_perm hfetch
  refine ⟨hevents, ?_⟩
  constructor
  case ids =>
    have hids := hsame.map (·.id)
    rw [List.map_map, List.map_map] at hids
    exact hids.nodup_iff.mpr h.ids
  case pending =>
    rw [List.take_append_drop, Database.pending_eq]
    refine h.pending.trans ?_
    rw [Database.pending_eq]
    exact (hsame.filter _).symm
  case ordered =>
    rw [List.take_append_drop]
    exact h.ordered
  case claimable =>
    intro r hr hpending hfree
    rcases List.mem_append.mp (hafter.mem_iff.mp hr) with hr | hr
    · -- the claimed rows are those of the batch
      obtain ⟨old, hold, rfl⟩ := List.mem_map.mp hr
      refine absurd ?_ hfree
      rw [← hevents, hclaimed]
      exact List.mem_map.mpr ⟨old, hold, rfl⟩
    · exact h.claimable r (hbefore.mem_iff.mpr (List.mem_append_right _ hr)) hpending List.not_mem_nil

/-- **A mark takes the first event out of the line.** -/
theorem Queued.mark {event : OutboxEvent} (h : s.Queued (event :: held) free) :
    System.Queued held free { s with database := s.database.markPublished event.id s.now } := by
  have hperm := Database.pending_markPublished h.ids (h.pending.mem_iff.mp List.mem_cons_self) s.now
  have hfresh : ∀ e ∈ (s.database.markPublished event.id s.now).pending, e ≠ event := by
    have hnodup := (hperm.map (·.id)).nodup_iff.mp (Database.nodup_pending h.ids)
    rw [List.map_cons, List.nodup_cons] at hnodup
    rintro e he rfl
    exact hnodup.1 (List.mem_map_of_mem he)
  constructor
  case ids => exact Database.ids_markPublished s.database event.id s.now ▸ h.ids
  case pending => exact (h.pending.trans hperm).cons_inv
  case ordered => exact (List.pairwise_cons.mp h.ordered).2
  case claimable =>
    intro row hrow hrowPending hfree
    rcases Database.mem_updateFirst hrow with hold | ⟨old, -, -, rfl⟩
    · apply h.claimable row hold hrowPending
      intro hmem
      rcases List.mem_cons.mp hmem with heq | hmem
      · refine hfresh row.event ?_ heq
        exact List.mem_map.mpr ⟨row, List.mem_filter.mpr ⟨hrow, hrowPending⟩, rfl⟩
      · exact hfree hmem
    · cases hrowPending

end System

end PaymentRelay
