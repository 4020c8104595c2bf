import PaymentRelay.Proofs.Outbox.LifeCycle
import PaymentRelay.Proofs.Outbox.Queue

/-!
# Which events a fetch claims

A fetch takes the oldest events that are free, and no others: it hands them out in the order of the line, and what it
leaves behind comes after all of them (`oldest_of_fetch`). The rows of these events are locked where they stand, and
nothing else in the tables changes.

A claim hides its event up to its last instant and at that instant too (`Hides`). Other fetches and commits do not
shorten it, and by whatever clock they are made, so nothing but the end of the claim by a release brings the event back
before it is over (`Hides.serve`).
-/

namespace PaymentRelay

/-! ## Instants -/

namespace Instant

theorem lt_iff {a b : Instant} :
    a < b ↔ a.seconds < b.seconds ∨ a.seconds = b.seconds ∧ a.nanos < b.nanos := Iff.rfl

theorem lt_of_lt_of_not_lt {a b c : Instant} (hab : a < b) (hcb : ¬ c < b) : a < c := by
  rw [lt_iff] at hab hcb ⊢
  omega

theorem lt_trans {a b c : Instant} (hab : a < b) (hbc : b < c) : a < c := by
  rw [lt_iff] at hab hbc ⊢
  omega

/-- What is added to an instant does not lead back. -/
theorem not_lt_of_add? {t last : Instant} {d : Duration} (h : t.add? d = some last) : ¬ last < t := by
  unfold add? at h
  split at h
  next =>
    cases h
    rw [lt_iff]
    simp only [later, ofNanos, toNanos, Duration.nanosPerSecond]
    rw [Int.fdiv_eq_ediv_of_nonneg _ (by decide), Int.fmod_eq_emod_of_nonneg _ (by decide)]
    omega
  next => cases h

end Instant

/-! ## The oldest events -/

namespace OutboxEvent

/-- Whether an event comes before another one in the line: the older first, and of one instant the one with the
smaller id. -/
def IsOlder (a b : OutboxEvent) : Prop :=
  a.timestamp < b.timestamp ∨ a.timestamp = b.timestamp ∧ a.id < b.id

theorem isOlder_of_before {a b : OutboxEvent} (h : a.before b = true) (hne : a.id ≠ b.id) : a.IsOlder b := by
  rw [before, Bool.or_eq_true, Bool.and_eq_true, decide_eq_true_eq, decide_eq_true_eq, beq_iff_eq] at h
  rcases h with hearlier | ⟨htime, hle⟩
  · exact .inl hearlier
  · refine .inr ⟨htime, Nat.lt_of_le_of_ne hle fun hnumber => hne ?_⟩
    cases ha : a.id
    cases hb : b.id
    rw [ha, hb] at hnumber
    cases hnumber
    rfl

end OutboxEvent

namespace OutboxRow

/-- Whether a row is free at an instant: its event is still to be sent, and its claim, if it has one, was over
before. -/
def IsFree (r : OutboxRow) (now : Instant) : Prop :=
  r.event.publishedAt = none ∧ ∀ last, r.lockedUntil = some last → last < now

theorem isClaimable_iff {r : OutboxRow} {now : Instant} : r.isClaimable now = true ↔ r.IsFree now := by
  rw [isClaimable, Bool.and_eq_true, OutboxEvent.isPending, Option.isNone_iff_eq_none]
  refine and_congr_right fun _ => ?_
  cases r.lockedUntil with
  | none => exact iff_of_true rfl fun _ h => by cases h
  | some last => exact decide_eq_true_iff.trans ⟨by rintro h _ ⟨⟩; exact h, fun h => h last rfl⟩

instance (r : OutboxRow) (now : Instant) : Decidable (r.IsFree now) := decidable_of_iff _ isClaimable_iff

end OutboxRow

namespace Database

variable {db after : Database} {r : OutboxRow} {limit : Nat} {now last : Instant} {events : List OutboxEvent}
  {v : Visit} {visits : List Visit} {id : Uuid}

/-- The events that may be claimed are those of the free rows. -/
theorem claimable_perm (db : Database) (now : Instant) :
    ((db.claimable now).map (·.1.event)).Perm ((db.outbox.filter (·.IsFree now)).map (·.event)) := by
  have hfree : db.outbox.filter (·.isClaimable now) = db.outbox.filter (·.IsFree now) := by
    refine List.filter_congr fun r _ => ?_
    rw [Bool.eq_iff_iff, OutboxRow.isClaimable_iff, decide_eq_true_eq]
  rw [events_claimable, hfree]
  exact List.mergeSort_perm _ _

/-- **A fetch hands out the oldest events that are free**, as many as are asked for, in the order of the line. What
is free and left behind comes after all of them. -/
theorem oldest_of_fetch (hids : (db.outbox.map (·.event.id)).Nodup)
    (h : db.fetch limit now = some (events, after)) :
    events.length = min limit (db.outbox.countP (·.IsFree now)) ∧ events.Pairwise OutboxEvent.IsOlder ∧
      (∀ e ∈ events, ∃ r ∈ db.outbox, r.IsFree now ∧ r.event = e) ∧
      ∀ r ∈ db.outbox, r.IsFree now → r.event ∉ events → ∀ e ∈ events, e.IsOlder r.event := by
  obtain ⟨last, -, hafter⟩ := Option.map_eq_some_iff.mp h
  obtain ⟨rfl, -⟩ := Prod.mk.inj hafter
  have hperm := db.claimable_perm now
  rw [List.map_take]
  set line := (db.claimable now).map (·.1.event) with hline
  have hmem : ∀ e, e ∈ line ↔ ∃ r ∈ db.outbox, r.IsFree now ∧ r.event = e := by
    intro e
    simp only [hperm.mem_iff, List.mem_map, List.mem_filter, decide_eq_true_eq, and_assoc]
  have hnodup : (line.map (·.id)).Nodup := by
    have hsub : (db.outbox.filter (·.IsFree now)).Sublist db.outbox := List.filter_sublist
    rw [(hperm.map _).nodup_iff, List.map_map]
    exact hids.sublist (hsub.map _)
  have hordered : line.Pairwise (·.before · = true) := by
    rw [hline, events_claimable]
    exact OutboxEvent.pairwise_mergeSort _
  -- in a line without repetition everybody comes before all that stand behind
  have holder : line.Pairwise OutboxEvent.IsOlder :=
    (hordered.and (List.pairwise_map.mp hnodup)).imp
      fun ⟨hbefore, hne⟩ => OutboxEvent.isOlder_of_before hbefore hne
  refine ⟨?length, holder.sublist (List.take_sublist ..), ?free, ?rest⟩
  case length =>
    rw [List.length_take, hperm.length_eq, List.length_map, ← List.countP_eq_length_filter]
  case free => exact fun e he => (hmem e).mp (List.mem_of_mem_take he)
  case rest =>
    intro r hr hfree hleft e he
    have hr' : r.event ∈ line.take limit ++ line.drop limit := by
      rw [List.take_append_drop]
      exact (hmem _).mpr ⟨r, hr, hfree, rfl⟩
    rw [← List.take_append_drop limit line, List.pairwise_append] at holder
    exact holder.2.2 e he _ ((List.mem_append.mp hr').resolve_left hleft)

/-! ## Claims that hide an event -/

end Database

namespace OutboxRow

variable {r : OutboxRow} {x : Database.Exchange} {last : Instant} {lease : Duration}

/-- A row is hidden up to an instant if it is not free then or before. -/
def IsHidden (r : OutboxRow) (last : Instant) : Prop :=
  ∀ time, ¬ last < time → ¬ r.IsFree time

theorem isHidden_of_locked (hlocked : r.lockedUntil = some last) : r.IsHidden last :=
  fun _ htime hfree => htime (hfree.2 last hlocked)

theorem isHidden_of_published (hpublished : r.event.publishedAt ≠ none) : r.IsHidden last :=
  fun _ _ hfree => hpublished hfree.1

/-- A row stays hidden unless its claim is ended. Whoever claims it anew does so when it is free again, and for
longer. -/
theorem IsHidden.after (h : r.IsHidden last) (hrelease : x.call ≠ .release r.event.id)
    (hclaimed : r.event.id ∈ x.ids → r.IsFree x.time ∧ ∃ next, x.time.add? lease = some next) :
    (r.after lease x).IsHidden last := by
  unfold OutboxRow.after
  cases hcall : x.call with
  | commit => exact h
  | fetch =>
    dsimp only
    split
    next hid =>
      obtain ⟨hfree, next, hnext⟩ := hclaimed hid
      have hover : last < x.time := by
        by_contra hnot
        exact h x.time hnot hfree
      have hlonger : last < next := Instant.lt_of_lt_of_not_lt hover (Instant.not_lt_of_add? hnext)
      intro time htime hfree'
      exact htime (Instant.lt_trans hlonger (hfree'.2 next hnext))
    next => exact h
  | mark =>
    dsimp only
    split
    next => exact isHidden_of_published (Option.some_ne_none _)
    next => exact h
  | release id =>
    dsimp only
    rw [hcall] at hrelease
    rwa [if_neg fun hid => hrelease (congrArg _ hid.1.symm)]

end OutboxRow

namespace Database

variable {db after : Database} {r : OutboxRow} {limit : Nat} {now last : Instant} {events : List OutboxEvent}
  {v : Visit} {visits : List Visit} {id : Uuid}

/-- The outbox has an event and hides it up to an instant. -/
structure Hides (db : Database) (id : Uuid) (last : Instant) : Prop where
  mem : id ∈ db.outbox.map (·.event.id)
  hidden : ∀ r ∈ db.outbox, r.event.id = id → r.IsHidden last

theorem ids_fetch (h : db.fetch limit now = some (events, after)) :
    after.outbox.map (·.event.id) = db.outbox.map (·.event.id) := by
  rw [ids_eq_written, ids_eq_written, (written_fetch h).1]

/-- A fetch hides what it hands out for as long as the lease. -/
theorem hides_of_fetch (hids : (db.outbox.map (·.event.id)).Nodup)
    (h : db.fetch limit now = some (events, after)) (hlast : now.add? db.lease = some last)
    {e : OutboxEvent} (he : e ∈ events) : after.Hides e.id last := by
  obtain ⟨last', hlast', houtbox⟩ := outbox_fetch hids h
  obtain rfl : last' = last := Option.some.inj (hlast'.symm.trans hlast)
  obtain ⟨r, hr, -, rfl⟩ := (oldest_of_fetch hids h).2.2.1 e he
  have hclaimed : r.event.id ∈ events.map (·.id) := List.mem_map_of_mem he
  constructor
  case mem =>
    rw [ids_fetch h]
    exact List.mem_map_of_mem hr
  case hidden =>
    intro row hrow hid
    rw [houtbox] at hrow
    obtain ⟨old, -, rfl⟩ := List.mem_map.mp hrow
    split at hid
    next hold =>
      rw [if_pos hold]
      exact OutboxRow.isHidden_of_locked rfl
    next hold => exact absurd (hid ▸ hclaimed) hold

/-- A call hides what was hidden, unless it ends the claim. -/
theorem Hides.answer (h : db.Hides id last) (hids : (db.outbox.map (·.event.id) ++ newIds [v]).Nodup)
    (hrelease : v.call ≠ .release id) : (db.answer v).2.Hides id last := by
  constructor
  case mem =>
    rw [ids_answer]
    exact List.mem_append_left _ h.mem
  case hidden =>
    intro row hrow hid
    rw [outbox_answer hids.of_append_left v] at hrow
    rcases List.mem_append.mp hrow with hrow | hrow
    · obtain ⟨r, hr, rfl⟩ := List.mem_map.mp hrow
      rw [OutboxRow.id_after] at hid
      refine (h.hidden r hr hid).after (hid ▸ hrelease) fun hclaimed => ?_
      obtain ⟨other, hother, hsame, hclaimable, limit, -, hfetch⟩ := claimable_of_answer hclaimed
      obtain rfl := List.inj_on_of_nodup_map hids.of_append_left hother hr hsame
      obtain ⟨next, hnext, -⟩ := outbox_fetch hids.of_append_left hfetch
      exact ⟨OutboxRow.isClaimable_iff.mp hclaimable, next, hnext⟩
    · -- what is committed now has another id
      obtain ⟨e, he, rfl⟩ := List.mem_map.mp hrow
      have hnew : e.id ∈ newIds [v] :=
        List.mem_map_of_mem (List.mem_flatMap.mpr ⟨v, List.mem_singleton_self v, he⟩)
      exact absurd hid.symm ((List.nodup_append.mp hids).2.2 id h.mem e.id hnew)

/-- **A claim hides its event** from all calls, whatever they are and by whatever clock, unless one of them ends it. -/
theorem Hides.serve (h : db.Hides id last) (hids : (db.outbox.map (·.event.id) ++ newIds visits).Nodup)
    (hrelease : ∀ v ∈ visits, v.call ≠ .release id) : (db.serve visits).2.Hides id last := by
  induction visits generalizing db with
  | nil => exact h
  | cons v rest ih =>
    obtain ⟨hv, hrest⟩ := List.forall_mem_cons.mp hrelease
    rw [← List.singleton_append, newIds_append, ← List.append_assoc] at hids
    refine ih (h.answer hids.of_append_left hv) ?_ hrest
    rwa [ids_answer]

/-- What is hidden is not handed out. -/
theorem Hides.not_fetched (h : db.Hides id last) (hids : (db.outbox.map (·.event.id)).Nodup)
    (hfetch : db.fetch limit now = some (events, after)) (hnow : ¬ last < now) : id ∉ events.map (·.id) := by
  intro hid
  obtain ⟨e, he, rfl⟩ := List.mem_map.mp hid
  obtain ⟨r, hr, hfree, rfl⟩ := (oldest_of_fetch hids hfetch).2.2.1 e he
  exact h.hidden r hr rfl now hnow hfree

/-! ## The law -/

/-- **A fetch claims the oldest events that are free.** Where ids are distinct and the calendar reaches as far as a
claim, which is given for its lifetime, or for a day if that is longer than can be counted,

* it hands out as many events as it is asked for, or all that are free: the oldest, in order, each once;
* it locks their rows where they stand, up to the end of the claim, and changes nothing else;
* whatever is called after it, no fetch at that instant or before hands one of them out, unless somebody has ended the
  claim. -/
theorem fetch_claims_oldest {db : Database} {limit : Nat} {now last : Instant}
    (hids : (db.outbox.map (·.event.id)).Nodup)
    (hlast : now.add? (if longestLease.toNanos < db.claimLifetime.toNanos then .ofDays 1 else db.claimLifetime) =
      some last) :
    ∃ events after, db.fetch limit now = some (events, after) ∧
      (events.length = min limit (db.outbox.countP (·.IsFree now)) ∧
        events.Pairwise OutboxEvent.IsOlder ∧
        (∀ e ∈ events, ∃ r ∈ db.outbox, r.IsFree now ∧ r.event = e) ∧
        ∀ r ∈ db.outbox, r.IsFree now → r.event ∉ events → ∀ e ∈ events, e.IsOlder r.event) ∧
      after = { db with
        outbox := db.outbox.map fun r => if r.event.id ∈ events.map (·.id) then r.lock last else r } ∧
      ∀ visits : List Visit, (db.outbox.map (·.event.id) ++ newIds visits).Nodup → ∀ e ∈ events,
        (∀ v ∈ visits, v.call ≠ .release e.id) → ∀ limit time events' after', ¬ last < time →
          (after.serve visits).2.fetch limit time = some (events', after') → e.id ∉ events'.map (·.id) := by
  replace hlast : now.add? db.lease = some last := hlast
  obtain ⟨⟨events, after⟩, hfetch⟩ : ∃ answer, db.fetch limit now = some answer := by
    rw [← Option.isSome_iff_exists, fetch, Option.isSome_map, hlast]
    rfl
  obtain ⟨last', hlast', houtbox⟩ := outbox_fetch hids hfetch
  obtain rfl : last' = last := Option.some.inj (hlast'.symm.trans hlast)
  refine ⟨events, after, hfetch, oldest_of_fetch hids hfetch, ?tables, ?hidden⟩
  case tables =>
    obtain ⟨_, -, hafter⟩ := Option.map_eq_some_iff.mp hfetch
    rw [← houtbox, ← (Prod.mk.inj hafter).2]
  case hidden =>
    intro visits hvisits e he hrelease limit time events' after' htime hagain
    rw [← ids_fetch hfetch] at hvisits
    have hlater := (hides_of_fetch hids hfetch hlast he).serve hvisits hrelease
    refine hlater.not_fetched ?_ hagain htime
    rwa [ids_serve]

/-- An outbox whose events are of few instants and stand out of order: one was published, one is claimed up to the
100th second, and the claim of another one is over. -/
def tiedDatabase : Database where
  claimLifetime := .ofSeconds 30
  payments := []
  outbox := [⟨bareEvent 4 7, none⟩, ⟨bareEvent 3 7, some ⟨99, 999999999⟩⟩, ⟨bareEvent 1 5, some ⟨100, 0⟩⟩,
    ⟨{ bareEvent 2 5 with publishedAt := some ⟨50, 0⟩ }, none⟩, ⟨bareEvent 5 6, none⟩]

/-- Of the three that are free, two are handed out. They stay hidden up to the 130th second, though another event is
committed and somebody fetches in between. -/
theorem fetch_claims_oldest_of_tied :
    ∃ events after, tiedDatabase.fetch 2 ⟨100, 0⟩ = some (events, after) ∧ events.length = 2 ∧
      ∀ e ∈ events, ∀ events' after',
        (after.serve [⟨1, ⟨101, 0⟩, .commit ⟨[], [bareEvent 6 1]⟩⟩, ⟨2, ⟨110, 0⟩, .fetch 9⟩]).2.fetch 9 ⟨130, 0⟩ =
          some (events', after') → e.id ∉ events'.map (·.id) := by
  obtain ⟨events, after, hfetch, ⟨hlength, -⟩, -, hhidden⟩ :=
    @fetch_claims_oldest tiedDatabase 2 ⟨100, 0⟩ ⟨130, 0⟩ (by decide +kernel) (by decide +kernel)
  refine ⟨events, after, hfetch, hlength, fun e he events' after' hagain => ?_⟩
  refine hhidden _ (by decide +kernel) e he ?_ 9 ⟨130, 0⟩ events' after' (by decide) hagain
  simp only [List.forall_mem_cons, ne_eq, reduceCtorEq, not_false_iff, List.not_mem_nil, false_imp_iff, implies_true,
    and_self]

end Database

end PaymentRelay
