import Mathlib.Data.List.Nodup
import PaymentRelay.Proofs.Outbox.Rows

/-!
# The life of an outbox row

A database is called by anybody, at any instant and with any arguments: transactions are committed, batches are
fetched, and events are marked published or have their claims ended, whether or not the outbox has them. `serve`
answers such calls, and keeps of each the ids that it handed out.

**Each row goes its own way.** Where ids are distinct, a call turns every row into one that depends on the row and
the call alone (`OutboxRow.after`), leaves all rows where they stand, and adds those that it commits at the end
(`outbox_answer`). So a row that is committed stays; it is published by the first mark of its id and by no other;
and from then on nobody claims it, hands it out or changes it (`life_of_rows`). The clock may go as it likes.
-/

namespace PaymentRelay

namespace Database

/-! ## Calls -/

/-- What is asked of a database. -/
inductive Call where
  | commit (t : Transaction)
  | fetch (limit : Nat)
  /-- An event is marked published. -/
  | mark (id : Uuid)
  /-- The claim on an event is ended. -/
  | release (id : Uuid)
deriving Repr

namespace Call

/-- The payments that a call adds to the ledger. -/
def payments : Call → List Payment
  | .commit t => t.payments
  | _ => []

/-- The events that a call adds to the outbox. -/
def events : Call → List OutboxEvent
  | .commit t => t.events
  | _ => []

end Call

/-- A call that somebody makes at an instant. -/
structure Visit where
  caller : Nat
  time : Instant
  call : Call
deriving Repr

/-- A call that was made, and the ids of the events that were handed out. -/
structure Exchange extends Visit where
  ids : List Uuid
deriving Repr

/-- When a call marks an event, if it does. -/
def Visit.marks? (v : Visit) (id : Uuid) : Option Instant :=
  match v.call with
  | .mark other => if id = other then some v.time else none
  | _ => none

/-- When an event is first marked. -/
def firstMark? (id : Uuid) (visits : List Visit) : Option Instant :=
  visits.findSome? (·.marks? id)

/-- The ids of the events that calls add to the outbox. -/
def newIds (visits : List Visit) : List Uuid :=
  (visits.flatMap (·.call.events)).map (·.id)

/-- Answers a call with the events that are handed out. A fetch for which the calendar does not reach far enough
hands out nothing and changes nothing. -/
def answer (db : Database) (v : Visit) : List OutboxEvent × Database :=
  match v.call with
  | .commit t => ([], db.commit t)
  | .fetch limit => (db.fetch limit v.time).getD ([], db)
  | .mark id => ([], db.markPublished id v.time)
  | .release id => ([], db.releaseClaim id)

/-- What was asked of a database and handed out by it. -/
def exchange (db : Database) (v : Visit) : Exchange :=
  ⟨v, (db.answer v).1.map (·.id)⟩

/-- Answers calls, the first first. -/
def serve (db : Database) : List Visit → List Exchange × Database
  | [] => ([], db)
  | v :: rest =>
    let (exchanges, after) := (db.answer v).2.serve rest
    (db.exchange v :: exchanges, after)

end Database

/-- What becomes of a row in an exchange, where claims are given for `lease`. -/
def OutboxRow.after (lease : Duration) (r : OutboxRow) (x : Database.Exchange) : OutboxRow :=
  match x.call with
  | .commit _ => r
  | .fetch _ => if r.event.id ∈ x.ids then { r with lockedUntil := x.time.add? lease } else r
  | .mark id => if r.event.id = id then r.publish x.time else r
  | .release id => if r.event.id = id ∧ r.event.isPending = true then r.unlock else r

/-! ## What becomes of one row -/

namespace OutboxRow

variable {lease : Duration} {r : OutboxRow} {x : Database.Exchange} {xs : List Database.Exchange}

/-- An exchange changes when an event was published, if it marks it for the first time, and nothing else about it. -/
theorem event_after : (r.after lease x).event =
    { r.event with publishedAt := r.event.publishedAt.or (x.marks? r.event.id) } := by
  cases hcall : x.call with
  | commit => simp only [after, Database.Visit.marks?, hcall, Option.or_none]
  | fetch =>
    simp only [after, Database.Visit.marks?, hcall, Option.or_none]
    split <;> rfl
  | mark id =>
    simp only [after, Database.Visit.marks?, hcall]
    split
    next => cases hp : r.event.publishedAt <;> simp only [publish, hp, Option.getD_none, Option.getD_some,
      Option.none_or, Option.some_or]
    next => simp only [Option.or_none]
  | release =>
    simp only [after, Database.Visit.marks?, hcall, Option.or_none]
    split <;> rfl

theorem id_after : (r.after lease x).event.id = r.event.id := by rw [event_after]

/-- After exchanges an event was published when it was, or else when it was first marked. -/
theorem event_foldl_after : (xs.foldl (after lease) r).event = { r.event with
    publishedAt := r.event.publishedAt.or (Database.firstMark? r.event.id (xs.map (·.toVisit))) } := by
  induction xs generalizing r with
  | nil => simp only [List.foldl_nil, Database.firstMark?, List.map_nil, List.findSome?_nil, Option.or_none]
  | cons x rest ih =>
    rw [List.foldl_cons, ih, event_after, List.map_cons, Database.firstMark?, Database.firstMark?,
      List.findSome?_cons]
    cases r.event.publishedAt <;> cases x.marks? r.event.id <;> rfl

theorem id_foldl_after : (xs.foldl (after lease) r).event.id = r.event.id := by rw [event_foldl_after]

end OutboxRow

namespace Database

variable {db : Database} {v : Visit} {visits : List Visit} {r : OutboxRow} {id : Uuid}

/-! ## One call -/

/-- A call hands out only what a fetch finds claimable. -/
theorem claimable_of_answer (hid : id ∈ (db.exchange v).ids) :
    ∃ r ∈ db.outbox, r.event.id = id ∧ r.isClaimable v.time = true ∧
      ∃ limit, v.call = .fetch limit ∧ db.fetch limit v.time = some (db.answer v) := by
  unfold exchange answer at hid
  cases hcall : v.call with
  | fetch limit =>
    rw [hcall] at hid
    cases hfetch : db.fetch limit v.time with
    | none => simp only [hfetch, Option.getD_none, List.map_nil, List.not_mem_nil] at hid
    | some answer =>
      obtain ⟨last, claimed, rest, hevents, hbefore, -, hclaimable, -⟩ := fetch_perm hfetch
      simp only [hfetch, Option.getD_some, hevents, List.map_map] at hid
      obtain ⟨r, hr, rfl⟩ := List.mem_map.mp hid
      refine ⟨r, hbefore.mem_iff.mpr (List.mem_append_left _ hr), rfl, hclaimable r hr, limit, rfl, ?_⟩
      simp only [Database.answer, hcall, hfetch, Option.getD_some]
  | _ => simp only [hcall, List.map_nil, List.not_mem_nil] at hid

/-- A call writes the events that it commits behind those that are there, and leaves the lease alone. -/
theorem tables_answer (db : Database) (v : Visit) :
    (db.answer v).2.payments = db.payments ++ v.call.payments ∧
      (db.answer v).2.written = db.written ++ v.call.events.map (·.asWritten) ∧
      (db.answer v).2.lease = db.lease := by
  unfold answer
  cases v.call with
  | commit t => exact ⟨rfl, written_commit db t, rfl⟩
  | fetch limit =>
    simp only [Call.payments, Call.events, List.map_nil, List.append_nil]
    cases hfetch : db.fetch limit v.time with
    | none => exact ⟨rfl, rfl, rfl⟩
    | some answer =>
      obtain ⟨hwritten, hpayments⟩ := written_fetch hfetch
      obtain ⟨last, -, rfl⟩ := Option.map_eq_some_iff.mp hfetch
      exact ⟨hpayments, hwritten, rfl⟩
  | mark id => exact ⟨(List.append_nil _).symm, (written_markPublished db id _).trans (List.append_nil _).symm, rfl⟩
  | release id => exact ⟨(List.append_nil _).symm, (written_releaseClaim db id).trans (List.append_nil _).symm, rfl⟩

/-- **Each row goes its own way.** A call turns every row into one that depends on the row and the exchange alone,
and adds the rows that it commits. -/
theorem outbox_answer (hids : (db.outbox.map (·.event.id)).Nodup) (v : Visit) :
    (db.answer v).2.outbox =
      db.outbox.map (·.after db.lease (db.exchange v)) ++ v.call.events.map .ofEvent := by
  have hunique : db.outbox.Pairwise fun a b => a.event.id ≠ b.event.id := List.pairwise_map.mp hids
  have hsame : ∀ f : OutboxRow → OutboxRow, (∀ r ∈ db.outbox, f r = r) → db.outbox.map f = db.outbox :=
    fun f hf => (List.map_congr_left hf).trans (List.map_id _)
  cases hcall : v.call with
  | commit t =>
    rw [hsame _ fun r _ => by simp only [OutboxRow.after, exchange, hcall], answer, hcall]
    rfl
  | fetch limit =>
    simp only [Call.events, List.map_nil, List.append_nil]
    cases hfetch : db.fetch limit v.time with
    | none =>
      have hnone : db.answer v = ([], db) := by simp only [answer, hcall, hfetch, Option.getD_none]
      rw [hsame _ fun r _ => by
        simp only [OutboxRow.after, exchange, hcall, hnone, List.map_nil, List.not_mem_nil, if_false], hnone]
    | some answered =>
      have hanswer : db.answer v = answered := by simp only [answer, hcall, hfetch, Option.getD_some]
      obtain ⟨last, hlast, houtbox⟩ := outbox_fetch hids hfetch
      rw [hanswer, houtbox]
      refine List.map_congr_left fun r _ => ?_
      simp only [OutboxRow.after, exchange, hcall, hanswer, hlast]
      rfl
  | mark id =>
    simp only [Call.events, List.map_nil, List.append_nil, answer, hcall]
    refine (updateFirst_eq_map (hunique.imp fun hne ha => ?_)).trans (List.map_congr_left fun r _ => ?_)
    · exact beq_eq_false_iff_ne.mpr fun hb => hne ((beq_iff_eq.mp ha).trans hb.symm)
    · simp only [OutboxRow.after, exchange, hcall, beq_iff_eq]
  | release id =>
    simp only [Call.events, List.map_nil, List.append_nil, answer, hcall]
    refine (updateFirst_eq_map (hunique.imp fun hne ha => ?_)).trans (List.map_congr_left fun r _ => ?_)
    · rw [Bool.and_eq_true, beq_iff_eq] at ha
      rw [beq_eq_false_iff_ne.mpr fun hb => hne (ha.1.trans hb.symm), Bool.false_and]
    · simp only [OutboxRow.after, exchange, hcall, Bool.and_eq_true, beq_iff_eq]

/-! ## Any number of calls -/

theorem serve_append (db : Database) (before after : List Visit) :
    db.serve (before ++ after) = ((db.serve before).1 ++ ((db.serve before).2.serve after).1,
      ((db.serve before).2.serve after).2) := by
  induction before generalizing db with
  | nil => rfl
  | cons v rest ih => simp only [List.cons_append, serve, ih]

/-- The exchanges are those of the calls, one for each. -/
theorem toVisit_serve (db : Database) (visits : List Visit) : (db.serve visits).1.map (·.toVisit) = visits := by
  induction visits generalizing db with
  | nil => rfl
  | cons v rest ih => exact congrArg (v :: ·) (ih _)

/-- **The tables grow at the end**, by what is committed and in the order of the commits. -/
theorem tables_serve (db : Database) (visits : List Visit) :
    (db.serve visits).2.payments = db.payments ++ visits.flatMap (·.call.payments) ∧
      (db.serve visits).2.written = db.written ++ (visits.flatMap (·.call.events)).map (·.asWritten) ∧
      (db.serve visits).2.lease = db.lease := by
  induction visits generalizing db with
  | nil => exact ⟨(List.append_nil _).symm, (List.append_nil _).symm, rfl⟩
  | cons v rest ih =>
    obtain ⟨hpayments, hwritten, hlease⟩ := tables_answer db v
    obtain ⟨hpayments', hwritten', hlease'⟩ := ih (db.answer v).2
    refine ⟨?_, ?_, hlease'.trans hlease⟩
    · rw [List.flatMap_cons, ← List.append_assoc, ← hpayments]
      exact hpayments'
    · rw [List.flatMap_cons, List.map_append, ← List.append_assoc, ← hwritten]
      exact hwritten'

theorem ids_eq_written (db : Database) : db.outbox.map (·.event.id) = db.written.map (·.id) := by
  rw [written, List.map_map]
  rfl

theorem ids_serve (db : Database) (visits : List Visit) :
    (db.serve visits).2.outbox.map (·.event.id) = db.outbox.map (·.event.id) ++ newIds visits := by
  rw [ids_eq_written, ids_eq_written, (tables_serve db visits).2.1, List.map_append, List.map_map]
  rfl

theorem ids_answer (db : Database) (v : Visit) :
    (db.answer v).2.outbox.map (·.event.id) = db.outbox.map (·.event.id) ++ newIds [v] :=
  ids_serve db [v]

theorem newIds_append (visits more : List Visit) : newIds (visits ++ more) = newIds visits ++ newIds more := by
  rw [newIds, List.flatMap_append, List.map_append]
  rfl

/-- Ids that will be distinct in the end are distinct after the first call. -/
theorem nodup_answer (hids : (db.outbox.map (·.event.id) ++ newIds (v :: visits)).Nodup) :
    ((db.answer v).2.outbox.map (·.event.id) ++ newIds visits).Nodup := by
  rwa [ids_answer, List.append_assoc, ← newIds_append, List.singleton_append]

/-- **Rows stay where they are**, and each goes through the exchanges by itself. -/
theorem outbox_serve (hids : (db.outbox.map (·.event.id) ++ newIds visits).Nodup) :
    db.outbox.map (fun r => (db.serve visits).1.foldl (OutboxRow.after db.lease) r) <+:
      (db.serve visits).2.outbox := by
  induction visits generalizing db with
  | nil => exact (List.map_id _).symm ▸ List.prefix_rfl
  | cons v rest ih =>
    have hrest := ih (nodup_answer hids)
    rw [outbox_answer hids.of_append_left v, (tables_answer db v).2.2, List.map_append, List.map_map] at hrest
    exact (List.prefix_append ..).trans hrest

/-- A row that is there goes through the exchanges. -/
theorem mem_serve (hids : (db.outbox.map (·.event.id) ++ newIds visits).Nodup) (hr : r ∈ db.outbox) :
    (db.serve visits).1.foldl (OutboxRow.after db.lease) r ∈ (db.serve visits).2.outbox :=
  (outbox_serve hids).subset (List.mem_map_of_mem hr)

/-! ## Published rows -/

theorem ClaimsPending.answer (h : db.ClaimsPending) (v : Visit) : (db.answer v).2.ClaimsPending := by
  unfold Database.answer
  cases v.call with
  | commit t => exact h.commit t
  | fetch limit =>
    dsimp only
    cases hfetch : db.fetch limit v.time with
    | none => exact h
    | some answer => exact h.fetch hfetch
  | mark id => exact h.markPublished id v.time
  | release id => exact h.releaseClaim id

/-- Only events that are still to be sent are claimed, however the database is called. -/
theorem ClaimsPending.serve (h : db.ClaimsPending) (visits : List Visit) : (db.serve visits).2.ClaimsPending := by
  induction visits generalizing db with
  | nil => exact h
  | cons v rest ih => exact ih (h.answer v)

/-- What was published stays published. -/
theorem isPending_after (h : r.event.isPending = false) (lease : Duration) (x : Exchange) :
    (r.after lease x).event.isPending = false := by
  rw [OutboxEvent.isPending, Option.isNone_eq_false_iff] at h ⊢
  rw [OutboxRow.event_after, Option.isSome_or, h, Bool.true_or]

/-- What was published is not handed out. -/
theorem not_handed_of_published (hids : (db.outbox.map (·.event.id) ++ newIds visits).Nodup) (hr : r ∈ db.outbox)
    (hpublished : r.event.isPending = false) : ∀ x ∈ (db.serve visits).1, r.event.id ∉ x.ids := by
  induction visits generalizing db r with
  | nil => exact fun x hx => absurd hx List.not_mem_nil
  | cons v rest ih =>
    intro x hx
    rcases List.mem_cons.mp hx with rfl | hx
    · intro hid
      obtain ⟨other, hother, hsame, hclaimable, -⟩ := claimable_of_answer hid
      rw [List.inj_on_of_nodup_map hids.of_append_left hother hr hsame, OutboxRow.isClaimable, hpublished] at hclaimable
      cases hclaimable
    · have hkept : r.after db.lease (db.exchange v) ∈ (db.answer v).2.outbox := by
        rw [outbox_answer hids.of_append_left v]
        exact List.mem_append_left _ (List.mem_map_of_mem hr)
      have hrest := ih (nodup_answer hids) hkept (isPending_after hpublished ..) x hx
      rwa [OutboxRow.id_after] at hrest

/-- A claim on an event that was published is not there to be ended. -/
theorem releaseClaim_of_published (hids : (db.outbox.map (·.event.id)).Nodup) (hr : r ∈ db.outbox)
    (hpublished : r.event.isPending = false) : db.releaseClaim r.event.id = db := by
  have hnone : ∀ other ∈ db.outbox, (other.event.id == r.event.id && other.event.isPending) = false := by
    intro other hother
    cases hid : other.event.id == r.event.id with
    | false => rfl
    | true => rw [List.inj_on_of_nodup_map hids hother hr (beq_iff_eq.mp hid), hpublished, Bool.and_false]
  rw [releaseClaim, updateFirst_of_none hnone]

/-! ## The law -/

/-- **The life of a row.** However a database is called, with whatever arguments and by whatever clock, as long as
the ids of the events that are committed are distinct:

* the ledger and the outbox grow at the end, by what is committed, in the order of the commits;
* a row stays at its place, and it was published when it was, or else at the time of the first mark of its id since;
* a row that was committed is published at the first mark of its id after its commit, unless it came in published;
* a row that is published is claimed by nobody, ending a claim on it changes nothing, and it is never handed out
  again. -/
theorem life_of_rows {lifetime : Duration} {before after : List Visit} (hids : (newIds (before ++ after)).Nodup) :
    let db := ((empty lifetime).serve before).2
    let later := (db.serve after).2
    (later.payments = db.payments ++ after.flatMap (·.call.payments) ∧
      later.written = db.written ++ (after.flatMap (·.call.events)).map (·.asWritten)) ∧
    (∀ (place : Nat) (r : OutboxRow), db.outbox[place]? = some r → ∃ r', later.outbox[place]? = some r' ∧
      r'.event = { r.event with publishedAt := r.event.publishedAt.or (firstMark? r.event.id after) }) ∧
    (∀ first v rest t, before = first ++ v :: rest → v.call = .commit t → ∀ e ∈ t.events, ∃ r ∈ db.outbox,
      r.event = { e with publishedAt := e.publishedAt.or (firstMark? e.id rest) }) ∧
    ∀ r ∈ db.outbox, r.event.isPending = false →
      r.lockedUntil = none ∧ db.releaseClaim r.event.id = db ∧ ∀ x ∈ (db.serve after).1, r.event.id ∉ x.ids := by
  intro db later
  have hdb : (db.outbox.map (·.event.id) ++ newIds after).Nodup := by
    rw [newIds_append] at hids
    rwa [ids_serve]
  refine ⟨?tables, ?publication, ?commits, ?published⟩
  case tables =>
    obtain ⟨hpayments, hwritten, -⟩ := tables_serve db after
    exact ⟨hpayments, hwritten⟩
  case publication =>
    intro place r hr
    obtain ⟨more, hmore⟩ := outbox_serve hdb
    refine ⟨(db.serve after).1.foldl (OutboxRow.after db.lease) r, ?_, ?_⟩
    · have hlt := (List.getElem?_eq_some_iff.mp hr).1
      rw [← hmore, List.getElem?_append_left (by rwa [List.length_map]), List.getElem?_map, hr]
      rfl
    · rw [OutboxRow.event_foldl_after, toVisit_serve]
  case commits =>
    intro first v rest t hbefore hcall e he
    -- the row comes in with its commit, and goes through the rest from there
    have hstart : (((empty lifetime).serve first).2.outbox.map (·.event.id) ++ newIds (v :: rest)).Nodup := by
      rw [newIds_append, hbefore, newIds_append] at hids
      rw [ids_serve]
      exact hids.of_append_left
    have hrow : OutboxRow.ofEvent e ∈ (((empty lifetime).serve first).2.answer v).2.outbox := by
      rw [outbox_answer hstart.of_append_left v, hcall]
      exact List.mem_append_right _ (List.mem_map_of_mem he)
    have hmem := mem_serve (nodup_answer hstart) hrow
    have hlater : ((((empty lifetime).serve first).2.answer v).2.serve rest).2 = db := by
      show _ = ((empty lifetime).serve before).2
      rw [hbefore, serve_append]
      rfl
    rw [hlater] at hmem
    refine ⟨_, hmem, ?_⟩
    rw [OutboxRow.event_foldl_after, toVisit_serve]
    rfl
  case published =>
    intro r hr hpublished
    refine ⟨?_, releaseClaim_of_published hdb.of_append_left hr hpublished, not_handed_of_published hdb hr hpublished⟩
    have hnone : (empty lifetime).ClaimsPending := fun r hr => absurd hr List.not_mem_nil
    have hclaims := (hnone.serve before) r hr
    cases hlocked : r.lockedUntil with
    | none => rfl
    | some last =>
      rw [hlocked] at hclaims
      rw [hclaims rfl] at hpublished
      cases hpublished

/-- An event of a second without content. -/
def bareEvent (id : Nat) (seconds : Int) : OutboxEvent :=
  ⟨.ofNat id, "bare", ⟨seconds, 0⟩, .null, none⟩

/-- Two events are committed. One of them is marked before its commit, in vain, and again when it has been handed
out. -/
def earlyVisits : List Visit :=
  [⟨0, ⟨0, 0⟩, .mark (.ofNat 1)⟩, ⟨0, ⟨1, 0⟩, .commit ⟨[], [bareEvent 1 5, bareEvent 2 3]⟩⟩, ⟨1, ⟨2, 0⟩, .fetch 2⟩,
    ⟨1, ⟨3, 0⟩, .mark (.ofNat 1)⟩]

/-- It is marked again, under a clock that has gone back, and its claim is ended; then everything is fetched and the
other event is marked. -/
def lateVisits : List Visit :=
  [⟨1, ⟨2, 0⟩, .mark (.ofNat 1)⟩, ⟨2, ⟨2, 0⟩, .release (.ofNat 1)⟩, ⟨2, ⟨99, 0⟩, .fetch 10⟩,
    ⟨2, ⟨99, 0⟩, .mark (.ofNat 2)⟩]

/-- The first mark after the commit counts, whatever comes before and after it, and what was published then is not
handed out later. The other event is published in its turn. -/
theorem life_of_rows_of_early :
    let db := ((empty (.ofSeconds 30)).serve earlyVisits).2
    (∃ r ∈ db.outbox, r.event = { bareEvent 1 5 with publishedAt := some ⟨3, 0⟩ } ∧ r.lockedUntil = none ∧
      ∀ x ∈ (db.serve lateVisits).1, .ofNat 1 ∉ x.ids) ∧
    ∃ r ∈ (db.serve lateVisits).2.outbox, r.event = { bareEvent 2 3 with publishedAt := some ⟨99, 0⟩ } := by
  intro db
  obtain ⟨-, hpublication, hcommits, hpublished⟩ :=
    @life_of_rows (.ofSeconds 30) earlyVisits lateVisits (by decide +kernel)
  have hcommit := hcommits [_] _ _ ⟨[], [bareEvent 1 5, bareEvent 2 3]⟩ rfl rfl
  constructor
  · obtain ⟨r, hr, hevent⟩ := hcommit (bareEvent 1 5) (List.mem_cons_self ..)
    have hid : r.event.id = .ofNat 1 := by rw [hevent]; rfl
    obtain ⟨hfree, -, hgone⟩ := hpublished r hr (by rw [hevent]; rfl)
    exact ⟨r, hr, hevent, hfree, hid ▸ hgone⟩
  · obtain ⟨r, hr, hevent⟩ := hcommit (bareEvent 2 3) (List.mem_cons_of_mem _ (List.mem_cons_self ..))
    obtain ⟨place, hplace⟩ := List.mem_iff_getElem?.mp hr
    obtain ⟨r', hr', hevent'⟩ := hpublication place r hplace
    exact ⟨r', List.mem_of_getElem? hr', by rw [hevent', hevent]; rfl⟩

end Database

end PaymentRelay
