import Mathlib.Data.List.Forall2
import Mathlib.Data.List.Nodup
import PaymentRelay.Proofs.Outbox.Calls
import PaymentRelay.Proofs.Outbox.Claims

/-!
# One tick from end to end

Here a tick has a system for itself: nobody else calls the store or the broker until it has ended, while time passes
between its calls as it likes (`Tick.play`). Any of its calls may fail.

A tick that has its batch goes through the events of it one after the other. `Tick.Relayed` says what it has done so
far, given how each of these events went: what was counted and sent, and what became of every row. A row is left as
the passage of its event leaves it (`Passage.Leaves`), and no failure reaches another row. One step takes one event
further (`Relayed.step`); so the law about a whole tick is an induction over its steps.
-/

namespace PaymentRelay

/-- What lists are matched with holds of each of their elements. -/
theorem exists_of_mem_of_forall₂ {R : α → β → Prop} {as : List α} {bs : List β} (h : List.Forall₂ R as bs) {a : α}
    (ha : a ∈ as) : ∃ b ∈ bs, R a b := by
  induction h with
  | nil => cases ha
  | cons hab _ ih =>
    rcases List.mem_cons.mp ha with rfl | ha
    · exact ⟨_, List.mem_cons_self, hab⟩
    · obtain ⟨b, hb, hr⟩ := ih ha
      exact ⟨b, List.mem_cons_of_mem _ hb, hr⟩

namespace Database

variable {db after : Database} {limit : Nat} {now : Instant} {events : List OutboxEvent} {r : OutboxRow}

/-- A fetch hands out no event twice. -/
theorem nodup_of_fetch (hids : (db.outbox.map (·.event.id)).Nodup) (h : db.fetch limit now = some (events, after)) :
    (events.map (·.id)).Nodup := by
  obtain ⟨last, claimed, rest, rfl, hbefore, -⟩ := fetch_perm h
  have hall := (hbefore.map (·.event.id)).nodup_iff.mp hids
  rw [List.map_append] at hall
  rw [List.map_map]
  exact hall.of_append_left

/-- A row is of the batch if its id is. -/
theorem mem_of_fetch (hids : (db.outbox.map (·.event.id)).Nodup) (h : db.fetch limit now = some (events, after))
    (hr : r ∈ db.outbox) {e : OutboxEvent} (he : e ∈ events) (hid : r.event.id = e.id) : r.event = e := by
  obtain ⟨row, hrow, -, rfl⟩ := (oldest_of_fetch hids h).2.2.1 e he
  rw [List.inj_on_of_nodup_map hids hr hrow hid]

/-- The end of a claim leaves the events that are still to be sent. -/
theorem pending_releaseClaim (db : Database) (id : Uuid) : (db.releaseClaim id).pending = db.pending := by
  rw [pending_eq, pending_eq]
  exact congrArg _ (map_updateFirst (f := (·.unlock)) (fun _ => rfl) db.outbox)

/-- A mark changes the row of its event, where ids are distinct. -/
theorem outbox_markPublished (hids : (db.outbox.map (·.event.id)).Nodup) (id : Uuid) :
    (db.markPublished id now).outbox = db.outbox.map fun r => if r.event.id = id then r.publish now else r :=
  (outbox_answer hids ⟨0, now, .mark id⟩).trans (List.append_nil _)

/-- The end of a claim changes the row of its event, where ids are distinct. -/
theorem outbox_releaseClaim (hids : (db.outbox.map (·.event.id)).Nodup) (id : Uuid) :
    (db.releaseClaim id).outbox = db.outbox.map fun r =>
      if r.event.id = id then if r.event.isPending then r.unlock else r else r := by
  simp only [← ite_and]
  exact (outbox_answer hids ⟨0, ⟨0, 0⟩, .release id⟩).trans (List.append_nil _)

end Database

namespace Tick

/-! ## A tick by itself -/

/-- What happens while a tick has the system for itself. -/
inductive Happening where
  | answer (m : Move)
  | pass (nanos : Nat)
deriving Repr

/-- The call that a step of a tick answers, with what the clock shows. -/
def callAt? (t : Tick) (m : Move) (s : System) : Option (Instant × Call) :=
  (t.call? m s).map fun call => (s.now, call)

/-- Lets a tick go through this, and collects its calls with their times. -/
def play (t : Tick) (s : System) : List Happening → Option (List (Instant × Call) × Tick × System)
  | [] => some ([], t, s)
  | .answer m :: rest =>
    if m.isAnswer then
      match t.step m s with
      | some (t', s') => (t'.play s' rest).map fun after => ((t.callAt? m s).toList ++ after.1, after.2)
      | none => none
    else none
  | .pass nanos :: rest => t.play (s.advance nanos) rest

variable {t t' : Tick} {m : Move} {s s' : System} {calls : List (Instant × Call)} {course : List Happening}

/-- What all steps and all passing of time keep holds when a tick has played. -/
theorem play_keeps {P : List (Instant × Call) → Tick → System → Prop}
    (hanswer : ∀ {calls t m s t' s'}, P calls t s → t.Transition s m t' s' → m.isAnswer = true →
      P (calls ++ (t.callAt? m s).toList) t' s')
    (hpass : ∀ {calls t s} nanos, P calls t s → P calls t (s.advance nanos)) {done : List (Instant × Call)} (h : P done t s)
    (hplay : t.play s course = some (calls, t', s')) : P (done ++ calls) t' s' := by
  induction course generalizing t s done calls with
  | nil =>
    cases hplay
    rwa [List.append_nil]
  | cons event rest ih =>
    cases event with
    | pass nanos => exact ih (hpass nanos h) hplay
    | answer m =>
      unfold play at hplay
      split at hplay
      next hm =>
        split at hplay
        next t₁ s₁ hstep =>
          obtain ⟨⟨later, last⟩, hrest, heq⟩ := Option.map_eq_some_iff.mp hplay
          cases heq
          rw [← List.append_assoc]
          exact ih (hanswer h (transition_of_step hstep) hm) hrest
        next => cases hplay
      next => cases hplay

theorem play_of_step (hstep : t.step m s = some (t', s')) (hm : m.isAnswer = true) {last : Tick × System}
    (hrest : t'.play s' course = some (calls, last)) :
    t.play s (.answer m :: course) = some ((t.callAt? m s).toList ++ calls, last) := by
  simp only [play, if_pos hm, hstep, hrest, Option.map_some]

/-- **Whichever calls of a tick fail, it can go on to its end**, if the calendar reaches far enough for its fetch. -/
theorem exists_course (f : Failures) (t : Tick) (s : System) (hunderWay : t.progress.IsUnderWay)
    (hreach : t.progress = .fetching → f.fetch = true ∨ (s.now.add? s.database.lease).isSome = true) :
    ∃ course calls t' s', t.play s course = some (calls, t', s') ∧ t'.progress = .ended ∧
      ∀ c ∈ calls, c.2.Agrees f := by
  obtain ⟨m, t₁, s₁, hm, hstep, hagrees, hbatch, hless⟩ := t.exists_answer s f hunderWay hreach
  replace hagrees : ∀ c ∈ (t.callAt? m s).toList, c.2.Agrees f := by
    intro c hc
    obtain ⟨call, hcall, rfl⟩ := Option.map_eq_some_iff.mp (Option.mem_toList.mp hc)
    exact hagrees call hcall
  rcases hbatch.ended_or with hended | ⟨hnext, hfetched⟩
  · refine ⟨[.answer m], _, t₁, s₁, play_of_step hstep hm rfl, hended, ?_⟩
    rwa [List.append_nil]
  · obtain ⟨course, calls, t', s', hplay, hended, hcalls⟩ :=
      exists_course f t₁ s₁ hnext fun hp => absurd hp hfetched
    refine ⟨.answer m :: course, _, t', s', play_of_step hstep hm hplay, hended, ?_⟩
    exact fun c hc => (List.mem_append.mp hc).elim (hagrees c) (hcalls c)
termination_by callsLeft s.database.outbox.length t.progress

/-! ## What becomes of a row -/

namespace Passage

/-- Whether an event was published and marked. -/
def isDone (p : Passage) : Bool := p.isSent && p.isSettled

/-- What a passage leaves of the row of its event, if the claim on it was up to an instant. -/
def Leaves (p : Passage) (last : Instant) (r r' : OutboxRow) : Prop :=
  match p.isSettled, p.isSent with
  | true, true => r' = r.publish p.settledAt
  | true, false => r' = r.unlock
  | false, _ => r' = r.lock last

theorem Leaves.id_eq {p : Passage} {last : Instant} {r r' : OutboxRow} (h : p.Leaves last r r') :
    r'.event.id = r.event.id := by
  unfold Leaves at h
  split at h <;> rw [h] <;> rfl

end Passage

/-- What a tick has made of a row, after these passages and with these events left. -/
inductive Fate (last : Instant) (ps : List Passage) (left : List OutboxEvent) (r r' : OutboxRow) : Prop
  | aside (hevent : r.event ∉ ps.map (·.event) ++ left) (hrow : r' = r)
  | claimed (hevent : r.event ∈ left) (hrow : r' = r.lock last)
  | passed (p : Passage) (hp : p ∈ ps) (hevent : p.event = r.event) (hrow : p.Leaves last r r')

namespace Fate

variable {last : Instant} {ps : List Passage} {left rest : List OutboxEvent} {r r' : OutboxRow} {p : Passage}

theorem id_eq (h : Fate last ps left r r') : r'.event.id = r.event.id := by
  cases h with
  | aside _ hrow => rw [hrow]
  | claimed _ hrow => rw [hrow]; rfl
  | passed p _ _ hrow => exact hrow.id_eq

/-- The next event passes, and only its row changes. -/
theorem pass {g : OutboxRow → OutboxRow} (h : Fate last ps (p.event :: rest) r r')
    (hbatch : (ps.map (·.event) ++ p.event :: rest).Nodup) (hsame : r.event.id = p.event.id → r.event = p.event)
    (hleaves : r.event = p.event → p.Leaves last r (g (r.lock last))) :
    Fate last (ps ++ [p]) rest r (if r'.event.id = p.event.id then g r' else r') := by
  obtain ⟨-, hnodup, hdisjoint⟩ := List.nodup_append.mp hbatch
  have hid := h.id_eq
  rw [hid]
  by_cases hevent : r.event = p.event
  · rw [if_pos (congrArg _ hevent)]
    refine .passed p (List.mem_append_right _ List.mem_cons_self) hevent.symm ?_
    cases h with
    | aside hout => exact absurd (List.mem_append_right _ (hevent ▸ List.mem_cons_self)) hout
    | claimed _ hrow => exact hrow ▸ hleaves hevent
    | passed q hq hqevent =>
      exact absurd (hqevent.trans hevent) (hdisjoint _ (List.mem_map_of_mem hq) _ List.mem_cons_self)
  · rw [if_neg (mt hsame hevent)]
    cases h with
    | aside hout hrow =>
      refine .aside ?_ hrow
      rwa [List.map_append, List.append_assoc]
    | claimed hin hrow => exact .claimed ((List.mem_cons.mp hin).resolve_left hevent) hrow
    | passed q hq hqevent hrow => exact .passed q (List.mem_append_left _ hq) hqevent hrow

end Fate

/-! ## What becomes of the tables -/

/-- What a tick has made of a database that it claimed a batch of, after these passages and with these events left. -/
structure Rewritten (before : Database) (last : Instant) (ps : List Passage) (left : List OutboxEvent)
    (db : Database) : Prop where
  tables : db = { before with outbox := db.outbox }
  pending : db.pending.length + ps.countP (·.isDone) = before.pending.length
  rows : List.Forall₂ (Fate last ps left) before.outbox db.outbox

section

variable {before db db' : Database} {last now : Instant} {limit : Nat} {events left rest : List OutboxEvent}
  {ps : List Passage} {p : Passage} {event : OutboxEvent}

/-- A fetch claims the rows of its batch, and leaves the others. -/
theorem rewritten_of_fetch (hids : (before.outbox.map (·.event.id)).Nodup)
    (hfetch : before.fetch limit now = some (events, db)) (hlast : now.add? before.lease = some last) :
    Rewritten before last [] events db := by
  constructor
  case tables =>
    obtain ⟨_, -, hdb⟩ := Option.map_eq_some_iff.mp hfetch
    rw [← (Prod.mk.inj hdb).2]
  case pending =>
    have hperm := (Database.events_fetch_perm hfetch).filter (·.isPending)
    rw [← Database.pending_eq, ← Database.pending_eq] at hperm
    exact hperm.length_eq
  case rows =>
    obtain ⟨last', hlast', houtbox⟩ := Database.outbox_fetch hids hfetch
    obtain rfl : last' = last := Option.some.inj (hlast'.symm.trans hlast)
    rw [houtbox, List.forall₂_map_right_iff, List.forall₂_same]
    intro r hr
    split
    next hid =>
      obtain ⟨e, he, hsame⟩ := List.mem_map.mp hid
      exact .claimed (Database.mem_of_fetch hids hfetch hr he hsame.symm ▸ he) rfl
    next hid => exact .aside (mt List.mem_map_of_mem hid) rfl

namespace Rewritten

/-- No row is added or taken away. -/
theorem ids_eq (h : Rewritten before last ps left db) :
    db.outbox.map (·.event.id) = before.outbox.map (·.event.id) := by
  have hids : List.Forall₂ (· = ·) (db.outbox.map (·.event.id)) (before.outbox.map (·.event.id)) := by
    rw [List.forall₂_map_left_iff, List.forall₂_map_right_iff]
    exact (h.rows.imp fun _ _ => Fate.id_eq).flip
  rwa [List.forall₂_eq_eq_eq] at hids

end Rewritten

/-- The events of a batch were free, each in a row of its own. -/
structure Batch (before : Database) (now : Instant) (events : List OutboxEvent) : Prop where
  ids : (before.outbox.map (·.event.id)).Nodup
  nodup : events.Nodup
  free : ∀ e ∈ events, ∃ r ∈ before.outbox, r.event = e ∧ r.IsFree now

theorem batch_of_fetch (hids : (before.outbox.map (·.event.id)).Nodup)
    (hfetch : before.fetch limit now = some (events, db)) : Batch before now events where
  ids := hids
  nodup := (Database.nodup_of_fetch hids hfetch).of_map
  free e he := by
    obtain ⟨r, hr, hfree, hevent⟩ := (Database.oldest_of_fetch hids hfetch).2.2.1 e he
    exact ⟨r, hr, hevent, hfree⟩

namespace Rewritten

/-- The row of an event that is left was free, and is claimed. -/
theorem row_of_left (h : Rewritten before last ps left db) (hbatch : Batch before now (ps.map (·.event) ++ left))
    (hevent : event ∈ left) : ∃ r : OutboxRow, r.event = event ∧ r.IsFree now ∧ r.lock last ∈ db.outbox := by
  obtain ⟨r, hr, rfl, hfree⟩ := hbatch.free event (List.mem_append_right _ hevent)
  obtain ⟨r', hr', hfate⟩ := exists_of_mem_of_forall₂ h.rows hr
  refine ⟨r, rfl, hfree, ?_⟩
  cases hfate with
  | aside hout => exact absurd (List.mem_append_right _ hevent) hout
  | claimed _ hrow => exact hrow ▸ hr'
  | passed p hp hpevent =>
    exact absurd hpevent ((List.nodup_append.mp hbatch.nodup).2.2 _ (List.mem_map_of_mem hp) _ hevent)

/-- The row of an event that has passed was free, and is as its passage has left it. -/
theorem row_of_passage (h : Rewritten before last ps left db) (hbatch : Batch before now (ps.map (·.event) ++ left))
    (hp : p ∈ ps) :
    ∃ r r' : OutboxRow, r.event = p.event ∧ r.IsFree now ∧ r' ∈ db.outbox ∧ p.Leaves last r r' := by
  obtain ⟨hnodup, -, hdisjoint⟩ := List.nodup_append.mp hbatch.nodup
  have hin := List.mem_map_of_mem (f := (·.event)) hp
  obtain ⟨r, hr, hevent, hfree⟩ := hbatch.free p.event (List.mem_append_left _ hin)
  obtain ⟨r', hr', hfate⟩ := exists_of_mem_of_forall₂ h.rows hr
  refine ⟨r, r', hevent, hfree, hr', ?_⟩
  cases hfate with
  | aside hout => exact absurd (List.mem_append_left _ (hevent ▸ hin)) hout
  | claimed hleft => exact absurd hevent.symm (hdisjoint _ hin _ hleft)
  | passed q hq hqevent hrow => rwa [List.inj_on_of_nodup_map hnodup hp hq (hevent.symm.trans hqevent.symm)]

/-- An event that is left is still to be sent. -/
theorem pending_of_left (h : Rewritten before last ps left db)
    (hbatch : Batch before now (ps.map (·.event) ++ left)) (hevent : event ∈ left) : event ∈ db.pending := by
  obtain ⟨r, rfl, hfree, hlocked⟩ := h.row_of_left hbatch hevent
  exact List.mem_map.mpr ⟨_, List.mem_filter.mpr ⟨hlocked, Option.isNone_iff_eq_none.mpr hfree.1⟩, rfl⟩

/-- **An event passes**, and the database changes its row and no other. -/
theorem pass (h : Rewritten before last ps (p.event :: rest) db)
    (hbatch : Batch before now (ps.map (·.event) ++ p.event :: rest))
    (htables : db' = { db with outbox := db'.outbox })
    (hpending : db'.pending.length + p.isDone.toNat = db.pending.length) {g : OutboxRow → OutboxRow}
    (hrows : db'.outbox = db.outbox.map fun r => if r.event.id = p.event.id then g r else r)
    (hleaves : ∀ r, r.IsFree now → p.Leaves last r (g (r.lock last))) :
    Rewritten before last (ps ++ [p]) rest db' := by
  constructor
  case tables => rw [htables, h.tables]
  case pending =>
    have hbefore := h.pending
    rw [List.countP_append, List.countP_singleton]
    cases hdone : p.isDone <;> rw [hdone] at hpending
    · exact (congrArg (· + _) hpending).trans hbefore
    · have hone : true.toNat = 1 := rfl
      rw [if_pos rfl]
      omega
  case rows =>
    rw [hrows, List.forall₂_map_right_iff]
    refine List.forall₂_iff_zip.mpr ⟨h.rows.length_eq, fun {r r'} hzip => ?_⟩
    obtain ⟨row, hrow, hevent, hfree⟩ := hbatch.free p.event (List.mem_append_right _ List.mem_cons_self)
    have hsame : r.event.id = p.event.id → r = row := fun hid =>
      List.inj_on_of_nodup_map hbatch.ids (List.of_mem_zip hzip).1 hrow (hid.trans (congrArg _ hevent.symm))
    refine (List.forall₂_zip h.rows hzip).pass hbatch.nodup (fun hid => hsame hid ▸ hevent) fun hr => ?_
    obtain rfl := hsame (congrArg _ hr)
    exact hleaves r hfree

/-- The next event is marked. -/
theorem mark (h : Rewritten before last ps (event :: rest) db)
    (hbatch : Batch before now (ps.map (·.event) ++ event :: rest)) (time : Instant) :
    Rewritten before last (ps ++ [⟨event, true, true, time⟩]) rest (db.markPublished event.id time) := by
  have hids : (db.outbox.map (·.event.id)).Nodup := h.ids_eq ▸ hbatch.ids
  refine h.pass (p := ⟨event, true, true, time⟩) hbatch rfl ?_ (Database.outbox_markPublished hids _) fun r _ => rfl
  have hperm := Database.pending_markPublished hids (h.pending_of_left hbatch List.mem_cons_self) time
  rw [hperm.length_eq]
  rfl

/-- The next event has its claim ended. -/
theorem release (h : Rewritten before last ps (event :: rest) db)
    (hbatch : Batch before now (ps.map (·.event) ++ event :: rest)) (time : Instant) :
    Rewritten before last (ps ++ [⟨event, false, true, time⟩]) rest (db.releaseClaim event.id) := by
  have hids : (db.outbox.map (·.event.id)).Nodup := h.ids_eq ▸ hbatch.ids
  refine h.pass (p := ⟨event, false, true, time⟩) hbatch rfl ?_ (Database.outbox_releaseClaim hids _) fun r hfree => ?_
  · rw [Database.pending_releaseClaim]
    rfl
  · exact if_pos (Option.isNone_iff_eq_none.mpr hfree.1)

/-- The last call about the next event fails. -/
theorem fail (h : Rewritten before last ps (event :: rest) db)
    (hbatch : Batch before now (ps.map (·.event) ++ event :: rest)) (isSent : Bool) (time : Instant) :
    Rewritten before last (ps ++ [⟨event, isSent, false, time⟩]) rest db := by
  refine h.pass (p := ⟨event, isSent, false, time⟩) (g := id) hbatch rfl ?_ ?_ fun r _ => rfl
  · rw [Passage.isDone, Bool.and_false]
    rfl
  · simp only [id_eq, ite_self, List.map_id']

end Rewritten

end

/-! ## A batch under way -/

end Tick

/-- How many failures a tick has counted of the event which it is at. -/
def TickProgress.failing : TickProgress → Nat
  | .unclaiming .. => 1
  | _ => 0

namespace Tick

theorem failing_next (t : Tick) (rest : List OutboxEvent) : (t.next rest).progress.failing = 0 := by
  cases rest <;> rfl

/-- What a tick has done that claimed a batch in the system `before`, after these passages. -/
structure Relayed (before : System) (last : Instant) (ps : List Passage) (t : Tick) (s : System) : Prop where
  hasBatch : t.progress.HasBatch
  batch : Batch before.database before.now (ps.map (·.event) ++ t.progress.events)
  fetched : t.report.fetched = ps.length + t.progress.events.length
  published : t.report.published = ps.countP (·.isDone)
  failed : t.report.failed = ps.countP (!·.isDone) + t.progress.failing
  records : s.broker.records = before.broker.records ++
    ((ps.filter (·.isSent)).map (·.event) ++ t.progress.sent).map (.ofEvent t.topic)
  rewritten : Rewritten before.database last ps t.progress.events s.database

section

variable {t t' : Tick} {m : Move} {s s' before : System} {last : Instant} {events rest : List OutboxEvent}
  {ps : List Passage} {limit : Nat} {db : Database} {event : OutboxEvent} {isSent isSettled : Bool}
  {time : Instant}

theorem relayed_of_fetch (hids : (before.database.outbox.map (·.event.id)).Nodup)
    (hfetch : before.database.fetch limit before.now = some (events, db))
    (hlast : before.now.add? before.database.lease = some last) (hreport : t.report = ⟨0, 0, 0⟩) :
    Relayed before last [] ((t.countFetched events.length).next events) { before with database := db } := by
  constructor
  case hasBatch => exact hasBatch_next ..
  case batch =>
    rw [events_next]
    exact batch_of_fetch hids hfetch
  case fetched =>
    rw [report_next, events_next]
    exact (Nat.zero_add _).symm
  case published => rw [report_next, countFetched, hreport]; rfl
  case failed => rw [report_next, failing_next, countFetched, hreport]; rfl
  case records =>
    rw [sent_next]
    exact (List.append_nil _).symm
  case rewritten =>
    rw [events_next]
    exact rewritten_of_fetch hids hfetch hlast

namespace Relayed

/-- An event has passed when its second call is answered. -/
theorem next (h : Relayed before last ps t s) (hevents : t.progress.events = event :: rest)
    (hsent : t.progress.sent = if isSent then [event] else []) {t₀ : Tick} (htopic : t₀.topic = t.topic)
    (hfetched : t₀.report.fetched = t.report.fetched)
    (hpublished : t₀.report.published = t.report.published + (isSent && isSettled).toNat)
    (hfailed : t₀.report.failed + t.progress.failing = t.report.failed + (!(isSent && isSettled)).toNat)
    (hbroker : s'.broker = s.broker)
    (hrewritten : Rewritten before.database last (ps ++ [⟨event, isSent, isSettled, time⟩]) rest s'.database) :
    Relayed before last (ps ++ [⟨event, isSent, isSettled, time⟩]) (t₀.next rest) s' := by
  have hcount : ∀ (q : Passage → Bool) p, (ps ++ [p]).countP q = ps.countP q + (q p).toNat := by
    intro q p
    rw [List.countP_append, List.countP_singleton]
    cases q p <;> rfl
  constructor
  case hasBatch => exact hasBatch_next ..
  case batch =>
    have hbatch := h.batch
    rw [hevents] at hbatch
    rw [events_next, List.map_append, List.append_assoc]
    exact hbatch
  case fetched =>
    rw [report_next, hfetched, h.fetched, hevents, events_next, List.length_append, List.length_cons,
      List.length_singleton]
    omega
  case published =>
    rw [report_next, hpublished, h.published, hcount]
    rfl
  case failed =>
    rw [h.failed] at hfailed
    rw [report_next, failing_next, hcount]
    exact Nat.add_right_cancel (hfailed.trans (Nat.add_right_comm ..))
  case records =>
    rw [hbroker, h.records, hsent, sent_next, topic_next, htopic]
    simp only [List.filter_append, List.map_append, List.append_nil]
    cases isSent <;> rfl
  case rewritten => rwa [events_next]

/-- **A step takes an event further.** -/
theorem step (h : Relayed before last ps t s) (ht : t.Transition s m t' s') (hm : m.isAnswer = true) :
    Relayed before last (ps ++ (t.passage? m s).toList) t' s' := by
  have hbatch := h.batch
  have hrewritten := h.rewritten
  cases ht with
  | fetches _ _ hp | overflows hp | fetchFails hp =>
    have hhas := h.hasBatch
    rw [hp] at hhas
    exact hhas.elim
  | publishes event rest hp =>
    simp only [passage?, hp, Option.toList_none, List.append_nil]
    rw [hp] at hbatch hrewritten
    refine ⟨trivial, hbatch, ?_, h.published, ?_, ?_, hrewritten⟩
    · rw [become, h.fetched, hp]; rfl
    · rw [become, h.failed, hp]; rfl
    · simp only [become, Broker.publish, h.records, hp, TickProgress.sent, List.append_nil, List.map_append,
        List.append_assoc, List.map_cons, List.map_nil]
  | publishFails event rest hp =>
    simp only [passage?, hp, Option.toList_none, List.append_nil]
    rw [hp] at hbatch hrewritten
    refine ⟨trivial, hbatch, ?_, h.published, ?_, ?_, hrewritten⟩
    · rw [become, countFailed, h.fetched, hp]; rfl
    · rw [become, countFailed, h.failed, hp]; rfl
    · rw [become, countFailed, System.log, h.records, hp]; rfl
  | marks event rest hp =>
    simp only [passage?, hp, Option.toList_some]
    simp only [hp, TickProgress.events] at hbatch hrewritten
    exact h.next (by rw [hp]; rfl) (by rw [hp]; rfl) rfl rfl rfl (by rw [hp]; rfl) rfl (hrewritten.mark hbatch s.now)
  | markFails event rest hp =>
    simp only [passage?, hp, Option.toList_some]
    simp only [hp, TickProgress.events] at hbatch hrewritten
    exact h.next (by rw [hp]; rfl) (by rw [hp]; rfl) rfl rfl rfl (by rw [hp]; rfl) rfl
      (hrewritten.fail hbatch true s.now)
  | unclaims event rest hp =>
    simp only [passage?, hp, Option.toList_some]
    simp only [hp, TickProgress.events] at hbatch hrewritten
    exact h.next (by rw [hp]; rfl) (by rw [hp]; rfl) rfl rfl rfl (by rw [hp]; rfl) rfl
      (hrewritten.release hbatch s.now)
  | unclaimFails event rest hp =>
    simp only [passage?, hp, Option.toList_some]
    simp only [hp, TickProgress.events] at hbatch hrewritten
    exact h.next (by rw [hp]; rfl) (by rw [hp]; rfl) rfl rfl rfl (by rw [hp]; rfl) rfl
      (hrewritten.fail hbatch false s.now)
  | dropped => cases hm

/-- Time passes. -/
theorem advance (h : Relayed before last ps t s) (nanos : Nat) : Relayed before last ps t (s.advance nanos) :=
  ⟨h.hasBatch, h.batch, h.fetched, h.published, h.failed, h.records, h.rewritten⟩

end Relayed

/-! ## A whole tick -/

/-- How far a tick is that began in the system `s₀`, and what its calls were. -/
inductive Course (s₀ : System) (topic : String) (batch : Nat) (calls : List (Instant × Call)) (t : Tick)
    (s : System) : Prop
  | fetching (nanos : Nat) (ht : t = start topic batch) (hcalls : calls = []) (hs : s = s₀.advance nanos)
  | unfetched (nanos : Nat) (ht : t = (start topic batch).become .ended) (hcalls : calls.map (·.2) = [.fetch none])
      (hs : s = (s₀.advance nanos).log .fetchFailed)
  | passed (nanos : Nat) (last : Instant) (ps : List Passage) (db : Database)
      (hlast : (s₀.advance nanos).now.add? s₀.database.lease = some last)
      (hfetch : s₀.database.fetch batch (s₀.advance nanos).now = some (ps.map (·.event) ++ t.progress.events, db))
      (htopic : t.topic = topic) (hcalls : t.Passed ps (calls.map (·.2)))
      (htimes : ∀ p ∈ ps, (p.settledAt, p.settling) ∈ calls) (h : Relayed (s₀.advance nanos) last ps t s)
  | broken (nanos : Nat) (ht : t = (start topic batch).become .broken) (hcalls : calls = [])
      (hs : s = s₀.advance nanos) (hreach : ∃ fetched, (s₀.advance fetched).now.add? s₀.database.lease = none)

variable {s₀ : System} {topic : String} {batch : Nat} {calls : List (Instant × Call)}

theorem advance_advance (s : System) (m n : Nat) : (s.advance m).advance n = s.advance (m + n) := by
  rw [System.advance, System.advance, System.advance, Nat.add_assoc]

theorem Course.advance (h : Course s₀ topic batch calls t s) (nanos : Nat) :
    Course s₀ topic batch calls t (s.advance nanos) := by
  cases h with
  | fetching n ht hcalls hs => exact .fetching (n + nanos) ht hcalls (hs ▸ advance_advance ..)
  | unfetched n ht hcalls hs =>
    refine .unfetched (n + nanos) ht hcalls ?_
    rw [hs, ← advance_advance]
    rfl
  | passed n last ps db hlast hfetch htopic hcalls htimes h =>
    exact .passed n last ps db hlast hfetch htopic hcalls htimes (h.advance nanos)
  | broken n ht hcalls hs hreach => exact .broken (n + nanos) ht hcalls (hs ▸ advance_advance ..) hreach

/-- **A step takes a tick further on its course.** -/
theorem Course.step (h : Course s₀ topic batch calls t s) (hids : (s₀.database.outbox.map (·.event.id)).Nodup)
    (ht : t.Transition s m t' s') (hm : m.isAnswer = true) :
    Course s₀ topic batch (calls ++ (t.callAt? m s).toList) t' s' := by
  have huntimed : (calls ++ (t.callAt? m s).toList).map (·.2) = calls.map (·.2) ++ (t.call? m s).toList := by
    rw [List.map_append, callAt?]
    cases t.call? m s <;> rfl
  cases h with
  | fetching n hstart hcalls hs =>
    subst hstart hcalls hs
    cases ht with
    | fetches events db hp hfetch =>
      obtain ⟨last, hlast, -⟩ := Database.outbox_fetch hids hfetch
      refine .passed n last [] db hlast ?_ ?_ ?_ nofun (relayed_of_fetch hids hfetch hlast rfl)
      · rwa [events_next]
      · rw [topic_next]; rfl
      · rw [huntimed]
        simp only [call?, hp, hfetch, Option.map_some, Option.toList_some, List.map_nil, List.nil_append]
        exact passed_of_fetch _ events
    | overflows hp hfetch =>
      refine .broken n rfl ?_ rfl ⟨n, ?_⟩
      · simp only [callAt?, call?, hp, hfetch, Option.map_none, Option.toList_none, List.append_nil]
      · exact Option.map_eq_none_iff.mp hfetch
    | fetchFails hp => exact .unfetched n rfl rfl rfl
    | dropped => cases hm
    | publishes _ _ hp | publishFails _ _ hp | marks _ _ hp | markFails _ _ hp | unclaims _ _ hp
    | unclaimFails _ _ hp => cases hp
  | passed n last ps db hlast hfetch htopic hcalls htimes h =>
    have hnext := hcalls.step ht hm
    -- the batch is what the first of the calls brought
    have hsame := hnext.calls_eq
    rw [hcalls.calls_eq] at hsame
    have hbatch := Option.some.inj (Call.fetch.inj (List.cons.inj hsame).1)
    refine .passed n last (ps ++ (t.passage? m s).toList) db hlast ?_ (ht.topic.trans htopic) (huntimed ▸ hnext) ?_
      (h.step ht hm)
    · rwa [← hbatch]
    · intro p hp
      rcases List.mem_append.mp hp with hp | hp
      · exact List.mem_append_left _ (htimes p hp)
      · obtain ⟨hcall, htime⟩ := call_of_passage (Option.mem_toList.mp hp)
        rw [callAt?, hcall, htime]
        exact List.mem_append_right _ List.mem_cons_self
  | unfetched n hended | broken n hended => exact (hended ▸ ht.underWay).elim

/-- **The course of every tick that has the system for itself.** -/
theorem course_of_play {course : List Happening} (hids : (s.database.outbox.map (·.event.id)).Nodup)
    (hplay : (start topic batch).play s course = some (calls, t', s')) : Course s topic batch calls t' s' :=
  play_keeps (P := Course s topic batch) (fun h ht hm => h.step hids ht hm) (fun nanos h => h.advance nanos)
    (.fetching 0 rfl rfl rfl) hplay

namespace Relayed

variable {p : Passage}

/-- An event whose claim was ended is free at any instant. -/
theorem free_of_released (h : Relayed before last ps t s) (hp : p ∈ ps) (hsent : p.isSent = false)
    (hsettled : p.isSettled = true) : ∃ r ∈ s.database.outbox, r.event = p.event ∧ ∀ time, r.IsFree time := by
  obtain ⟨r, r', hevent, hfree, hr', hleaves⟩ := h.rewritten.row_of_passage h.batch hp
  rw [Passage.Leaves, hsettled, hsent] at hleaves
  subst hleaves
  exact ⟨r.unlock, hr', hevent, fun _ => ⟨hfree.1, nofun⟩⟩

/-- An event whose last call failed is still to be sent, and hidden while its claim lasts. -/
theorem hides_of_unsettled (h : Relayed before last ps t s) (hp : p ∈ ps) (hsettled : p.isSettled = false) :
    p.event ∈ s.database.pending ∧ s.database.Hides p.event.id last := by
  have hids : (s.database.outbox.map (·.event.id)).Nodup := h.rewritten.ids_eq ▸ h.batch.ids
  obtain ⟨r, r', hevent, hfree, hr', hleaves⟩ := h.rewritten.row_of_passage h.batch hp
  rw [Passage.Leaves, hsettled] at hleaves
  subst hleaves
  rw [← hevent]
  refine ⟨?pending, ?mem, ?hidden⟩
  case pending => exact List.mem_map.mpr ⟨_, List.mem_filter.mpr ⟨hr', Option.isNone_iff_eq_none.mpr hfree.1⟩, rfl⟩
  case mem => exact List.mem_map_of_mem (f := (·.event.id)) hr'
  case hidden =>
    intro row hrow hid
    obtain rfl := List.inj_on_of_nodup_map hids hrow hr' hid
    exact OutboxRow.isHidden_of_locked rfl

end Relayed

/-- **One tick from end to end.** A tick has a system for itself whose events have distinct ids. Time passes as it likes
between its calls, and each of them may succeed or fail: whatever the pattern of failures is, there is a tick that has
it. A tick that comes to its end has either had no answer at all, because the calendar does not reach as far as the
claim, or failed to fetch, or fetched a batch. In the first two cases it has counted and changed nothing. If it has a
batch,

* it has tried to publish each event once, in order, and then marked it if that succeeded, and else ended its claim;
* it has counted the events as fetched, and each of them as published or as failed;
* the records of those that were published stand behind those that were there, in order, and as many events fewer are
  still to be sent as it has counted as published;
* a row is as the calls about its event have left it, or as it was if the event is not of the batch; a row that was
  marked bears the time that the clock showed at the mark;
* an event that failed and was released is free at once, at any instant;
* an event that could not be marked or released is still to be sent, and whatever is called after it, no fetch hands it
  out as long as the claim lasts, unless somebody ends the claim. -/
theorem one_tick {s : System} {topic : String} {batch : Nat} (hids : (s.database.outbox.map (·.event.id)).Nodup) :
    (∀ f : Failures, f.fetch = true ∨ (s.now.add? s.database.lease).isSome = true →
      ∃ course calls t' s', (start topic batch).play s course = some (calls, t', s') ∧ t'.progress = .ended ∧
        ∀ c ∈ calls, c.2.Agrees f) ∧
    ∀ course calls t' s', (start topic batch).play s course = some (calls, t', s') →
      (t'.progress = .broken → (∃ nanos, (s.advance nanos).now.add? s.database.lease = none) ∧ calls = [] ∧
        t'.report = ⟨0, 0, 0⟩ ∧ ∃ nanos, s' = s.advance nanos) ∧
      (t'.progress = .ended →
        (calls.map (·.2) = [.fetch none] ∧ t'.report = ⟨0, 0, 0⟩ ∧ ∃ nanos, s' = (s.advance nanos).log .fetchFailed) ∨
        ∃ (nanos : Nat) (last : Instant) (ps : List Passage) (db : Database),
          (s.advance nanos).now.add? s.database.lease = some last ∧
          s.database.fetch batch (s.advance nanos).now = some (ps.map (·.event), db) ∧
          (calls.map (·.2) = .fetch (some (ps.map (·.event))) :: ps.flatMap Passage.calls ∧
            (ps.map (·.event.id)).Nodup ∧ ∀ p ∈ ps, (p.settledAt, p.settling) ∈ calls) ∧
          (t'.report.fetched = ps.length ∧ t'.report.fetched = t'.report.published + t'.report.failed ∧
            t'.report.published = ps.countP fun p => p.isSent && p.isSettled) ∧
          (s'.broker.records = s.broker.records ++ (ps.filter (·.isSent)).map (fun p => .ofEvent topic p.event) ∧
            (s'.broker.records.drop s.broker.records.length).map (·.key) =
              (ps.filter (·.isSent)).map (·.event.id.text)) ∧
          s'.database.pending.length + t'.report.published = s.database.pending.length ∧
          (s'.database = { s.database with outbox := s'.database.outbox } ∧
            List.Forall₂ (fun r r' => (∃ p ∈ ps, p.event = r.event ∧ p.Leaves last r r') ∨
              r.event ∉ ps.map (·.event) ∧ r' = r) s.database.outbox s'.database.outbox) ∧
          (∀ p ∈ ps, p.isSent = false → p.isSettled = true →
            ∃ r ∈ s'.database.outbox, r.event = p.event ∧ ∀ time, r.IsFree time) ∧
          ∀ p ∈ ps, p.isSettled = false → p.event ∈ s'.database.pending ∧
            ∀ visits : List Database.Visit, (s'.database.outbox.map (·.event.id) ++ Database.newIds visits).Nodup →
              (∀ v ∈ visits, v.call ≠ .release p.event.id) → ∀ limit time events after, ¬ last < time →
                (s'.database.serve visits).2.fetch limit time = some (events, after) →
                  p.event.id ∉ events.map (·.id)) := by
  refine ⟨fun f hreach => ?pattern, fun course calls t' s' hplay => ⟨fun hbroken => ?broken, fun hended => ?ended⟩⟩
  case pattern => exact exists_course f (start topic batch) s trivial fun _ => hreach
  case broken =>
    cases course_of_play hids hplay with
    | broken n ht hcalls hs hreach => exact ⟨hreach, hcalls, ht ▸ rfl, n, hs⟩
    | fetching n ht | unfetched n ht => rw [ht] at hbroken; cases hbroken
    | passed n last ps db hlast hfetch htopic hcalls htimes h =>
      have hhas := h.hasBatch
      rw [hbroken] at hhas
      exact hhas.elim
  case ended =>
    cases course_of_play hids hplay with
    | fetching n ht | broken n ht => rw [ht] at hended; cases hended
    | unfetched n ht hcalls hs => exact .inl ⟨hcalls, ht ▸ rfl, n, hs⟩
    | passed n last ps db hlast hfetch htopic hcalls htimes h =>
      have hleft : t'.progress.events = [] := by rw [hended]; rfl
      rw [hleft, List.append_nil] at hfetch
      refine .inr ⟨n, last, ps, db, hlast, hfetch, ?calls, ?report, ?records, ?pending, ?tables, ?free, ?hidden⟩
      case calls =>
        have hdistinct := Database.nodup_of_fetch hids hfetch
        rw [List.map_map] at hdistinct
        rw [hcalls.calls_eq, hended]
        simp only [TickProgress.events, TickProgress.halfway, List.append_nil]
        exact ⟨trivial, hdistinct, htimes⟩
      case report =>
        have hfetched := h.fetched
        have hpublished := h.published
        have hfailed := h.failed
        have hcount : ps.length = ps.countP (·.isDone) + ps.countP (!·.isDone) := by
          rw [List.length_eq_countP_add_countP (·.isDone)]
          simp only [Bool.not_eq_true, Bool.decide_eq_false]
        rw [hleft] at hfetched
        rw [hended] at hfailed
        exact ⟨hfetched, by rw [hfetched, hpublished, hfailed]; exact hcount, hpublished⟩
      case records =>
        have hrecords := h.records
        rw [htopic, hended, TickProgress.sent, List.append_nil] at hrecords
        have hkeys := BrokerRecord.keys_of_sent hrecords
        rw [List.map_map] at hrecords hkeys
        exact ⟨hrecords, hkeys⟩
      case pending =>
        rw [h.published]
        exact h.rewritten.pending
      case tables =>
        refine ⟨h.rewritten.tables, h.rewritten.rows.imp fun r r' hfate => ?_⟩
        rw [hleft] at hfate
        cases hfate with
        | aside hevent hrow => exact .inr ⟨(List.append_nil (ps.map (·.event))) ▸ hevent, hrow⟩
        | claimed hevent => cases hevent
        | passed p hp hevent hrow => exact .inl ⟨p, hp, hevent, hrow⟩
      case free => exact fun p hp hsent hsettled => h.free_of_released hp hsent hsettled
      case hidden =>
        intro p hp hsettled
        obtain ⟨hpending, hhides⟩ := h.hides_of_unsettled hp hsettled
        refine ⟨hpending, fun visits hvisits hrelease limit time events after htime hfetch => ?_⟩
        refine (hhides.serve hvisits hrelease).not_fetched ?_ hfetch htime
        rwa [Database.ids_serve]

/-- A system whose outbox has four events that nobody has claimed. -/
def crowdedSystem : System :=
  { System.fresh ⟨0, 0⟩ (.ofSeconds 30) (.ofSeconds 60) (.ofSeconds 60) with
    database := ⟨.ofSeconds 30, [], [(4, 9), (2, 7), (1, 5), (3, 7)].map fun (id, seconds) =>
      .ofEvent (Database.bareEvent id seconds)⟩ }

/-- One event is published and marked, the next one cannot be published and is released, and the third is published and
cannot be marked. -/
def mixedCourse : List Happening :=
  [.answer .fetch, .pass 1000000000, .answer .publish, .answer .mark, .answer .publishFails, .pass 5, .answer .unclaim,
    .answer .publish, .answer .markFails]

/-- Whether a call is a mark that succeeded. -/
def Call.isMark : Call → Bool
  | .mark _ isDone => isDone
  | _ => false

/-- Three of four events are fetched. Three are still to be sent after that, two of them because they failed, and the
one that was marked bears the time of its mark, a second after the fetch. -/
theorem one_tick_of_mixed :
    ∃ (calls : List (Instant × Call)) (t' : Tick) (s' : System) (ps : List Passage),
      (start "payments" 3).play crowdedSystem mixedCourse = some (calls, t', s') ∧
      calls.map (·.2) = .fetch (some (ps.map (·.event))) :: ps.flatMap Passage.calls ∧ t'.report = ⟨3, 1, 2⟩ ∧
      s'.database.pending.length + 1 = 4 ∧
      (∀ p ∈ ps, p.isSettled = false → p.event ∈ s'.database.pending) ∧
      ∀ p ∈ ps, p.isSent = true → p.isSettled = true → p.settledAt = ⟨1, 0⟩ := by
  have hread : ((start "payments" 3).play crowdedSystem mixedCourse).map (fun last =>
      (last.2.1.report, last.2.1.progress, (last.1.filter (·.2.isMark)).map (·.1))) =
        some (⟨3, 1, 2⟩, .ended, [⟨1, 0⟩]) := by
    -- the order of the rows that are fetched has to be computed by recursion on lists
    simp only [mixedCourse, play]
    delta step callAt? call? Database.fetch
    rw [Database.claimable_eq_insertionSort]
    rfl
  obtain ⟨⟨calls, t', s'⟩, hplay, hlast⟩ := Option.map_eq_some_iff.mp hread
  simp only [Prod.mk.injEq] at hlast
  obtain ⟨hreport, hended, hmarks⟩ := hlast
  rcases ((one_tick (by decide +kernel)).2 mixedCourse calls t' s' hplay).2 hended with
    ⟨-, hzero, -⟩ | ⟨_, _, ps, _, -, -, ⟨hcalls, -, htimes⟩, -, -, hpending, -, -, hunsettled⟩
  · rw [hreport] at hzero
    cases hzero
  · rw [hreport] at hpending
    refine ⟨calls, t', s', ps, hplay, hcalls, hreport, hpending, fun p hp hfailed => (hunsettled p hp hfailed).1, ?_⟩
    intro p hp hsent hsettled
    have hmark : p.settling.isMark = true := by
      rw [Passage.settling, if_pos hsent]
      exact hsettled
    have hin : p.settledAt ∈ (calls.filter (·.2.isMark)).map (·.1) :=
      List.mem_map.mpr ⟨_, List.mem_filter.mpr ⟨htimes p hp, hmark⟩, rfl⟩
    rw [hmarks] at hin
    exact List.mem_singleton.mp hin

end

end Tick

end PaymentRelay
