import Mathlib.Data.List.Nodup
import PaymentRelay.Proofs.Command.Rows

/-!
# Ids of events under open transactions

Several transactions may be open on one database. Each of them stages payments and events, and is committed or
dropped in the end; `Traffic` is the database with all of them, and a run is any order of their steps.

**An id is checked when its event is staged, and only then.** So a transaction is refused an id that is in the
table or that it has staged itself (`Database.insertEvent_error_iff`), but not one that another open transaction
has staged. Of two transactions with one id both commits go through, and the outbox has two rows with that id.
This is the only way in which it comes to have them (`distinct_ids_iff`).
-/

namespace PaymentRelay

/-- The ids of the events a transaction has staged. -/
def Transaction.ids (t : Transaction) : List Uuid :=
  t.events.map (·.id)

/-- The ids of the events in the outbox. -/
def Database.ids (db : Database) : List Uuid :=
  db.outbox.map (·.event.id)

namespace Database

variable {db : Database} {t : Transaction} {e : OutboxEvent}

/-- A commit adds the ids that were staged. -/
@[simp] theorem ids_commit (db : Database) (t : Transaction) : (db.commit t).ids = db.ids ++ t.ids := by
  simp only [ids, commit, List.map_append, List.map_map, Transaction.ids]
  rfl

/-- The condition under which an event is not staged. -/
theorem isStaged_iff : ((t.events.any fun other => other.id == e.id) || db.hasEvent e.id) = true ↔
    e.id ∈ t.ids ∨ e.id ∈ db.ids := by
  simp only [hasEvent, Bool.or_eq_true, List.any_eq_true, beq_iff_eq, Transaction.ids, ids, List.mem_map]

/-- **An id is taken** if the transaction has staged it already or the outbox has it, and only then is the
event refused. -/
theorem insertEvent_error_iff : db.insertEvent t e = .error (.infrastructure (.duplicateEvent e.id)) ↔
    e.id ∈ t.ids ∨ e.id ∈ db.ids := by
  rw [← isStaged_iff, insertEvent]
  split
  next h => exact ⟨fun _ => h, fun _ => rfl⟩
  next h => exact ⟨nofun, fun hstaged => absurd hstaged h⟩

end Database

/-- A database and the transactions that were begun on it, in the order in which they were begun. One that was
committed or dropped is not open any more. -/
structure Traffic where
  database : Database
  transactions : List (Option Transaction)

namespace Traffic

/-- What happens to a transaction, by the place at which it was begun. -/
inductive Action where
  /-- A transaction is begun. -/
  | start
  /-- A payment is staged. -/
  | insertPayment (place : Nat) (p : Payment)
  /-- An event is staged, if its id is not taken. Otherwise the transaction is told so, and goes on without the
  event or is dropped. -/
  | insertEvent (place : Nat) (e : OutboxEvent) (goesOn : Bool)
  | commit (place : Nat)
  | drop (place : Nat)
deriving Repr

/-- A database on which nothing was begun. -/
def opening (db : Database) : Traffic := ⟨db, []⟩

/-- The open transaction of a place. -/
def open? (w : Traffic) (place : Nat) : Option Transaction :=
  w.transactions[place]?.join

/-- The transaction of a place, replaced or closed. -/
def become (w : Traffic) (place : Nat) (t : Option Transaction) : Traffic :=
  { w with transactions := w.transactions.set place t }

/-- One action. There is no answer for a transaction that is not open. -/
def step (w : Traffic) : Action → Option Traffic
  | .start => some { w with transactions := w.transactions ++ [some .empty] }
  | .insertPayment place p => (w.open? place).map fun t => w.become place (some (t.insertPayment p))
  | .insertEvent place e goesOn => (w.open? place).map fun t =>
    match w.database.insertEvent t e with
    | .ok t => w.become place (some t)
    | .error _ => if goesOn then w else w.become place none
  | .commit place => (w.open? place).map fun t =>
    { w.become place none with database := w.database.commit t }
  | .drop place => (w.open? place).map fun _ => w.become place none

/-- The actions of a list, the first first. -/
def run (w : Traffic) : List Action → Option Traffic
  | [] => some w
  | a :: rest => (w.step a).bind fun w => w.run rest

/-- The ids that the open transaction of a place has staged. -/
def staged (w : Traffic) (place : Nat) : List Uuid :=
  match w.open? place with
  | some t => t.ids
  | none => []

/-- Whether the transaction of a place was committed or dropped. -/
def IsClosed (w : Traffic) (place : Nat) : Prop :=
  w.transactions[place]? = some none

/-- In the course of a run two transactions have both staged an id; then one of them is committed, and the other
one later. -/
def CommittedTwice (db : Database) (as : List Action) (id : Uuid) : Prop :=
  ∃ before after first second now, as = before ++ .commit first :: after ∧
    (opening db).run before = some now ∧ first ≠ second ∧
    id ∈ now.staged first ∧ id ∈ now.staged second ∧ .commit second ∈ after

variable {w w' : Traffic} {a : Action} {as : List Action} {place other : Nat} {id : Uuid}
  {t : Transaction} {db : Database}

/-! ## What one action does -/

theorem lt_of_open (h : w.open? place = some t) : place < w.transactions.length :=
  (List.getElem?_eq_some_iff.mp (Option.join_eq_some_iff.mp h)).1

theorem open?_become (h : w.open? place = some t) (o : Option Transaction) (other : Nat) :
    (w.become place o).open? other = if other = place then o else w.open? other := by
  rw [open?, become, List.getElem?_set]
  by_cases hp : other = place
  · subst hp
    rw [if_pos rfl, if_pos (lt_of_open h), if_pos rfl]
    rfl
  · rw [if_neg (Ne.symm hp), if_neg hp]
    rfl

theorem open?_start (w : Traffic) (place : Nat) :
    open? { w with transactions := w.transactions ++ [some .empty] } place =
      if place = w.transactions.length then some .empty else w.open? place := by
  rw [open?, List.getElem?_append]
  by_cases hlt : place < w.transactions.length
  · rw [if_pos hlt, if_neg (Nat.ne_of_lt hlt), open?]
  · rw [if_neg hlt, open?, List.getElem?_eq_none (Nat.not_lt.mp hlt), List.getElem?_singleton]
    by_cases heq : place = w.transactions.length
    · rw [if_pos heq, if_pos (by omega)]
      rfl
    · rw [if_neg heq, if_neg (by omega)]

/-- Putting in what is there changes nothing. -/
theorem become_self (h : w.open? place = some t) : w.become place (some t) = w := by
  have hsame : w.transactions.set place (some t) = w.transactions := by
    obtain ⟨hlt, hget⟩ := List.getElem?_eq_some_iff.mp (Option.join_eq_some_iff.mp h)
    rw [← hget]
    exact List.set_getElem_self hlt
  rw [become, hsame]

/-- What an action does, by what becomes of the ids that are staged. -/
inductive Change (w : Traffic) : Action → Traffic → Prop
  | starts : Change w .start { w with transactions := w.transactions ++ [some .empty] }
  | stages (a : Action) (place : Nat) (t t' : Transaction) (ha : ∀ other, a ≠ .commit other)
      (ht : w.open? place = some t)
      (hids : t'.ids = t.ids ∨ ∃ id, id ∉ t.ids ∧ id ∉ w.database.ids ∧ t'.ids = t.ids ++ [id]) :
      Change w a (w.become place (some t'))
  | drops (a : Action) (place : Nat) (t : Transaction) (ha : ∀ other, a ≠ .commit other)
      (ht : w.open? place = some t) : Change w a (w.become place none)
  | commits (place : Nat) (t : Transaction) (ht : w.open? place = some t) :
      Change w (.commit place) { w.become place none with database := w.database.commit t }

/-- Every action is one of these changes. -/
theorem change_of_step (h : w.step a = some w') : w.Change a w' := by
  cases a with
  | start => cases h; exact .starts
  | insertPayment place p =>
    obtain ⟨t, ht, rfl⟩ := Option.map_eq_some_iff.mp h
    exact .stages _ place t _ nofun ht (.inl rfl)
  | insertEvent place e goesOn =>
    obtain ⟨t, ht, h⟩ := Option.map_eq_some_iff.mp h
    split at h
    next t' hok =>
      subst h
      have hnew : ¬ (e.id ∈ t.ids ∨ e.id ∈ w.database.ids) := fun htaken => by
        rw [Database.insertEvent_error_iff.mpr htaken] at hok
        cases hok
      refine .stages _ place t t' nofun ht (.inr ⟨e.id, fun h => hnew (.inl h), fun h => hnew (.inr h), ?_⟩)
      rw [(Database.insertEvent_eq_ok hok).1, Transaction.ids, List.map_append]
      rfl
    next =>
      cases goesOn with
      | true =>
        obtain rfl : w = w' := h
        have hstay := Change.stages (w := w) (.insertEvent place e true) place t t nofun ht (.inl rfl)
        rwa [become_self ht] at hstay
      | false =>
        obtain rfl : w.become place none = w' := h
        exact .drops _ place t nofun ht
  | commit place =>
    obtain ⟨t, ht, rfl⟩ := Option.map_eq_some_iff.mp h
    exact .commits place t ht
  | drop place =>
    obtain ⟨t, ht, rfl⟩ := Option.map_eq_some_iff.mp h
    exact .drops _ place t nofun ht

/-! ## Ids that are staged -/

theorem staged_of_open (h : w.open? place = some t) : w.staged place = t.ids := by
  rw [staged, h]

/-- The ids of a place after a transaction was replaced or closed. -/
theorem staged_become (h : w.open? place = some t) (o : Option Transaction) (other : Nat) :
    (w.become place o).staged other =
      if other = place then (o.map Transaction.ids).getD [] else w.staged other := by
  rw [staged, open?_become h]
  by_cases hp : other = place
  · rw [if_pos hp, if_pos hp]
    cases o <;> rfl
  · rw [if_neg hp, if_neg hp, staged]

/-- **What can become of staged ids.** In any action but a commit a place keeps its ids, or gets one more that is
not taken, or is left with none. -/
theorem Change.staged (h : w.Change a w') (ha : ∀ other, a ≠ .commit other) (place : Nat) :
    w'.database = w.database ∧ (w'.staged place = w.staged place ∨ w'.staged place = [] ∨
      ∃ id, id ∉ w.staged place ∧ id ∉ w.database.ids ∧ w'.staged place = w.staged place ++ [id]) := by
  cases h with
  | starts =>
    refine ⟨rfl, .inl ?_⟩
    rw [Traffic.staged, open?_start]
    by_cases hp : place = w.transactions.length
    · rw [if_pos hp, Traffic.staged, open?, List.getElem?_eq_none (Nat.le_of_eq hp.symm)]
      rfl
    · rw [if_neg hp, Traffic.staged]
  | stages _ at' t t' _ ht hids =>
    refine ⟨rfl, ?_⟩
    rw [staged_become ht]
    split
    next hp =>
      subst hp
      rw [staged_of_open ht]
      exact hids.imp_right .inr
    next => exact .inl rfl
  | drops _ at' t _ ht =>
    refine ⟨rfl, ?_⟩
    rw [staged_become ht]
    split
    · exact .inr (.inl rfl)
    · exact .inl rfl
  | commits at' => exact absurd rfl (ha at')

/-- A commit puts the ids of its place into the table and leaves the other places alone. -/
theorem staged_of_commit (h : w.step (.commit place) = some w') :
    w'.database.ids = w.database.ids ++ w.staged place ∧ w'.staged place = [] ∧
      ∀ other, other ≠ place → w'.staged other = w.staged other := by
  obtain ⟨t, ht, rfl⟩ := Option.map_eq_some_iff.mp h
  refine ⟨?_, ?_, fun other hne => ?_⟩
  · rw [staged_of_open ht]
    exact Database.ids_commit ..
  · exact (staged_become ht none place).trans (if_pos rfl)
  · exact (staged_become ht none other).trans (if_neg hne)

/-! ## A transaction on its way to its commit -/

/-- What is closed stays closed. -/
theorem Change.closed (h : w.Change a w') (hclosed : w.IsClosed place) : w'.IsClosed place := by
  have hplace : ∀ {other t}, w.open? other = some t → other ≠ place := by
    rintro other t ht rfl
    rw [open?, hclosed] at ht
    cases ht
  have hkept : ∀ {other t} (o : Option Transaction), w.open? other = some t → (w.become other o).IsClosed place :=
    fun o ht => (List.getElem?_set_ne (hplace ht)).trans hclosed
  cases h with
  | starts =>
    have hlt := (List.getElem?_eq_some_iff.mp hclosed).1
    exact (List.getElem?_append_left hlt).trans hclosed
  | stages _ _ _ t' _ ht => exact hkept (some t') ht
  | drops _ _ _ _ ht | commits _ _ ht => exact hkept none ht

/-- What is closed is not committed. -/
theorem not_committed_of_closed (hrun : w.run as = some w') (hclosed : w.IsClosed place) :
    .commit place ∉ as := by
  induction as generalizing w with
  | nil => exact List.not_mem_nil
  | cons a rest ih =>
    obtain ⟨next, hnext, hrest⟩ := Option.bind_eq_some_iff.mp hrun
    refine List.not_mem_cons_of_ne_of_not_mem ?_ (ih hrest ((change_of_step hnext).closed hclosed))
    rintro rfl
    obtain ⟨t, ht, -⟩ := Option.map_eq_some_iff.mp hnext
    rw [open?, hclosed] at ht
    cases ht

/-- Ids that are staged stay staged as long as the transaction is neither committed nor dropped. -/
theorem Change.kept (h : w.Change a w') (hid : id ∈ w.staged place) (ha : a ≠ .commit place) :
    id ∈ w'.staged place ∨ w'.IsClosed place := by
  have hclosed : ∀ {other t}, w.open? other = some t → place = other →
      (w.become other none).IsClosed place := by
    rintro other t ht rfl
    rw [IsClosed, become, List.getElem?_set_self (lt_of_open ht)]
  have hother : ∀ {other t} (o : Option Transaction), w.open? other = some t → place ≠ other →
      id ∈ (w.become other o).staged place := by
    intro other t o ht hne
    rwa [staged_become ht, if_neg hne]
  cases h with
  | starts =>
    left
    have hlt : place ≠ w.transactions.length := by
      rintro rfl
      rw [Traffic.staged, open?, List.getElem?_eq_none (Nat.le_refl _)] at hid
      cases hid
    rw [Traffic.staged, open?_start, if_neg hlt]
    exact hid
  | stages _ other t t' _ ht hids =>
    left
    by_cases hp : place = other
    · subst hp
      rw [staged_become ht, if_pos rfl]
      rw [staged_of_open ht] at hid
      show id ∈ t'.ids
      rcases hids with hsame | ⟨new, -, -, hmore⟩
      · rwa [hsame]
      · rw [hmore]
        exact List.mem_append_left _ hid
    · exact hother _ ht hp
  | drops _ other t _ ht =>
    by_cases hp : place = other
    · exact .inr (hclosed ht hp)
    · exact .inl (hother none ht hp)
  | commits other t ht => exact .inl (hother none ht fun hp => ha (hp ▸ rfl))

/-- No id leaves the outbox. -/
theorem Change.count_le (h : w.Change a w') (id : Uuid) : w.database.ids.count id ≤ w'.database.ids.count id := by
  cases h with
  | commits place t ht =>
    show w.database.ids.count id ≤ (w.database.commit t).ids.count id
    rw [Database.ids_commit, List.count_append]
    exact Nat.le_add_right ..
  | _ => exact Nat.le_refl _

theorem count_le_of_run (hrun : w.run as = some w') (id : Uuid) :
    w.database.ids.count id ≤ w'.database.ids.count id := by
  induction as generalizing w with
  | nil => cases hrun; exact Nat.le_refl _
  | cons a rest ih =>
    obtain ⟨next, hnext, hrest⟩ := Option.bind_eq_some_iff.mp hrun
    exact Nat.le_trans ((change_of_step hnext).count_le id) (ih hrest)

/-- **A commit is not checked.** An id that is staged comes into the table once more when its transaction is
committed, whatever happens in between. -/
theorem count_lt_of_commit (hrun : w.run as = some w') (hid : id ∈ w.staged place)
    (hcommit : .commit place ∈ as) : w.database.ids.count id < w'.database.ids.count id := by
  induction as generalizing w with
  | nil => cases hcommit
  | cons a rest ih =>
    obtain ⟨next, hnext, hrest⟩ := Option.bind_eq_some_iff.mp hrun
    have hchange := change_of_step hnext
    by_cases ha : a = .commit place
    · subst ha
      have hadded : w.database.ids.count id < next.database.ids.count id := by
        rw [(staged_of_commit hnext).1, List.count_append]
        exact Nat.lt_add_of_pos_right (List.count_pos_iff.mpr hid)
      exact Nat.lt_of_lt_of_le hadded (count_le_of_run hrest id)
    · have hlater : .commit place ∈ rest := (List.mem_cons.mp hcommit).resolve_left (Ne.symm ha)
      rcases hchange.kept hid ha with hkept | hclosed
      · exact Nat.lt_of_le_of_lt (hchange.count_le id) (ih hrest hkept hlater)
      · exact absurd hlater (not_committed_of_closed hrest hclosed)

/-! ## How an id comes to stand twice -/

theorem run_append (w : Traffic) (as bs : List Action) :
    w.run (as ++ bs) = (w.run as).bind fun w => w.run bs := by
  induction as generalizing w with
  | nil => rfl
  | cons a rest ih =>
    rw [List.cons_append, run, run, Option.bind_assoc]
    exact congrArg _ (funext ih)

/-- What is known of the traffic that some actions have led to: no transaction has staged an id twice, an id that is
both staged and in the table was committed by another transaction that had staged it too, and an id that stands
in the table twice was committed twice. -/
structure Traced (db : Database) (done : List Action) (w : Traffic) : Prop where
  reached : (opening db).run done = some w
  distinct : ∀ place, (w.staged place).Nodup
  overtaken : ∀ place id, id ∈ w.staged place → id ∈ w.database.ids → ∃ before after first now,
    done = before ++ .commit first :: after ∧ (opening db).run before = some now ∧ first ≠ place ∧
      id ∈ now.staged first ∧ id ∈ now.staged place
  twice : ∀ id, 1 < w.database.ids.count id → CommittedTwice db done id

theorem CommittedTwice.more {done : List Action} (h : CommittedTwice db done id) (a : Action) :
    CommittedTwice db (done ++ [a]) id := by
  obtain ⟨before, after, first, second, now, rfl, hrest⟩ := h
  refine ⟨before, after ++ [a], first, second, now, ?_, hrest.1, hrest.2.1, hrest.2.2.1, hrest.2.2.2.1,
    List.mem_append_left _ hrest.2.2.2.2⟩
  rw [List.append_assoc, List.cons_append]

theorem traced_opening (hids : db.ids.Nodup) : (opening db).Traced db [] where
  reached := rfl
  distinct _ := List.nodup_nil
  overtaken _ _ hid := absurd hid List.not_mem_nil
  twice id htwice := absurd (List.nodup_iff_count.mp hids id) (Nat.not_le.mpr htwice)

/-- **What is known is kept.** An id that a commit brings in for the second time was in the table, so it was
committed by a transaction that had it staged at the same time. -/
theorem Traced.step {done : List Action} (h : w.Traced db done) (hstep : w.step a = some w') :
    w'.Traced db (done ++ [a]) := by
  have hreached : (opening db).run (done ++ [a]) = some w' := by
    rw [run_append, h.reached, Option.bind_some, run, hstep]
    rfl
  have hmore : ∀ {place id}, id ∈ w.staged place → id ∈ w.database.ids → ∃ before after first now,
      done ++ [a] = before ++ .commit first :: after ∧ (opening db).run before = some now ∧ first ≠ place ∧
        id ∈ now.staged first ∧ id ∈ now.staged place := by
    intro place id hid htable
    obtain ⟨before, after, first, now, rfl, hrest⟩ := h.overtaken place id hid htable
    exact ⟨before, after ++ [a], first, now, by rw [List.append_assoc, List.cons_append], hrest⟩
  by_cases ha : ∃ first, a = .commit first
  · obtain ⟨first, rfl⟩ := ha
    obtain ⟨hids, hnone, hothers⟩ := staged_of_commit hstep
    refine ⟨hreached, fun place => ?_, fun place id hid htable => ?_, fun id htwice => ?_⟩
    · by_cases hp : place = first
      · rw [hp, hnone]
        exact List.nodup_nil
      · rw [hothers place hp]
        exact h.distinct place
    · have hp : place ≠ first := by
        rintro rfl
        rw [hnone] at hid
        cases hid
      rw [hothers place hp] at hid
      rw [hids] at htable
      rcases List.mem_append.mp htable with hold | hnew
      · exact hmore hid hold
      · exact ⟨done, [], first, w, rfl, h.reached, Ne.symm hp, hnew, hid⟩
    · by_cases hold : 1 < w.database.ids.count id
      · exact (h.twice id hold).more _
      · -- the id stands once in the table and once among the ids of this commit
        rw [hids, List.count_append] at htwice
        have hone := List.nodup_iff_count.mp (h.distinct first) id
        have hstaged : id ∈ w.staged first := List.count_pos_iff.mp (by omega)
        have htable : id ∈ w.database.ids := List.count_pos_iff.mp (by omega)
        obtain ⟨before, after, other, now, rfl, hnow, hne, hother, hfirst⟩ := h.overtaken first id hstaged htable
        refine ⟨before, after ++ [.commit first], other, first, now, ?_, hnow, hne, hother, hfirst, ?_⟩
        · rw [List.append_assoc, List.cons_append]
        · exact List.mem_append_right _ (List.mem_singleton_self _)
  · have hplain : ∀ other, a ≠ .commit other := fun other heq => ha ⟨other, heq⟩
    have hchange := (change_of_step hstep).staged hplain
    have hdb := (hchange 0).1
    refine ⟨hreached, fun place => ?_, fun place id hid htable => ?_, fun id htwice => ?_⟩
    · rcases (hchange place).2 with hsame | hnone | ⟨new, hnew, -, hmore⟩
      · exact hsame ▸ h.distinct place
      · exact hnone ▸ List.nodup_nil
      · rw [hmore, List.nodup_append]
        refine ⟨h.distinct place, List.nodup_singleton new, fun x hx y hy hxy => hnew ?_⟩
        rwa [← List.mem_singleton.mp hy, ← hxy]
    · rw [hdb] at htable
      rcases (hchange place).2 with hsame | hnone | ⟨new, -, hnew, hmore'⟩
      · exact hmore (hsame ▸ hid) htable
      · rw [hnone] at hid
        cases hid
      · rw [hmore'] at hid
        rcases List.mem_append.mp hid with hid | hid
        · exact hmore hid htable
        · exact absurd (List.mem_singleton.mp hid ▸ htable) hnew
    · rw [hdb] at htwice
      exact (h.twice id htwice).more a

theorem Traced.run {done : List Action} (h : w.Traced db done) (hrun : w.run as = some w') :
    w'.Traced db (done ++ as) := by
  induction as generalizing done w with
  | nil =>
    cases hrun
    rwa [List.append_nil]
  | cons a rest ih =>
    obtain ⟨next, hnext, hrest⟩ := Option.bind_eq_some_iff.mp hrun
    rw [List.append_cons]
    exact ih (h.step hnext) hrest

/-- **An id stands twice exactly if it was committed twice**, by two transactions that had it staged at the same
time. -/
theorem count_iff (hids : db.ids.Nodup) (hrun : (opening db).run as = some w) (id : Uuid) :
    1 < w.database.ids.count id ↔ CommittedTwice db as id := by
  constructor
  · exact ((traced_opening hids).run hrun).twice id
  · rintro ⟨before, after, first, second, now, rfl, hnow, hne, hfirst, hsecond, hcommit⟩
    rw [run_append, hnow, Option.bind_some] at hrun
    obtain ⟨next, hnext, hrest⟩ := Option.bind_eq_some_iff.mp hrun
    obtain ⟨hadded, -, hothers⟩ := staged_of_commit hnext
    have honce : 0 < next.database.ids.count id := by
      rw [hadded, List.count_append]
      exact Nat.add_pos_right _ (List.count_pos_iff.mpr hfirst)
    have hkept : id ∈ next.staged second := by rwa [hothers second (Ne.symm hne)]
    exact Nat.lt_of_le_of_lt honce (count_lt_of_commit hrest hkept hcommit)

/-! ## The law -/

/-- **When the ids of the outbox are distinct.** After any run of transactions on a database whose ids were distinct,
the ids are distinct unless two transactions that had one id staged at the same time were both committed; and then
they are not. An event is refused exactly if its id is taken when it is staged, that is by its own transaction or by
the table, and nothing but a commit changes payments or outbox. -/
theorem distinct_ids_iff (hids : (db.outbox.map (·.event.id)).Nodup) (hrun : (opening db).run as = some w) :
    ((w.database.outbox.map (·.event.id)).Nodup ↔ ∀ id, ¬ CommittedTwice db as id) ∧
    (∀ t e, w.database.insertEvent t e = .error (.infrastructure (.duplicateEvent e.id)) ↔
      e.id ∈ t.events.map (·.id) ∨ e.id ∈ w.database.outbox.map (·.event.id)) ∧
    ∀ a w', w.step a = some w' → (∀ place, a ≠ .commit place) → w'.database = w.database := by
  refine ⟨?_, fun t e => Database.insertEvent_error_iff, fun a w' hstep ha => ?_⟩
  · constructor
    · intro hnodup id htwice
      exact absurd (List.nodup_iff_count.mp hnodup id) (Nat.not_le.mpr ((count_iff hids hrun id).mpr htwice))
    · intro hnone
      exact List.nodup_iff_count.mpr fun id => Nat.not_lt.mp fun htwice => hnone id ((count_iff hids hrun id).mp htwice)
  · exact ((change_of_step hstep).staged ha 0).1

/-- An event with some id. -/
def sampleEvent (id : Nat) : OutboxEvent :=
  .record (Payment.ofCommand (sampleCommand "k") ⟨0, 0⟩).succeeded (.ofNat id) ⟨0, 0⟩

/-- Two transactions are open at once and stage different ids; a third one is refused the id of the first. -/
def orderlyRun : List Action :=
  [.start, .start, .insertEvent 0 (sampleEvent 1) false, .insertEvent 1 (sampleEvent 2) false, .commit 1, .commit 0,
    .start, .insertEvent 2 (sampleEvent 1) false]

/-- No id was committed twice. -/
theorem distinct_ids_iff_of_orderly :
    ∃ w, (opening (.empty (.ofSeconds 30))).run orderlyRun = some w ∧
      (w.database.outbox.map (·.event.id)) = [.ofNat 2, .ofNat 1] ∧
      ∀ id, ¬ CommittedTwice (.empty (.ofSeconds 30)) orderlyRun id := by
  have hread : ((opening (.empty (.ofSeconds 30))).run orderlyRun).map (fun w =>
      w.database.outbox.map (·.event.id)) = some [.ofNat 2, .ofNat 1] := by decide +kernel
  obtain ⟨w, hrun, hids⟩ := Option.map_eq_some_iff.mp hread
  have hnone : ((Database.empty (.ofSeconds 30)).outbox.map (·.event.id)).Nodup := List.nodup_nil
  obtain ⟨hiff, -⟩ := distinct_ids_iff hnone hrun
  exact ⟨w, hrun, hids, hiff.mp (by rw [hids]; decide)⟩

/-- Two transactions stage one id and are both committed, the second one with a payment. -/
def doubledRun : List Action :=
  [.start, .start, .insertEvent 0 (sampleEvent 1) false, .insertPayment 1 (.ofCommand (sampleCommand "k") ⟨0, 0⟩),
    .insertEvent 1 (sampleEvent 1) false, .commit 0, .commit 1]

/-- Both rows are in the outbox, and so is the payment. -/
theorem ids_not_distinct :
    ∃ w, (opening (.empty (.ofSeconds 30))).run doubledRun = some w ∧
      ¬ (w.database.outbox.map (·.event.id)).Nodup ∧ w.database.payments.length = 1 := by
  have hread : ((opening (.empty (.ofSeconds 30))).run doubledRun).map (fun w =>
      (w.database.outbox.map (·.event.id), w.database.payments.length)) =
        some ([.ofNat 1, .ofNat 1], 1) := by decide +kernel
  obtain ⟨w, hrun, hread⟩ := Option.map_eq_some_iff.mp hread
  obtain ⟨hids, hpayments⟩ := Prod.mk.inj hread
  exact ⟨w, hrun, by rw [hids]; decide, hpayments⟩

end Traffic

end PaymentRelay
