import PaymentRelay.Proofs.Command.Rows
import PaymentRelay.Proofs.Keys.History

/-!
# The part of a system that concerns one key

A command looks at little of the system: the clock, the entry of its own key, whether its own commit is still on
its way, and whether the id of its own event is new. `System.Part` relates a system to one in which only what
concerns one key is there: the live entry of the key, the commits on their way of its owners and the orphans with
the key.

A step of a command with the key can be taken in the part as well, with the same effect (`Transition.mirrored`),
and a step of any other command leaves the part as it is (`Transition.aside`). The same goes for what the system
finishes by itself.
-/

namespace PaymentRelay

/-! ## Places -/

section Places

variable {α : Type} {p : α → Bool} {l : List α} {place : Nat} {a : α}

/-- At which place among the items with a property an item stands. -/
def placeAmong (p : α → Bool) (l : List α) (place : Nat) : Nat :=
  (l.take place).countP p

/-- A list around the item at a place. -/
theorem split_at_place (h : l[place]? = some a) :
    l = l.take place ++ a :: l.drop (place + 1) ∧ (l.take place).length = place := by
  obtain ⟨hlt, rfl⟩ := List.getElem?_eq_some_iff.mp h
  refine ⟨?_, List.length_take_of_le (Nat.le_of_lt hlt)⟩
  rw [← List.drop_eq_getElem_cons hlt, List.take_append_drop]

/-- An item with the property is found at its place among those. -/
theorem getElem?_placeAmong (h : l[place]? = some a) (ha : p a = true) :
    (l.filter p)[placeAmong p l place]? = some a := by
  rw [placeAmong, List.countP_eq_length_filter]
  conv => lhs; arg 1; rw [(split_at_place h).1]
  rw [List.filter_append, List.filter_cons_of_pos ha, List.getElem?_append_right (Nat.le_refl _), Nat.sub_self]
  rfl

/-- It is taken out of the list and of the items with the property alike. -/
theorem filter_eraseIdx_of_pos (h : l[place]? = some a) (ha : p a = true) :
    (l.eraseIdx place).filter p = (l.filter p).eraseIdx (placeAmong p l place) := by
  obtain ⟨hl, -⟩ := split_at_place h
  have hfilter : l.filter p = (l.take place).filter p ++ a :: (l.drop (place + 1)).filter p := by
    conv => lhs; rw [hl]
    rw [List.filter_append, List.filter_cons_of_pos ha]
  rw [List.eraseIdx_eq_take_drop_succ, List.filter_append, hfilter, placeAmong, List.countP_eq_length_filter,
    List.eraseIdx_append_of_length_le (Nat.le_refl _), Nat.sub_self]
  rfl

/-- An item without the property can be taken out unnoticed. -/
theorem filter_eraseIdx_of_neg (h : l[place]? = some a) (ha : p a = false) :
    (l.eraseIdx place).filter p = l.filter p := by
  obtain ⟨hl, -⟩ := split_at_place h
  have hfilter : l.filter p = (l.take place).filter p ++ (l.drop (place + 1)).filter p := by
    conv => lhs; rw [hl]
    rw [List.filter_append, List.filter_cons_of_neg (Bool.eq_false_iff.mp ha)]
  rw [List.eraseIdx_eq_take_drop_succ, List.filter_append, hfilter]

/-- An item with the property is replaced by another in the list and among those with the property alike. -/
theorem filter_set_of_pos {b : α} (h : l[place]? = some a) (ha : p a = true) (hb : p b = true) :
    (l.set place b).filter p = (l.filter p).set (placeAmong p l place) b := by
  obtain ⟨hlt, rfl⟩ := List.getElem?_eq_some_iff.mp h
  rw [List.set_eq_take_append_cons_drop, if_pos hlt, List.filter_append, List.filter_cons_of_pos hb]
  conv => rhs; arg 1; rw [(split_at_place h).1]
  rw [List.filter_append, List.filter_cons_of_pos ha, placeAmong, List.countP_eq_length_filter,
    List.set_append_right _ _ (Nat.le_refl _), Nat.sub_self]
  rfl

/-- An item without the property can be replaced by another one without it unnoticed. -/
theorem filter_set_of_neg {b : α} (h : l[place]? = some a) (ha : p a = false) (hb : p b = false) :
    (l.set place b).filter p = l.filter p := by
  obtain ⟨hlt, rfl⟩ := List.getElem?_eq_some_iff.mp h
  rw [List.set_eq_take_append_cons_drop, if_pos hlt, List.filter_append,
    List.filter_cons_of_neg (Bool.eq_false_iff.mp hb)]
  conv => rhs; rw [(split_at_place h).1]
  rw [List.filter_append, List.filter_cons_of_neg (Bool.eq_false_iff.mp ha)]

/-- A new item with the property comes to those with it. -/
theorem filter_concat_of_pos (ha : p a = true) : (l ++ [a]).filter p = l.filter p ++ [a] := by
  rw [List.filter_append, List.filter_cons_of_pos ha, List.filter_nil]

/-- A new item without the property goes unnoticed. -/
theorem filter_concat_of_neg (ha : p a = false) : (l ++ [a]).filter p = l.filter p := by
  rw [List.filter_append, List.filter_cons_of_neg (Bool.eq_false_iff.mp ha), List.filter_nil, List.append_nil]

end Places

/-! ## Keys -/

namespace KeyStore

variable {s s' : KeyStore} {key other : IdempotencyKey} {now later : Nat} {token : Uuid}

/-- Two stores hold keys equally long and have the same live entry of a key, or none. -/
structure AgreeOn (key : IdempotencyKey) (now : Nat) (s s' : KeyStore) : Prop where
  lasts : s'.lifetime = s.lifetime
  live : (s'.held? key).filter (·.isLive now) = (s.held? key).filter (·.isLive now)

theorem AgreeOn.mono (h : s.AgreeOn key now s') (hl : now ≤ later) : s.AgreeOn key later s' where
  lasts := h.lasts
  live := by rw [← filter_isLive_later hl, h.live, filter_isLive_later hl]

theorem AgreeOn.contains (h : s.AgreeOn key now s') (hl : now ≤ later) :
    s'.contains key later = s.contains key later := by
  rw [KeyStore.contains, KeyStore.contains, ← Option.isSome_filter, (h.mono hl).live, Option.isSome_filter]

/-- Stores that agree on a key give the same answer to a reservation of it, and go on agreeing. -/
theorem AgreeOn.reserve (h : s.AgreeOn key now s') (token : Uuid) :
    (s'.reserve key token now).1 = (s.reserve key token now).1 ∧
      (s.reserve key token now).2.AgreeOn key now (s'.reserve key token now).2 := by
  simp only [KeyStore.reserve, h.contains (Nat.le_refl _), h.lasts]
  split
  · exact ⟨rfl, h⟩
  · split
    · refine ⟨rfl, h.lasts, ?_⟩
      simp only [held?, Register.find?_put, if_true]
    · exact ⟨rfl, h.lasts, by rw [held?_prune, held?_prune, h.live]⟩

theorem AgreeOn.release (h : s.AgreeOn key now s') (token : Uuid) :
    (s.release key token).AgreeOn key now (s'.release key token) where
  lasts := (release_lifetime ..).trans (h.lasts.trans (release_lifetime ..).symm)
  live := by
    rw [held?_release, held?_release, if_pos rfl, if_pos rfl, filter_isLive_comm, h.live, filter_isLive_comm]

/-- A reservation of another key is no matter. -/
theorem AgreeOn.reserve_other (h : s.AgreeOn key now s') (hne : key ≠ other) (token : Uuid) :
    (s.reserve other token now).2.AgreeOn key now s' where
  lasts := h.lasts.trans (reserve_lifetime ..).symm
  live := by
    have hpruned : ((s.prune now).held? key).filter (·.isLive now) = (s.held? key).filter (·.isLive now) := by
      rw [held?_prune, filter_isLive_later (Nat.le_refl _)]
    rw [h.live]
    simp only [KeyStore.reserve]
    split
    · rfl
    · split
      · simp only [held?, Register.find?_put, if_neg hne]
        exact hpruned.symm
      · exact hpruned.symm

theorem AgreeOn.release_other (h : s.AgreeOn key now s') (hne : key ≠ other) (token : Uuid) :
    (s.release other token).AgreeOn key now s' where
  lasts := h.lasts.trans (release_lifetime ..).symm
  live := by rw [h.live, held?_release, if_neg hne]

end KeyStore

/-! ## Systems -/

/-- What of a system concerns one key, where the owners with a property are those of commands with the key. -/
structure System.Part (own : Uuid → Bool) (key : IdempotencyKey) (s v : System) : Prop where
  start : v.start = s.start
  elapsed : v.elapsed = s.elapsed
  keys : s.keys.AgreeOn key s.elapsed v.keys
  detached : v.detached = s.detached.filter (own ·.owner)
  orphans : v.orphans = s.orphans.filter (·.key == key)

namespace System.Part

variable {own own' : Uuid → Bool} {key : IdempotencyKey} {s s' v v' : System} {token : Uuid}

theorem now (h : s.Part own key v) : v.now = s.now := by
  rw [System.now, System.now, h.start, h.elapsed]

theorem isDetached (h : s.Part own key v) (hown : own token = true) : v.isDetached token = s.isDetached token := by
  rw [System.isDetached, System.isDetached, h.detached, List.any_filter]
  congr 1
  funext d
  cases heq : d.owner == token with
  | false => exact Bool.and_false _
  | true => rw [Bool.and_true, eq_of_beq heq, hown]

/-- Tables and reports are no matter. -/
theorem ofSame (h : s.Part own key v) (hstart : s'.start = s.start) (helapsed : s'.elapsed = s.elapsed)
    (hkeys : s'.keys = s.keys) (hdetached : s'.detached = s.detached) (horphans : s'.orphans = s.orphans) :
    s'.Part own key v where
  start := h.start.trans hstart.symm
  elapsed := h.elapsed.trans helapsed.symm
  keys := hkeys ▸ helapsed ▸ h.keys
  detached := hdetached ▸ h.detached
  orphans := horphans ▸ h.orphans

theorem log (h : s.Part own key v) (e : Entry) : (s.log e).Part own key (v.log e) :=
  ⟨h.start, h.elapsed, h.keys, h.detached, h.orphans⟩

theorem commit (h : s.Part own key v) (t : Transaction) : (s.commit t).Part own key (v.commit t) :=
  ⟨h.start, h.elapsed, h.keys, h.detached, h.orphans⟩

theorem givenUp (h : s.Part own key v) (stage : Stage) :
    (Job.givenUp stage s).Part own key (Job.givenUp stage v) :=
  (h.log _).log _

theorem reported (h : s.Part own key v) : (Job.reported s).Part own key (Job.reported v) :=
  ((h.log _).log _).log _

/-- Owners are told apart in the same way as far as they have commits on their way. -/
theorem congr (h : s.Part own key v) (hsame : ∀ d ∈ s.detached, own' d.owner = own d.owner) :
    s.Part own' key v :=
  ⟨h.start, h.elapsed, h.keys, h.detached.trans (List.filter_congr fun d hd => (hsame d hd).symm), h.orphans⟩

theorem advance (h : s.Part own key v) (nanos : Nat) : (s.advance nanos).Part own key (v.advance nanos) :=
  ⟨h.start, congrArg (· + nanos) h.elapsed, h.keys.mono (Nat.le_add_right ..), h.detached, h.orphans⟩

/-- A reservation of the key is one in the part too. -/
theorem decided {c : PaymentCommand} (h : s.Part own c.key v) (token : Uuid) :
    (Job.decided c token s).Part own c.key (Job.decided c token v) where
  start := h.start
  elapsed := h.elapsed
  keys := by
    show (s.keys.reserve c.key token s.elapsed).2.AgreeOn c.key s.elapsed
      (v.keys.reserve c.key token v.elapsed).2
    rw [h.elapsed]
    exact (h.keys.reserve token).2
  detached := h.detached
  orphans := h.orphans

/-- A release of the key is one in the part too. -/
theorem released (h : s.Part own key v) (token : Uuid) :
    { s with keys := s.keys.release key token }.Part own key { v with keys := v.keys.release key token } :=
  ⟨h.start, h.elapsed, h.keys.release token, h.detached, h.orphans⟩

/-- A key of the part that is left to the system is left to the part. -/
theorem orphan (h : s.Part own key v) (token : Uuid) :
    (s.orphan key token).Part own key (v.orphan key token) where
  start := h.start
  elapsed := h.elapsed
  keys := h.keys
  detached := h.detached
  orphans := by
    show v.orphans ++ _ = (s.orphans ++ _).filter _
    rw [h.orphans]
    exact (filter_concat_of_pos (p := (Orphan.key · == key)) (beq_self_eq_true key)).symm

/-- A key of the part is left behind in the part too. -/
theorem leaveKey (h : s.Part own key v) (hasRuntime : Bool) (token : Uuid) :
    (Job.leaveKey hasRuntime key token s).Part own key (Job.leaveKey hasRuntime key token v) := by
  cases hasRuntime with
  | true => exact h.orphan token
  | false => exact h.log _

/-- Another key is left behind beside the part. -/
theorem leaveKey_other (h : s.Part own key v) {other : IdempotencyKey} (hne : key ≠ other)
    (hasRuntime : Bool) (token : Uuid) : (Job.leaveKey hasRuntime other token s).Part own key v := by
  cases hasRuntime with
  | true =>
    refine ⟨h.start, h.elapsed, h.keys, h.detached, ?_⟩
    show v.orphans = (s.orphans ++ _).filter _
    rw [h.orphans]
    exact (filter_concat_of_neg (p := (Orphan.key · == key)) (beq_eq_false_iff_ne.mpr hne.symm)).symm
  | false => exact h.ofSame rfl rfl rfl rfl rfl

/-- A commit of an owner of the part goes on by itself in the part too. -/
theorem detach (h : s.Part own key v) (hown : own token = true) (t : Transaction) :
    (s.detach token t).Part own key (v.detach token t) where
  start := h.start
  elapsed := h.elapsed
  keys := h.keys
  detached := by
    show v.detached ++ _ = (s.detached ++ _).filter _
    rw [h.detached]
    exact (filter_concat_of_pos (p := (own <| Detached.owner ·)) hown).symm
  orphans := h.orphans

end System.Part

/-! ## Commands -/

/-- A commit of nothing. -/
theorem Database.commit_empty (db : Database) : db.commit .empty = db := by
  simp only [commit, Transaction.empty, List.map_nil, List.append_nil]

/-- Two tables that both have an event, or both have it not, take the event or refuse it alike. -/
theorem Database.insertEvent_congr {db db' : Database} {e : OutboxEvent} (h : db'.hasEvent e.id = db.hasEvent e.id)
    (t : Transaction) : db'.insertEvent t e = db.insertEvent t e := by
  rw [insertEvent, insertEvent, h]

namespace Job

variable {own : Uuid → Bool} {key : IdempotencyKey} {c : PaymentCommand} {token : Uuid} {s s' v : System}
  {p p' : Progress} {m : Move}

/-- A step that was taken in a system was taken in a part of it too, and the same was committed in both, which is
the transaction the command had in hand or nothing. -/
structure Mirrored (own : Uuid → Bool) (c : PaymentCommand) (token : Uuid) (s s' v : System) (p : Progress)
    (m : Move) (p' : Progress) (t : Transaction) (v' : System) : Prop where
  transition : Transition c token v p m p' v'
  part : s'.Part own c.key v'
  tables : s'.database = s.database.commit t ∧ v'.database = v.database.commit t
  rows : t = .empty ∨ ∃ id, p = .committing id t

/-- **A step in the part.** What a command does in a system it can do in the part of its key, if its event is
new to both or to neither. -/
theorem Transition.mirrored (h : Transition c token s p m p' s') (hpart : s.Part own c.key v)
    (hown : own token = true)
    (hid : ∀ e t, p = .writingEvent e t → v.database.hasEvent e.id = s.database.hasEvent e.id) :
    ∃ t v', Mirrored own c token s s' v p m p' t v' := by
  have hanswer : (v.keys.reserve c.key token v.elapsed).1 = (s.keys.reserve c.key token s.elapsed).1 :=
    hpart.elapsed ▸ (hpart.keys.reserve token).1
  -- where nothing is committed
  have hquiet : ∀ {v' : System}, Transition c token v p m p' v' → s'.Part own c.key v' →
      s'.database = s.database → v'.database = v.database → ∃ t v', Mirrored own c token s s' v p m p' t v' :=
    fun {v'} ht hp hs hv => ⟨.empty, v', ht, hp,
      ⟨hs.trans (Database.commit_empty _).symm, hv.trans (Database.commit_empty _).symm⟩, .inl rfl⟩
  cases h with
  | granted hg => exact hquiet (.granted (hanswer.trans hg)) (hpart.decided token) rfl rfl
  | taken ht => exact hquiet (.taken (hanswer.trans ht)) (hpart.decided token) rfl rfl
  | overflows ho hasRuntime =>
    exact hquiet (.overflows (hanswer.trans ho) hasRuntime) ((hpart.decided token).leaveKey hasRuntime token)
      leaveKey_database leaveKey_database
  | accepts id =>
    have ht : Transition c token v (.reserving (some true)) (.reply id) _ _ := .accepts id
    rw [hpart.now] at ht
    exact hquiet ht (hpart.log _) rfl rfl
  | rejects id => exact hquiet (.rejects id) ((hpart.log _).log _) rfl rfl
  | writesPayment => exact hquiet (.writesPayment ..) hpart rfl rfl
  | writesEvent e t t' hok =>
    exact hquiet (.writesEvent e t t' ((Database.insertEvent_congr (hid e t rfl) t).trans hok)) hpart rfl rfl
  | eventRefused e t error herror =>
    exact hquiet (.eventRefused e t error ((Database.insertEvent_congr (hid e t rfl) t).trans herror))
      (hpart.givenUp _) rfl rfl
  | commits id t =>
    exact ⟨t, _, .commits id t, (hpart.commit t).reported, ⟨rfl, rfl⟩, .inr ⟨id, rfl⟩⟩
  | commitFails id t error isDurable =>
    cases isDurable with
    | true =>
      exact ⟨t, _, .commitFails id t error true, (hpart.commit t).givenUp _, ⟨rfl, rfl⟩, .inr ⟨id, rfl⟩⟩
    | false =>
      exact hquiet (.commitFails id t error false) (hpart.givenUp _) rfl rfl
  | detaches id t => exact hquiet (.detaches id t) (hpart.detach hown t) rfl rfl
  | acknowledged id hd =>
    exact hquiet (.acknowledged id ((hpart.isDetached hown).trans hd)) hpart.reported rfl rfl
  | commitLost id error isDurable => exact hquiet (.commitLost id error isDurable) (hpart.givenUp _) rfl rfl
  | reserveFails decision error => exact hquiet (.reserveFails decision error) (hpart.givenUp _) rfl rfl
  | writeFails _ hp error => exact hquiet (.writeFails p hp error) (hpart.givenUp _) rfl rfl
  | releases cause => exact hquiet (.releases cause) (hpart.released token) rfl rfl
  | releaseFails cause => exact hquiet (.releaseFails cause) (hpart.log _) rfl rfl
  | panics _ hp hasRuntime =>
    exact hquiet (.panics p hp hasRuntime) (hpart.leaveKey hasRuntime token) leaveKey_database leaveKey_database
  | dropped _ hp hasRuntime =>
    exact hquiet (.dropped p hp hasRuntime) (hpart.leaveKey hasRuntime token) leaveKey_database leaveKey_database
  | droppedLate _ hp hasRuntime => exact hquiet (.droppedLate p hp hasRuntime) (hpart.log _) rfl rfl
  | droppedReleasing cause hasRuntime => exact hquiet (.droppedReleasing cause hasRuntime) hpart rfl rfl

/-- **A step beside the part.** What a command with another key does is no matter to the part. -/
theorem Transition.aside (h : Transition c token s p m p' s') (hpart : s.Part own key v) (hkey : key ≠ c.key)
    (hown : own token = false) : s'.Part own key v := by
  have hdecided : (decided c token s).Part own key v :=
    ⟨hpart.start, hpart.elapsed, hpart.keys.reserve_other hkey token, hpart.detached, hpart.orphans⟩
  cases h with
  | granted | taken => exact hdecided
  | overflows _ hasRuntime => exact hdecided.leaveKey_other hkey hasRuntime token
  | panics _ _ hasRuntime | dropped _ _ hasRuntime => exact hpart.leaveKey_other hkey hasRuntime token
  | detaches id t =>
    refine ⟨hpart.start, hpart.elapsed, hpart.keys, ?_, hpart.orphans⟩
    show v.detached = (s.detached ++ _).filter _
    rw [hpart.detached]
    exact (filter_concat_of_neg (p := (own <| Detached.owner ·)) hown).symm
  | releases =>
    exact ⟨hpart.start, hpart.elapsed, hpart.keys.release_other hkey token, hpart.detached, hpart.orphans⟩
  | commitFails id t error isDurable => cases isDurable <;> exact hpart.ofSame rfl rfl rfl rfl rfl
  | _ => exact hpart.ofSame rfl rfl rfl rfl rfl

end Job

/-! ## What the system finishes -/

namespace System.Part

variable {own : Uuid → Bool} {key : IdempotencyKey} {s v : System} {place : Nat}

/-- A commit of an owner of the part is finished in both. -/
theorem finishCommit (h : s.Part own key v) {d : Detached} (hd : s.detached[place]? = some d)
    (hown : own d.owner = true) :
    v.detached[placeAmong (own ·.owner) s.detached place]? = some d ∧
      (s.finishCommit place).Part own key (v.finishCommit (placeAmong (own ·.owner) s.detached place)) := by
  have hd' : v.detached[placeAmong (own ·.owner) s.detached place]? = some d := by
    rw [h.detached]
    exact getElem?_placeAmong hd hown
  refine ⟨hd', ?_⟩
  simp only [System.finishCommit, hd, hd']
  refine ⟨h.start, h.elapsed, h.keys, ?_, h.orphans⟩
  show v.detached.eraseIdx _ = (s.detached.eraseIdx place).filter _
  rw [filter_eraseIdx_of_pos hd hown, h.detached]

/-- A commit of another owner is no matter. -/
theorem finishCommit_aside (h : s.Part own key v) {d : Detached} (hd : s.detached[place]? = some d)
    (hown : own d.owner = false) : (s.finishCommit place).Part own key v := by
  simp only [System.finishCommit, hd]
  refine ⟨h.start, h.elapsed, h.keys, ?_, h.orphans⟩
  show v.detached = (s.detached.eraseIdx place).filter _
  rw [h.detached]
  exact (filter_eraseIdx_of_neg (p := (own ·.owner)) hd hown).symm

/-- An orphan with the key is released in both. -/
theorem finishOrphan (h : s.Part own key v) {o : Orphan} (ho : s.orphans[place]? = some o) (hkey : o.key = key)
    (isReleased : Bool) :
    v.orphans[placeAmong (·.key == key) s.orphans place]? = some o ∧
      (s.finishOrphan place isReleased).Part own key
        (v.finishOrphan (placeAmong (·.key == key) s.orphans place) isReleased) := by
  have hpos : (o.key == key) = true := beq_iff_eq.mpr hkey
  have ho' : v.orphans[placeAmong (·.key == key) s.orphans place]? = some o := by
    rw [h.orphans]
    exact getElem?_placeAmong ho hpos
  refine ⟨ho', ?_⟩
  simp only [System.finishOrphan, ho, ho']
  have horphans : v.orphans.eraseIdx (placeAmong (·.key == key) s.orphans place) =
      (s.orphans.eraseIdx place).filter (·.key == key) := by
    rw [filter_eraseIdx_of_pos ho hpos, h.orphans]
  cases isReleased with
  | true => exact ⟨h.start, h.elapsed, hkey ▸ h.keys.release o.token, h.detached, horphans⟩
  | false => exact ⟨h.start, h.elapsed, h.keys, h.detached, horphans⟩

/-- The release of another key is no matter. -/
theorem finishOrphan_aside (h : s.Part own key v) {o : Orphan} (ho : s.orphans[place]? = some o)
    (hkey : o.key ≠ key) (isReleased : Bool) : (s.finishOrphan place isReleased).Part own key v := by
  have horphans : v.orphans = (s.orphans.eraseIdx place).filter (·.key == key) := by
    rw [h.orphans]
    exact (filter_eraseIdx_of_neg (p := (·.key == key)) ho (beq_eq_false_iff_ne.mpr hkey)).symm
  simp only [System.finishOrphan, ho]
  cases isReleased with
  | true => exact ⟨h.start, h.elapsed, h.keys.release_other hkey.symm o.token, h.detached, horphans⟩
  | false => exact ⟨h.start, h.elapsed, h.keys, h.detached, horphans⟩

end System.Part

end PaymentRelay
