import PaymentRelay.Proofs.Delivery.Transition
import PaymentRelay.Proofs.World.Handling

/-!
# Deliveries side by side

A mailroom is one system with all deliveries to the service that notifies customers, those that are under way and
those that have ended. They take their steps in any order, every step may go wrong, and a delivery may be dropped
wherever it waits. `Errand` is a delivery together with what is known of it and decides nothing: when it was granted
its key.

The law of a mailroom is `Guarded`: as long as no reservation of an event has expired, at most one delivery was
granted the key of that event and has not failed since, and while there is one, the key has an entry. Tokens need
not differ for it.

What is done about an event then depends on what became of the deliveries that were granted its key. One that is
turned away is done as well, whether or not a notification was sent by then (`unnotified_iff_turned_away`).
-/

namespace PaymentRelay

/-! ## Errands -/

/-- A delivery in a mailroom. -/
structure Errand where
  delivery : Delivery
  /-- When the key store granted the delivery its key. -/
  grantedAt : Option Nat
deriving DecidableEq, Repr

namespace Errand

/-- A delivery after a step that took it to `d` at the time `now`. -/
def advanced (e : Errand) (d : Delivery) (now : Nat) : Errand where
  delivery := d
  grantedAt := match d.progress with
    | .reserving (some true) => some now
    | _ => e.grantedAt

/-- The delivery was granted its key at a time. -/
def IsGranted (e : Errand) : Prop := e.grantedAt.isSome = true

instance (e : Errand) : Decidable e.IsGranted := inferInstanceAs (Decidable (_ = _))

/-- The delivery was granted its key and has sent its notification. -/
def hasSent (e : Errand) : Bool :=
  e.grantedAt.isSome && e.delivery.progress == .ended .done

/-- The delivery was granted its key and has not failed since. -/
def isInCharge (e : Errand) : Bool :=
  e.grantedAt.isSome && match e.delivery.progress with
    | .ended (.failed _) => false
    | _ => true

/-- The delivery found the key taken. -/
def IsTurnedAway (e : Errand) : Prop :=
  e.grantedAt = none ∧ (e.delivery.progress = .reserving (some false) ∨ e.delivery.progress = .ended .done)

/-- Progress and what is known of the key go together. -/
def Agrees (e : Errand) : Prop :=
  match e.delivery.progress with
  | .reserving (some true) | .sending | .releasing _ => e.grantedAt.isSome = true
  | .reserving _ => e.grantedAt = none
  | .ended _ => True

end Errand

/-! ## Mailrooms -/

/-- A system with the deliveries to the service that notifies customers. -/
structure Mailroom where
  system : System
  /-- The deliveries, the first to begin first. -/
  errands : List Errand
  /-- The deliveries that have sent, as they were at that time, the first to send first. -/
  sendings : List Delivery
deriving Repr

namespace Mailroom

/-- What happens in a mailroom. -/
inductive Action where
  /-- Time passes. -/
  | advance (nanos : Nat)
  /-- A delivery begins. -/
  | accept (eventId : Uuid) (event : PaymentSucceeded) (channel : Channel) (token : Uuid)
  /-- The delivery at a place takes a step. -/
  | move (place : Nat) (m : Delivery.Move)
deriving Repr

/-- The mailroom in which nothing has been delivered yet. -/
def opening (s : System) : Mailroom := ⟨s, [], []⟩

/-- One action. There is no answer where an action does not apply. -/
def step (r : Mailroom) : Action → Option Mailroom
  | .advance nanos => some { r with system := r.system.advance nanos }
  | .accept eventId event channel token =>
    some { r with errands := r.errands ++ [⟨.start eventId event channel token, none⟩] }
  | .move place m => do
    let e ← r.errands[place]?
    let (d, s) ← e.delivery.step m r.system
    return {
      system := s
      errands := r.errands.set place (e.advanced d r.system.elapsed)
      sendings := if m = .send then r.sendings ++ [e.delivery] else r.sendings }

/-- The actions of a list, the first first. -/
def run (r : Mailroom) : List Action → Option Mailroom
  | [] => some r
  | a :: rest => (r.step a).bind fun r => r.run rest

/-- A notification of the event was sent. -/
def HasNotified (r : Mailroom) (id : Uuid) : Prop := ∃ d ∈ r.sendings, d.eventId = id

/-- No reservation that was granted for an event has expired. -/
def Unexpired (r : Mailroom) (id : Uuid) : Prop :=
  ∀ e ∈ r.errands, e.delivery.eventId = id → ∀ time ∈ e.grantedAt,
    r.system.elapsed < time + r.system.sent.lifetime.toNanos

instance (r : Mailroom) (id : Uuid) : Decidable (r.HasNotified id) :=
  inferInstanceAs (Decidable (∃ d ∈ _, _))

instance (r : Mailroom) (id : Uuid) : Decidable (r.Unexpired id) :=
  inferInstanceAs (Decidable (∀ e ∈ _, _))

variable {r r' : Mailroom} {s s' : System} {a : Action} {id : Uuid} {e : Errand} {d : Delivery} {m : Delivery.Move}
  {place : Nat}

/-- What holds in a mailroom and is kept by every action holds after a run. -/
theorem run_keeps {P : Mailroom → Prop} (hstep : ∀ r a r', P r → r.step a = some r' → P r')
    {actions : List Action} (h : P r) (hrun : r.run actions = some r') : P r' := by
  induction actions generalizing r with
  | nil =>
    cases hrun
    exact h
  | cons a rest ih =>
    obtain ⟨next, hnext, hrest⟩ := Option.bind_eq_some_iff.mp hrun
    exact ih (hstep r a next h hnext) hrest

/-- A run is its beginning and then its rest. -/
theorem run_append (r : Mailroom) (as bs : List Action) : r.run (as ++ bs) = (r.run as).bind fun r => r.run bs := by
  induction as generalizing r with
  | nil => rfl
  | cons a rest ih =>
    rw [List.cons_append, run, run, Option.bind_assoc]
    exact congrArg _ (funext ih)

/-- The ways in which a mailroom goes on. -/
inductive Change (r : Mailroom) : Mailroom → Prop
  | advance (nanos : Nat) : Change r { r with system := r.system.advance nanos }
  | accept (eventId : Uuid) (event : PaymentSucceeded) (channel : Channel) (token : Uuid) :
      Change r { r with errands := r.errands ++ [⟨.start eventId event channel token, none⟩] }
  | move (place : Nat) (m : Delivery.Move) (e : Errand) (d : Delivery) (s : System)
      (he : r.errands[place]? = some e) (h : e.delivery.Transition r.system m d s) :
      Change r {
        system := s
        errands := r.errands.set place (e.advanced d r.system.elapsed)
        sendings := if m = .send then r.sendings ++ [e.delivery] else r.sendings }

/-- Every action is one of these. -/
theorem change_of_step (h : r.step a = some r') : r.Change r' := by
  cases a with
  | advance nanos =>
    cases h
    exact .advance nanos
  | accept eventId event channel token =>
    cases h
    exact .accept eventId event channel token
  | move place m =>
    obtain ⟨e, he, h⟩ := Option.bind_eq_some_iff.mp h
    obtain ⟨⟨d, s⟩, hd, h⟩ := Option.bind_eq_some_iff.mp h
    cases h
    exact .move place m e d s he (Delivery.transition_of_step hd)

end Mailroom

/-! ## One step of one delivery -/

namespace Errand

variable {e : Errand} {d : Delivery} {m : Delivery.Move} {s s' : System} {now : Nat}

/-- A delivery that has just begun knows nothing of its key. -/
theorem agrees_start (eventId : Uuid) (event : PaymentSucceeded) (channel : Channel) (token : Uuid) :
    Agrees ⟨.start eventId event channel token, none⟩ := rfl

/-- A step keeps progress and what is known of the key together. -/
theorem Agrees.advanced (h : e.Agrees) (ht : e.delivery.Transition s m d s') : (e.advanced d now).Agrees := by
  cases ht with
  | granted hp => rfl
  | taken hp =>
    rw [Agrees, hp] at h
    exact h
  | goesOn hp | sendFails _ hp =>
    rw [Agrees, hp] at h
    exact h
  | _ => trivial

/-- A delivery that was granted its key is not granted it again. -/
theorem Agrees.grantedAt (h : e.Agrees) (ht : e.delivery.Transition s m d s') {time : Nat}
    (hg : e.grantedAt = some time) : (e.advanced d now).grantedAt = some time := by
  cases ht with
  | granted hp =>
    rw [Agrees, hp] at h
    rw [h] at hg
    cases hg
  | _ => exact hg

/-- A delivery that has sent has ended. -/
theorem hasSent_of_underWay (h : e.delivery.progress.IsUnderWay) : e.hasSent = false := by
  cases hp : e.delivery.progress with
  | ended handled => exact (hp ▸ h : DeliveryProgress.IsUnderWay (.ended handled)).elim
  | _ => simp [hasSent, hp]

/-- A step makes it true that a delivery has sent exactly if it sends. -/
theorem Agrees.hasSent_advanced (h : e.Agrees) (ht : e.delivery.Transition s m d s') :
    (e.advanced d now).hasSent = decide (m = .send) := by
  cases ht with
  | turnedAway hp | sends hp =>
    rw [Agrees, hp] at h
    simp [hasSent, Errand.advanced, Delivery.become, h]
  | _ => simp [hasSent, Errand.advanced, Delivery.become]

/-- A delivery is turned away only by a key that was taken. -/
theorem Agrees.isTurnedAway (h : e.Agrees) (ht : e.delivery.Transition s m d s')
    (haway : (e.advanced d now).IsTurnedAway) : e.IsTurnedAway ∨
      (s.sent.reserve (Delivery.keyOf e.delivery.eventId) e.delivery.token s.elapsed).1 = .taken := by
  obtain ⟨hnone, hprogress⟩ := haway
  cases ht with
  | taken hp ht => exact .inr ht
  | turnedAway hp => exact .inl ⟨hnone, .inl hp⟩
  | sends hp =>
    rw [Agrees, hp] at h
    exact absurd hnone (Option.isSome_iff_ne_none.mp h)
  | granted => cases hnone
  | _ => rcases hprogress with hprogress | hprogress <;> cases hprogress

/-- Only a delivery that is granted its key comes to be in charge of it. -/
theorem isInCharge_of_advanced (ht : e.delivery.Transition s m d s')
    (hcharge : (e.advanced d now).isInCharge = true) : e.isInCharge = true ∨
      (s.sent.reserve (Delivery.keyOf e.delivery.eventId) e.delivery.token s.elapsed).1 = .granted ∧
        s'.sent = (s.sent.reserve (Delivery.keyOf e.delivery.eventId) e.delivery.token s.elapsed).2 := by
  cases ht with
  | granted hp hg => exact .inr ⟨hg, rfl⟩
  | reserveFails _ _ hp | releases _ hp | releaseFails _ _ hp =>
    simp [isInCharge, advanced, Delivery.become] at hcharge
  | taken hp | overflows hp | goesOn hp | turnedAway hp | sends hp | sendPanics hp | sendFails _ hp =>
    exact .inl (by simpa [isInCharge, hp, advanced, Delivery.become] using hcharge)
  | dropped hp =>
    cases hprogress : e.delivery.progress with
    | ended handled => exact (hprogress ▸ hp : DeliveryProgress.IsUnderWay (.ended handled)).elim
    | _ => exact .inl (by simpa [isInCharge, hprogress, advanced, Delivery.become] using hcharge)

/-- A delivery that lets its key go was in charge of it, and no longer is. -/
theorem Agrees.releases (h : e.Agrees) (ht : e.delivery.Transition s .release d s') :
    e.isInCharge = true ∧ (e.advanced d now).isInCharge = false := by
  cases ht with
  | releases cause hp =>
    rw [Agrees, hp] at h
    simp [Errand.isInCharge, hp, h, Errand.advanced, Delivery.become]

end Errand

/-! ## One element of a list replaced -/

theorem countP_set_add (p : α → Bool) {l : List α} {place : Nat} {x : α} (h : l[place]? = some x) (y : α) :
    (l.set place y).countP p + (p x).toNat = l.countP p + (p y).toNat := by
  obtain ⟨hlt, hx⟩ := List.getElem?_eq_some_iff.mp h
  have hle : (if p l[place] = true then 1 else 0) ≤ l.countP p := List.boole_getElem_le_countP hlt
  rw [List.countP_set hlt]
  rw [hx] at hle ⊢
  cases hpx : p x <;> cases p y <;>
    simp only [hpx, reduceIte, Bool.toNat_true, Bool.toNat_false, Bool.false_eq_true] at hle ⊢ <;> omega

theorem exists_mem_set {p : α → Prop} {l : List α} {place : Nat} {x y : α} (h : l[place]? = some x)
    (hp : p x → p y) (hl : ∃ z ∈ l, p z) : ∃ z ∈ l.set place y, p z := by
  obtain ⟨hlt, hx⟩ := List.getElem?_eq_some_iff.mp h
  obtain ⟨z, hz, hpz⟩ := hl
  obtain ⟨i, hi, rfl⟩ := List.mem_iff_getElem.mp hz
  by_cases heq : place = i
  · subst heq
    exact ⟨y, List.mem_set hlt y, hp (hx ▸ hpz)⟩
  · have hkept : (l.set place y)[i]? = some l[i] := by
      rw [List.getElem?_set_ne heq, List.getElem?_eq_getElem hi]
    exact ⟨l[i], List.mem_of_getElem? hkept, hpz⟩

namespace Mailroom

variable {r r' : Mailroom} {s : System} {id : Uuid}

/-! ## What is true of every mailroom -/

/-- What is known of the deliveries and what is left of them go together, in a mailroom that began with the
system `s`. -/
structure Accounted (s : System) (r : Mailroom) : Prop where
  lasts : r.system.sent.lifetime = s.sent.lifetime
  agrees : ∀ e ∈ r.errands, e.Agrees
  /-- Every key was granted to a delivery of its event. -/
  entries : ∀ id held, r.system.sent.held? (Delivery.keyOf id) = some held →
    ∃ e ∈ r.errands, e.delivery.eventId = id ∧
      ∃ time, e.grantedAt = some time ∧ held.expires = time + s.sent.lifetime.toNanos
  /-- Who is turned away comes after one who was granted the key. -/
  turnedAway : ∀ e ∈ r.errands, e.IsTurnedAway →
    ∃ other ∈ r.errands, other.delivery.eventId = e.delivery.eventId ∧ other.IsGranted
  /-- A delivery sends once. -/
  sendings : ∀ id, r.sendings.countP (·.eventId == id) =
    r.errands.countP fun e => e.delivery.eventId == id && e.hasSent
  notices : r.system.notices = s.notices ++ r.sendings.flatMap (·.mail)

theorem accounted_opening (hfree : ∀ id, s.sent.held? (Delivery.keyOf id) = none) : Accounted s (opening s) where
  lasts := rfl
  agrees _ he := absurd he List.not_mem_nil
  entries id _ hheld := absurd hheld (by rw [opening, hfree]; nofun)
  turnedAway _ he := absurd he List.not_mem_nil
  sendings _ := rfl
  notices := (List.append_nil _).symm

theorem Accounted.accept (h : r.Accounted s) (eventId : Uuid) (event : PaymentSucceeded) (channel : Channel)
    (token : Uuid) :
    Accounted s { r with errands := r.errands ++ [⟨.start eventId event channel token, none⟩] } := by
  constructor
  case lasts => exact h.lasts
  case notices => exact h.notices
  case agrees =>
    intro e he
    rcases List.mem_append.mp he with he | he
    · exact h.agrees e he
    · rw [List.mem_singleton.mp he]
      exact Errand.agrees_start ..
  case entries =>
    intro id held hheld
    obtain ⟨e, he, hgranted⟩ := h.entries id held hheld
    exact ⟨e, List.mem_append_left _ he, hgranted⟩
  case turnedAway =>
    intro e he haway
    rcases List.mem_append.mp he with he | he
    · obtain ⟨other, hother, hgranted⟩ := h.turnedAway e he haway
      exact ⟨other, List.mem_append_left _ hother, hgranted⟩
    · rw [List.mem_singleton.mp he] at haway
      obtain ⟨-, hprogress | hprogress⟩ := haway <;> cases hprogress
  case sendings =>
    intro id
    rw [List.countP_append, ← h.sendings id]
    simp [Errand.hasSent]

/-- A key that is taken was granted to a delivery of its event. -/
theorem Accounted.granted_of_taken (h : r.Accounted s) {token : Uuid}
    (htaken : (r.system.sent.reserve (Delivery.keyOf id) token r.system.elapsed).1 = .taken) :
    ∃ e ∈ r.errands, e.delivery.eventId = id ∧ e.IsGranted := by
  obtain ⟨held, hheld, -⟩ := (Option.any_eq_true _ _).mp ((KeyStore.reserve_taken_iff ..).mp htaken)
  obtain ⟨e, he, hid, time, htime, -⟩ := h.entries id held hheld
  exact ⟨e, he, hid, Option.isSome_iff_exists.mpr ⟨time, htime⟩⟩

section Move

variable {place : Nat} {m : Delivery.Move} {e : Errand} {d : Delivery} {s' : System}

/-- Whoever was granted a key still is known to have been. -/
theorem Accounted.granted_move (h : r.Accounted s) (he : r.errands[place]? = some e)
    (ht : e.delivery.Transition r.system m d s')
    (hbefore : ∃ other ∈ r.errands, other.delivery.eventId = id ∧ other.IsGranted) :
    ∃ other ∈ r.errands.set place (e.advanced d r.system.elapsed),
      other.delivery.eventId = id ∧ other.IsGranted := by
  have hagrees : e.Agrees := h.agrees e (List.mem_of_getElem? he)
  refine exists_mem_set he ?_ hbefore
  rintro ⟨rfl, hgranted⟩
  obtain ⟨time, htime⟩ := Option.isSome_iff_exists.mp hgranted
  exact ⟨ht.frame.1, Option.isSome_iff_exists.mpr ⟨time, hagrees.grantedAt ht htime⟩⟩

/-- One more delivery has sent exactly if the step sends. -/
theorem Accounted.sendings_move (h : r.Accounted s) (he : r.errands[place]? = some e)
    (ht : e.delivery.Transition r.system m d s') (id : Uuid) :
    (if m = .send then r.sendings ++ [e.delivery] else r.sendings).countP (·.eventId == id) =
      (r.errands.set place (e.advanced d r.system.elapsed)).countP fun e =>
        e.delivery.eventId == id && e.hasSent := by
  have hagrees : e.Agrees := h.agrees e (List.mem_of_getElem? he)
  have hcount := countP_set_add (fun e => e.delivery.eventId == id && e.hasSent) he
    (e.advanced d r.system.elapsed)
  rw [Errand.hasSent_of_underWay ht.underWay, hagrees.hasSent_advanced ht, ← h.sendings id] at hcount
  simp only [Bool.and_false, Bool.toNat_false, Nat.add_zero] at hcount
  rw [hcount]
  split
  next hm =>
    rw [List.countP_append, List.countP_singleton, Errand.advanced, ht.frame.1]
    cases e.delivery.eventId == id <;> simp [hm]
  next hm => simp [hm]

/-- **A step of one delivery keeps the account.** -/
theorem Accounted.move (h : r.Accounted s) (he : r.errands[place]? = some e)
    (ht : e.delivery.Transition r.system m d s') :
    Accounted s {
      system := s'
      errands := r.errands.set place (e.advanced d r.system.elapsed)
      sendings := if m = .send then r.sendings ++ [e.delivery] else r.sendings } := by
  have hagrees : e.Agrees := h.agrees e (List.mem_of_getElem? he)
  obtain ⟨hid, helapsed, hlasts⟩ := ht.frame
  constructor
  case lasts => exact hlasts.trans h.lasts
  case agrees =>
    intro x hx
    rcases List.mem_or_eq_of_mem_set hx with hx | rfl
    · exact h.agrees x hx
    · exact hagrees.advanced ht
  case entries =>
    intro id held hheld
    rcases ht.entry hheld with hheld | ⟨hgranted, hkey, hexpires⟩
    · refine exists_mem_set he ?_ (h.entries id held hheld)
      rintro ⟨rfl, time, htime, hexpires⟩
      exact ⟨hid, time, hagrees.grantedAt ht htime, hexpires⟩
    · obtain ⟨hlt, -⟩ := List.getElem?_eq_some_iff.mp he
      refine ⟨_, List.mem_set hlt _, hid.trans (Delivery.keyOf_inj hkey).symm, r.system.elapsed, ?_, ?_⟩
      · simp only [Errand.advanced, hgranted]
      · rw [hexpires, h.lasts]
  case turnedAway =>
    intro x hx haway
    rcases List.mem_or_eq_of_mem_set hx with hx | rfl
    · exact h.granted_move he ht (h.turnedAway x hx haway)
    · refine hid ▸ h.granted_move he ht ?_
      rcases hagrees.isTurnedAway ht haway with haway | htaken
      · exact h.turnedAway e (List.mem_of_getElem? he) haway
      · exact h.granted_of_taken htaken
  case sendings => exact fun id => h.sendings_move he ht id
  case notices =>
    rw [ht.notices, h.notices]
    split
    next hm => rw [List.flatMap_append, List.flatMap_singleton, List.append_assoc]
    next hm => rw [List.append_nil]

end Move

theorem Accounted.step (h : r.Accounted s) (hchange : r.Change r') : r'.Accounted s := by
  cases hchange with
  | advance nanos => exact ⟨h.lasts, h.agrees, h.entries, h.turnedAway, h.sendings, h.notices⟩
  | accept eventId event channel token => exact h.accept eventId event channel token
  | move place m e d s' he ht => exact h.move he ht

theorem accounted_run {actions : List Action} (hfree : ∀ id, s.sent.held? (Delivery.keyOf id) = none)
    (hrun : (opening s).run actions = some r) : r.Accounted s :=
  run_keeps (fun _ _ _ h hstep => h.step (change_of_step hstep)) (accounted_opening hfree) hrun

/-! ## While no reservation has expired -/

/-- What has not expired now had not expired before. -/
theorem Accounted.unexpired_before (h : r.Accounted s) (hchange : r.Change r') (hlive : r'.Unexpired id) :
    r.Unexpired id := by
  intro e he hid time htime
  cases hchange with
  | advance nanos => exact Nat.lt_of_le_of_lt (Nat.le_add_right _ _) (hlive e he hid time htime)
  | accept => exact hlive e (List.mem_append_left _ he) hid time htime
  | move place m moved d s' hmoved ht =>
    obtain ⟨hsame, helapsed, hlasts⟩ := ht.frame
    have hagrees : moved.Agrees := h.agrees moved (List.mem_of_getElem? hmoved)
    obtain ⟨x, hx, hxid, hxtime⟩ : ∃ x ∈ r.errands.set place (moved.advanced d r.system.elapsed),
        x.delivery.eventId = id ∧ x.grantedAt = some time := by
      refine exists_mem_set hmoved ?_ ⟨e, he, hid, htime⟩
      rintro ⟨rfl, hgranted⟩
      exact ⟨hsame, hagrees.grantedAt ht hgranted⟩
    have hbound := hlive x hx hxid time hxtime
    rwa [helapsed, hlasts] at hbound

/-- The entry of an event whose reservations have not expired is live. -/
theorem Accounted.isLive (h : r.Accounted s) (hlive : r.Unexpired id) {held : Held}
    (hheld : r.system.sent.held? (Delivery.keyOf id) = some held) : held.isLive r.system.elapsed = true := by
  obtain ⟨e, he, hid, time, htime, hexpires⟩ := h.entries id held hheld
  have hbound := hlive e he hid time htime
  rw [h.lasts, ← hexpires] at hbound
  exact decide_eq_true hbound

/-- The delivery was granted the key of the event and has not failed since. -/
def isInChargeOf (id : Uuid) (e : Errand) : Bool :=
  e.delivery.eventId == id && e.isInCharge

theorem isInChargeOf_of_granted {e : Errand} (hid : e.delivery.eventId = id) (hgranted : e.IsGranted)
    (hkept : ∀ error, e.delivery.progress ≠ .ended (.failed error)) : isInChargeOf id e = true := by
  rw [isInChargeOf, hid, beq_self_eq_true, Bool.true_and, Errand.isInCharge,
    show e.grantedAt.isSome = true from hgranted, Bool.true_and]
  split
  next error hfailed => exact absurd hfailed (hkept error)
  next => rfl

/-- While no reservation of an event has expired, at most one delivery is in charge of it, and the key has an
entry if one is. -/
def Guarded (r : Mailroom) (id : Uuid) : Prop :=
  r.Unexpired id → r.errands.countP (isInChargeOf id) ≤ (r.system.sent.held? (Delivery.keyOf id)).isSome.toNat

/-- A key that is granted for an event whose reservations have not expired had no entry. -/
theorem Accounted.free_of_granted (h : r.Accounted s) (hlive : r.Unexpired id) {token : Uuid}
    (hgranted : (r.system.sent.reserve (Delivery.keyOf id) token r.system.elapsed).1 = .granted) :
    r.system.sent.held? (Delivery.keyOf id) = none := by
  apply Option.eq_none_iff_forall_ne_some.mpr
  intro held hheld
  have htaken : r.system.sent.contains (Delivery.keyOf id) r.system.elapsed = true := by
    rw [KeyStore.contains, hheld, Option.any_some, h.isLive hlive hheld]
  rw [(KeyStore.reserve_taken_iff ..).mpr htaken] at hgranted
  cases hgranted

/-- An entry of an event whose reservations have not expired stays, unless it is let go. -/
theorem Accounted.entry_stays (h : r.Accounted s) (hlive : r.Unexpired id) {m : Delivery.Move} {d d' : Delivery}
    {s' : System} (ht : d.Transition r.system m d' s') (hother : m = .release → d.eventId ≠ id) :
    (r.system.sent.held? (Delivery.keyOf id)).isSome.toNat ≤
      (s'.sent.held? (Delivery.keyOf id)).isSome.toNat := by
  cases hheld : r.system.sent.held? (Delivery.keyOf id) with
  | none => exact Nat.zero_le _
  | some held =>
    have hne : m = .release → Delivery.keyOf id ≠ Delivery.keyOf d.eventId := fun hm hkey =>
      hother hm (Delivery.keyOf_inj hkey).symm
    have hstays := ht.held?_of_live hheld (h.isLive hlive hheld) hne
    exact Nat.le_of_eq (by rw [hstays])

/-- A step of one delivery leaves at most one in charge: who comes to be in charge found the key free, and who
lets it go no longer is. -/
theorem Accounted.inCharge_move (h : r.Accounted s) (hlive : r.Unexpired id)
    (hcount : r.errands.countP (isInChargeOf id) ≤ (r.system.sent.held? (Delivery.keyOf id)).isSome.toNat)
    {place : Nat} {m : Delivery.Move} {e : Errand} {d : Delivery} {s' : System}
    (he : r.errands[place]? = some e) (ht : e.delivery.Transition r.system m d s') :
    (r.errands.set place (e.advanced d r.system.elapsed)).countP (isInChargeOf id) ≤
      (s'.sent.held? (Delivery.keyOf id)).isSome.toNat := by
  have hagrees : e.Agrees := h.agrees e (List.mem_of_getElem? he)
  have hsame : (e.advanced d r.system.elapsed).delivery.eventId = e.delivery.eventId := ht.frame.1
  have hset := countP_set_add (isInChargeOf id) he (e.advanced d r.system.elapsed)
  rw [isInChargeOf, isInChargeOf, hsame] at hset
  by_cases hid : e.delivery.eventId = id
  · rw [beq_iff_eq.mpr hid, Bool.true_and, Bool.true_and] at hset
    by_cases hm : m = .release
    · subst hm
      obtain ⟨hbefore, hafter⟩ : e.isInCharge = true ∧ (e.advanced d r.system.elapsed).isInCharge = false :=
        hagrees.releases ht
      have hle := Bool.toNat_le (r.system.sent.held? (Delivery.keyOf id)).isSome
      rw [hbefore, hafter, Bool.toNat_true, Bool.toNat_false] at hset
      omega
    · have hentry := h.entry_stays hlive ht fun hrelease => absurd hrelease hm
      cases hcharge : (e.advanced d r.system.elapsed).isInCharge with
      | false =>
        rw [hcharge, Bool.toNat_false] at hset
        omega
      | true =>
        rcases Errand.isInCharge_of_advanced ht hcharge with hbefore | ⟨hgranted, hsent⟩
        · rw [hbefore, hcharge] at hset
          omega
        · rw [hid] at hgranted hsent
          rw [h.free_of_granted hlive hgranted, Option.isSome_none, Bool.toNat_false] at hcount
          rw [hcharge, Bool.toNat_true] at hset
          rw [hsent, KeyStore.held?_reserve hgranted, if_pos rfl, Option.isSome_some, Bool.toNat_true]
          omega
  · have hentry := h.entry_stays hlive ht fun _ => hid
    rw [beq_eq_false_iff_ne.mpr hid, Bool.false_and, Bool.false_and] at hset
    omega

/-- **Who is in charge.** Every action keeps at most one delivery in charge of an event. -/
theorem Guarded.step (hguard : r.Guarded id) (h : r.Accounted s) (hchange : r.Change r') : r'.Guarded id := by
  intro hlive'
  have hlive := h.unexpired_before hchange hlive'
  have hcount := hguard hlive
  cases hchange with
  | advance nanos => exact hcount
  | accept =>
    rw [List.countP_append]
    simpa [isInChargeOf, Errand.isInCharge] using hcount
  | move place m e d s' he ht => exact h.inCharge_move hlive hcount he ht

theorem guarded_run {actions : List Action} (hfree : ∀ id, s.sent.held? (Delivery.keyOf id) = none)
    (hrun : (opening s).run actions = some r) (id : Uuid) : r.Guarded id := by
  have hboth : r.Accounted s ∧ r.Guarded id := by
    refine run_keeps (P := fun r => r.Accounted s ∧ r.Guarded id) ?_ ?_ hrun
    · rintro r a r' ⟨h, hguard⟩ hstep
      have hchange := change_of_step hstep
      exact ⟨h.step hchange, hguard.step h hchange⟩
    · exact ⟨accounted_opening hfree, fun _ => Nat.zero_le _⟩
  exact hboth.2

/-! ## Done and yet not notified -/

/-- A notification of an event was sent exactly if a delivery of the event has sent. -/
theorem Accounted.hasNotified_iff (h : r.Accounted s) :
    r.HasNotified id ↔ ∃ e ∈ r.errands, e.delivery.eventId = id ∧ e.hasSent = true := by
  have hcount := h.sendings id
  constructor
  · rintro ⟨d, hd, hid⟩
    have hpos : 0 < r.sendings.countP (·.eventId == id) := List.countP_pos_iff.mpr ⟨d, hd, beq_iff_eq.mpr hid⟩
    rw [hcount] at hpos
    obtain ⟨e, he, hsent⟩ := List.countP_pos_iff.mp hpos
    obtain ⟨hid, hsent⟩ := (Bool.and_eq_true _ _).mp hsent
    exact ⟨e, he, beq_iff_eq.mp hid, hsent⟩
  · rintro ⟨e, he, hid, hsent⟩
    have hpos : 0 < r.errands.countP fun e => e.delivery.eventId == id && e.hasSent :=
      List.countP_pos_iff.mpr ⟨e, he, by rw [hsent, Bool.and_true]; exact beq_iff_eq.mpr hid⟩
    rw [← hcount] at hpos
    obtain ⟨d, hd, hid⟩ := List.countP_pos_iff.mp hpos
    exact ⟨d, hd, beq_iff_eq.mp hid⟩

/-- A delivery that is in charge of an event is the only one. -/
theorem Guarded.unique (hguard : r.Guarded id) (hlive : r.Unexpired id) {e other : Errand} (he : e ∈ r.errands)
    (hother : other ∈ r.errands) (hcharge : isInChargeOf id e = true) (hcharge' : isInChargeOf id other = true) :
    e = other := by
  have hle : (r.errands.filter (isInChargeOf id)).length ≤ 1 := by
    rw [← List.countP_eq_length_filter]
    exact Nat.le_trans (hguard hlive) (Bool.toNat_le _)
  have hmem := List.mem_filter.mpr ⟨he, hcharge⟩
  have hmem' := List.mem_filter.mpr ⟨hother, hcharge'⟩
  cases hl : r.errands.filter (isInChargeOf id) with
  | nil =>
    rw [hl] at hmem
    cases hmem
  | cons only rest =>
    rw [hl, List.length_cons] at hle
    obtain rfl : rest = [] := List.eq_nil_of_length_eq_zero (by omega)
    rw [hl] at hmem hmem'
    exact (List.mem_singleton.mp hmem).trans (List.mem_singleton.mp hmem').symm

/-- The deliveries of an event. -/
def errandsOf (r : Mailroom) (id : Uuid) : List Errand :=
  r.errands.filter (·.delivery.eventId == id)

theorem mem_errandsOf {e : Errand} : e ∈ r.errandsOf id ↔ e ∈ r.errands ∧ e.delivery.eventId = id := by
  rw [errandsOf, List.mem_filter, beq_iff_eq]

/-- A delivery that has sent is done, and was granted its key. -/
theorem hasSent_iff {e : Errand} : e.hasSent = true ↔ e.IsGranted ∧ e.delivery.progress = .ended .done := by
  rw [Errand.hasSent, Bool.and_eq_true, beq_iff_eq]
  rfl

/-- No notification of an event was sent exactly if none of its deliveries that were granted the key is done. -/
theorem Accounted.not_hasNotified_iff (h : r.Accounted s) :
    ¬ r.HasNotified id ↔ ∀ e ∈ r.errandsOf id, e.IsGranted → e.delivery.progress ≠ .ended .done := by
  rw [h.hasNotified_iff]
  constructor
  · intro hnone e he hgranted hdone
    obtain ⟨he, hid⟩ := mem_errandsOf.mp he
    exact hnone ⟨e, he, hid, hasSent_iff.mpr ⟨hgranted, hdone⟩⟩
  · rintro hnone ⟨e, he, hid, hsent⟩
    obtain ⟨hgranted, hdone⟩ := hasSent_iff.mp hsent
    exact hnone e (mem_errandsOf.mpr ⟨he, hid⟩) hgranted hdone

/-- Nobody but the delivery in charge of an event has sent. -/
theorem Guarded.not_hasNotified (hguard : r.Guarded id) (h : r.Accounted s) (hlive : r.Unexpired id) {e : Errand}
    (he : e ∈ r.errands) (hcharge : isInChargeOf id e = true) (hdone : e.delivery.progress ≠ .ended .done) :
    ¬ r.HasNotified id := by
  rw [h.hasNotified_iff]
  rintro ⟨other, hother, hid, hsent⟩
  obtain ⟨hgranted, hdone'⟩ := hasSent_iff.mp hsent
  have hcharge' : isInChargeOf id other = true := by
    apply isInChargeOf_of_granted hid hgranted
    intro error
    rw [hdone']
    nofun
  exact hdone (hguard.unique hlive he hother hcharge hcharge' ▸ hdone')

/-- The key of an event stays taken while a delivery is in charge of it. -/
theorem Guarded.contains (hguard : r.Guarded id) (h : r.Accounted s) (hlive : r.Unexpired id) {e : Errand}
    (he : e ∈ r.errands) (hcharge : isInChargeOf id e = true) :
    r.system.sent.contains (Delivery.keyOf id) r.system.elapsed = true := by
  have hpos : 0 < r.errands.countP (isInChargeOf id) := List.countP_pos_iff.mpr ⟨e, he, hcharge⟩
  have hentry := hguard hlive
  cases hheld : r.system.sent.held? (Delivery.keyOf id) with
  | none =>
    rw [hheld, Option.isSome_none, Bool.toNat_false] at hentry
    omega
  | some held => rw [KeyStore.contains, hheld, Option.any_some, h.isLive hlive hheld]

/-- **Done and yet not notified.** A delivery of an event is done although no notification of the event was sent
exactly if one was turned away because another had the key, and of those that were granted the key none is done: they
fail, panic or are dropped before they have sent. If one of them panicked or was dropped, nothing makes up for it while
its reservation lasts: nobody has notified, and the key is taken. -/
theorem unnotified_iff_turned_away {actions : List Action} {r : Mailroom}
    (hfree : ∀ id, s.sent.held? (Delivery.keyOf id) = none) (hrun : (opening s).run actions = some r)
    (id : Uuid) :
    (((∃ e ∈ r.errandsOf id, e.delivery.progress = .ended .done) ∧ ¬ r.HasNotified id) ↔
      (∃ e ∈ r.errandsOf id, e.grantedAt = none ∧ e.delivery.progress = .ended .done) ∧
        (∃ e ∈ r.errandsOf id, e.IsGranted) ∧
        ∀ e ∈ r.errandsOf id, e.IsGranted → e.delivery.progress ≠ .ended .done) ∧
    (r.Unexpired id → ∀ e ∈ r.errandsOf id, e.IsGranted →
      e.delivery.progress = .ended .panicked ∨ e.delivery.progress = .ended .cancelled →
        ¬ r.HasNotified id ∧ r.system.sent.contains (Delivery.keyOf id) r.system.elapsed = true) := by
  have h := accounted_run hfree hrun
  have hguard := guarded_run hfree hrun id
  refine ⟨⟨?_, ?_⟩, ?_⟩
  · rintro ⟨⟨e, he, hdone⟩, hunsent⟩
    have hnone := h.not_hasNotified_iff.mp hunsent
    have haway : e.grantedAt = none :=
      Option.not_isSome_iff_eq_none.mp fun hgranted => hnone e he hgranted hdone
    obtain ⟨hmem, hid⟩ := mem_errandsOf.mp he
    obtain ⟨other, hother, hsame, hgranted⟩ := h.turnedAway e hmem ⟨haway, .inr hdone⟩
    exact ⟨⟨e, he, haway, hdone⟩, ⟨other, mem_errandsOf.mpr ⟨hother, hsame.trans hid⟩, hgranted⟩, hnone⟩
  · rintro ⟨⟨e, he, -, hdone⟩, -, hnone⟩
    exact ⟨⟨e, he, hdone⟩, h.not_hasNotified_iff.mpr hnone⟩
  · intro hlive e he hgranted hbroken
    obtain ⟨hmem, hid⟩ := mem_errandsOf.mp he
    -- whoever panicked or was dropped is still in charge
    have hcharge : isInChargeOf id e = true := by
      apply isInChargeOf_of_granted hid hgranted
      intro error
      rcases hbroken with hbroken | hbroken <;> rw [hbroken] <;> nofun
    have hdone : e.delivery.progress ≠ .ended .done := by
      rcases hbroken with hbroken | hbroken <;> rw [hbroken] <;> nofun
    exact ⟨hguard.not_hasNotified h hlive hmem hcharge hdone, hguard.contains h hlive hmem hcharge⟩

/-- A delivery is dropped while it sends, and a later one of the same event is turned away. -/
def droppedSending : List Action :=
  [.accept (.ofNat 11) sampleEvent .mail (.ofNat 1), .move 0 .reserve, .move 0 .reply, .move 0 .drop,
    .accept (.ofNat 11) sampleEvent .mail (.ofNat 2), .move 1 .reserve, .move 1 .reply]

/-- The later delivery is done, nobody was notified, and nobody will be before the key expires. -/
theorem unnotified_iff_turned_away_of_dropped :
    ∃ r, (opening sampleSystem).run droppedSending = some r ∧
      (∃ e ∈ r.errandsOf (.ofNat 11), e.delivery.progress = .ended .done) ∧ ¬ r.HasNotified (.ofNat 11) ∧
      r.system.sent.contains (Delivery.keyOf (.ofNat 11)) r.system.elapsed = true := by
  have hread : ((opening sampleSystem).run droppedSending).map (fun r => decide (
      (∃ e ∈ r.errandsOf (.ofNat 11), e.grantedAt = none ∧ e.delivery.progress = .ended .done) ∧
      (∃ e ∈ r.errandsOf (.ofNat 11), e.IsGranted ∧ e.delivery.progress = .ended .cancelled) ∧
      (∀ e ∈ r.errandsOf (.ofNat 11), e.IsGranted → e.delivery.progress ≠ .ended .done) ∧
      r.Unexpired (.ofNat 11))) = some true := by decide +kernel
  obtain ⟨r, hrun, hroom⟩ := Option.map_eq_some_iff.mp hread
  obtain ⟨haway, ⟨e, he, hgranted, hdropped⟩, hnone, hlive⟩ := of_decide_eq_true hroom
  obtain ⟨hiff, hbroken⟩ := unnotified_iff_turned_away (fun _ => rfl) hrun (.ofNat 11)
  obtain ⟨hdone, hunsent⟩ := hiff.mpr ⟨haway, ⟨e, he, hgranted⟩, hnone⟩
  obtain ⟨-, htaken⟩ := hbroken hlive e he hgranted (.inr hdropped)
  exact ⟨r, hrun, hdone, hunsent, htaken⟩

/-- A delivery is turned away while another one sends, whose notifier then fails. -/
def failedSending : List Action :=
  [.accept (.ofNat 11) sampleEvent .mail (.ofNat 1), .accept (.ofNat 11) sampleEvent .mail (.ofNat 2),
    .move 0 .reserve, .move 0 .reply, .move 1 .reserve, .move 1 .reply,
    .move 0 (.sendFails (.unavailable "mail gateway")), .move 0 .release]

/-- All deliveries have ended within the lifetime of the key, one of those of the event is done, and nobody was
notified. -/
def IsDoneUnnotified (r : Mailroom) (id : Uuid) : Prop :=
  r.Unexpired id ∧ (∀ e ∈ r.errands, e.delivery.handled?.isSome = true) ∧
    (∃ e ∈ r.errandsOf id, e.delivery.handled? = some .done) ∧ ¬ r.HasNotified id ∧ r.system.notices = []

instance (r : Mailroom) (id : Uuid) : Decidable (r.IsDoneUnnotified id) :=
  inferInstanceAs (Decidable (_ ∧ _))

/-- Both runs end so. -/
theorem done_without_notification :
    (∃ r, (opening sampleSystem).run droppedSending = some r ∧ r.IsDoneUnnotified (.ofNat 11)) ∧
      ∃ r, (opening sampleSystem).run failedSending = some r ∧ r.IsDoneUnnotified (.ofNat 11) := by
  have hread : ∀ actions ∈ [droppedSending, failedSending],
      ((opening sampleSystem).run actions).map (fun r => decide (r.IsDoneUnnotified (.ofNat 11))) = some true := by
    decide +kernel
  have hruns : ∀ actions ∈ [droppedSending, failedSending],
      ∃ r, (opening sampleSystem).run actions = some r ∧ r.IsDoneUnnotified (.ofNat 11) := by
    intro actions hactions
    obtain ⟨r, hrun, hroom⟩ := Option.map_eq_some_iff.mp (hread actions hactions)
    exact ⟨r, hrun, of_decide_eq_true hroom⟩
  exact ⟨hruns _ List.mem_cons_self, hruns _ (List.mem_cons_of_mem _ List.mem_cons_self)⟩

end Mailroom

end PaymentRelay
