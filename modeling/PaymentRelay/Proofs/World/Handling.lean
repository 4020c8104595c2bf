import PaymentRelay.Proofs.Text.Uuids
import PaymentRelay.Proofs.World.Basic

/-!
# How services handle an event

The order service marks the order paid, or reports that it is paid already, or that it does not know the
order. The service that notifies customers takes its key and sends, or lets its key go because the notifier
failed, or finds the key taken. `Service.Handles` has one constructor for each way, with the condition under
which an event is handled that way and what it leaves of the system; every handling is one of them
(`Service.handles`).

The keys of notifications are laid out so that no entry expires while it is looked at (`KeyStore.Fresh`).
As long as none does, a key is granted exactly if nobody has it, and nobody loses it but who lets it go.
-/

namespace PaymentRelay

namespace Service

/-- The ways in which a service handles an event, from the system `s`. -/
inductive Handles (id : Uuid) (e : PaymentSucceeded) (s : System) : Service → Handled → System → Prop
  -- the order service
  | pays (book : OrderBook) (h : s.orders.markPaid e.order = .ok (true, book)) :
      Handles id e s .orders .done ({ s with orders := book }.log .orderPaid)
  | paidAlready (book : OrderBook) (h : s.orders.markPaid e.order = .ok (false, book)) :
      Handles id e s .orders .done (s.log .orderPaidAlready)
  | refuses (error : PaymentError) (h : s.orders.markPaid e.order = .error error) :
      Handles id e s .orders (.failed error) s
  -- the service that notifies customers
  | notifies (token : Uuid) (h : (s.sent.reserve (Delivery.keyOf id) token s.elapsed).1 = .granted) :
      Handles id e s (.notifications token none) .done
        (System.notify { s with sent := (s.sent.reserve (Delivery.keyOf id) token s.elapsed).2 } .mail
          (.ofEvent e))
  | notifierFails (token : Uuid) (error : PaymentError)
      (h : (s.sent.reserve (Delivery.keyOf id) token s.elapsed).1 = .granted) :
      Handles id e s (.notifications token (some error)) (.failed error)
        { s with
          sent := (s.sent.reserve (Delivery.keyOf id) token s.elapsed).2.release (Delivery.keyOf id) token }
  | notifiedAlready (token : Uuid) (fault : Option PaymentError)
      (h : (s.sent.reserve (Delivery.keyOf id) token s.elapsed).1 = .taken) :
      Handles id e s (.notifications token fault) .done
        (System.log { s with sent := (s.sent.reserve (Delivery.keyOf id) token s.elapsed).2 }
          .notificationSentAlready)
  | overflows (token : Uuid) (fault : Option PaymentError)
      (h : (s.sent.reserve (Delivery.keyOf id) token s.elapsed).1 = .overflow) :
      Handles id e s (.notifications token fault) .panicked
        { s with sent := (s.sent.reserve (Delivery.keyOf id) token s.elapsed).2 }

/-- What a delivery does once the key store has decided: it goes on to the notifier, or ends at once. -/
theorem follow_course (id : Uuid) (e : PaymentSucceeded) (token : Uuid) (fault : Option PaymentError)
    (s : System) :
    (Delivery.start id e .mail token).follow s (Delivery.course fault) =
      let d := Delivery.start id e .mail token
      let reserved := { s with sent := (s.sent.reserve (Delivery.keyOf id) token s.elapsed).2 }
      match (s.sent.reserve (Delivery.keyOf id) token s.elapsed).1, fault with
      | .granted, none => (d.become (.ended .done), reserved.notify .mail (.ofEvent e))
      | .granted, some error =>
        (d.become (.ended (.failed error)),
          { reserved with sent := reserved.sent.release (Delivery.keyOf id) token })
      | .taken, _ => (d.become (.ended .done), reserved.log .notificationSentAlready)
      | .overflow, _ => (d.become (.ended .panicked), reserved) := by
  cases h : (s.sent.reserve (Delivery.keyOf id) token s.elapsed).1 <;> cases fault <;>
    simp only [Delivery.course, Delivery.follow, Delivery.start, Delivery.step, h, Delivery.become,
      Delivery.onReply, if_true, if_false, Bool.false_eq_true]

/-- **Every handling is one of these.** -/
theorem handles (service : Service) (id : Uuid) (e : PaymentSucceeded) (s : System) :
    Handles id e s service (service.handler.handle id e s).1 (service.handler.handle id e s).2 := by
  cases service with
  | orders =>
    simp only [handler, System.payOrder]
    cases h : s.orders.markPaid e.order with
    | error error => exact .refuses error h
    | ok answer =>
      obtain ⟨isNew, book⟩ := answer
      cases isNew with
      | true => exact .pays book h
      | false => exact .paidAlready book h
  | notifications token fault =>
    simp only [handler, follow_course]
    cases h : (s.sent.reserve (Delivery.keyOf id) token s.elapsed).1 with
    | granted =>
      cases fault with
      | none => exact .notifies token h
      | some error => exact .notifierFails token error h
    | taken => exact .notifiedAlready token fault h
    | overflow => exact .overflows token fault h

variable {id : Uuid} {e : PaymentSucceeded} {s s' : System} {service : Service} {handled : Handled}

/-- Whatever a service does, it leaves the tables, the broker and the clock alone. -/
theorem Handles.frame (h : Handles id e s service handled s') :
    s'.database = s.database ∧ s'.broker = s.broker ∧ s'.elapsed = s.elapsed := by
  cases h <;> exact ⟨rfl, rfl, rfl⟩

/-- **What becomes of orders.** A known order may be paid by the event of its own payment, and every other
order keeps its status; after the order service has handled the event the order is not an unpaid one. -/
theorem Handles.orders (h : Handles id e s service handled s') :
    (∀ o, s'.orders.status? o = s.orders.status? o ∨
      o = e.order ∧ (s.orders.status? o).isSome = true ∧ s'.orders.status? o = some .paid) ∧
    (service = .orders → s'.orders.status? e.order ≠ some .created) := by
  cases h with
  | pays book h =>
    have hstatus : ∀ o, book.status? o = if o = e.order then some .paid else s.orders.status? o :=
      OrderBook.status?_markPaid h
    have hknown : (s.orders.status? e.order).isSome = true := by
      unfold OrderBook.markPaid at h
      split at h
      next hs => rw [hs]; rfl
      next hs => rw [hs]; rfl
      next => cases h
    refine ⟨fun o => ?_, fun _ hcreated => ?_⟩
    · show book.status? o = _ ∨ o = _ ∧ _ ∧ book.status? o = _
      rw [hstatus]
      split
      next ho => exact .inr ⟨ho, ho ▸ hknown, rfl⟩
      next => exact .inl rfl
    · replace hcreated : book.status? e.order = some .created := hcreated
      rw [hstatus, if_pos rfl] at hcreated
      cases hcreated
  | paidAlready book h =>
    refine ⟨fun o => .inl rfl, fun _ hcreated => ?_⟩
    replace hcreated : s.orders.status? e.order = some .created := hcreated
    rw [OrderBook.markPaid, hcreated] at h
    cases h
  | refuses error h =>
    refine ⟨fun o => .inl rfl, fun _ hcreated => ?_⟩
    rw [OrderBook.markPaid, hcreated] at h
    cases h
  | notifies | notifierFails | notifiedAlready | overflows => exact ⟨fun o => .inl rfl, nofun⟩

end Service

/-! ## Keys that do not expire -/

/-- The keys of two notifications are the same only if the events are. -/
theorem Delivery.keyOf_inj {id other : Uuid} (h : keyOf id = keyOf other) : id = other :=
  Uuid.text_inj ((String.append_right_inj _).mp (IdempotencyKey.mk.inj h))

namespace KeyStore

/-- No entry expires before an instant. -/
def Fresh (s : KeyStore) (bound : Nat) : Prop :=
  ∀ key held, s.held? key = some held → bound ≤ held.expires

variable {s : KeyStore} {bound now : Nat} {key : IdempotencyKey} {token : Uuid}

/-- Where no entry expires, all entries are live. -/
theorem Fresh.filter_live (h : s.Fresh bound) (hnow : now < bound) (other : IdempotencyKey) :
    (s.held? other).filter (·.isLive now) = s.held? other := by
  cases hheld : s.held? other with
  | none => rfl
  | some held =>
    have hlive : held.isLive now = true := decide_eq_true (Nat.lt_of_lt_of_le hnow (h other held hheld))
    rw [Option.filter_some, if_pos hlive]

/-- Where no entry expires, a key is taken if it has an entry. -/
theorem Fresh.contains (h : s.Fresh bound) (hnow : now < bound) (key : IdempotencyKey) :
    s.contains key now = (s.held? key).isSome := by
  rw [KeyStore.contains, ← Option.isSome_filter, h.filter_live hnow]

/-- A key that is granted had no entry, and has the only new one. -/
theorem Fresh.granted (h : s.Fresh bound) (hnow : now < bound)
    (hg : (s.reserve key token now).1 = .granted) :
    s.held? key = none ∧ ∀ other, (s.reserve key token now).2.held? other =
      if other = key then some ⟨token, now + s.lifetime.toNanos⟩ else s.held? other := by
  refine ⟨?_, fun other => by rw [held?_reserve hg, h.filter_live hnow]⟩
  have hfree : s.contains key now ≠ true := fun hc => by
    rw [(reserve_taken_iff s key token now).mpr hc] at hg
    cases hg
  rw [h.contains hnow] at hfree
  exact Option.not_isSome_iff_eq_none.mp hfree

/-- A key that is not granted changes no entry. -/
theorem Fresh.not_granted (h : s.Fresh bound) (hnow : now < bound)
    (hg : (s.reserve key token now).1 ≠ .granted) (other : IdempotencyKey) :
    (s.reserve key token now).2.held? other = s.held? other := by
  by_cases hc : s.contains key now = true
  · simp only [reserve, hc, reduceIte]
  · by_cases hb : now + s.lifetime.toNanos < clockBound
    · exact absurd (by simp only [reserve, hc, hb, reduceIte, Bool.false_eq_true]) hg
    · simp only [reserve, hc, hb, reduceIte, Bool.false_eq_true]
      rw [held?_prune, h.filter_live hnow]

/-- A key that is granted and let go leaves no trace. -/
theorem Fresh.granted_release (h : s.Fresh bound) (hnow : now < bound)
    (hg : (s.reserve key token now).1 = .granted) (other : IdempotencyKey) :
    ((s.reserve key token now).2.release key token).held? other = s.held? other := by
  obtain ⟨hfree, hheld⟩ := h.granted hnow hg
  rw [held?_release, hheld, hheld, if_pos rfl, Option.filter_some]
  split
  next heq =>
    have hown : ¬decide (token ≠ token) = true := fun h => of_decide_eq_true h rfl
    rw [heq, hfree, if_neg hown]
  next => rfl

end KeyStore

/-! ## Who is notified -/

namespace Service

/-- What handling an event does to notifications and their keys: nothing, or one notification is sent and
the key of the event is held from then on. -/
inductive Effect (id : Uuid) (e : PaymentSucceeded) (s : System) (service : Service) (handled : Handled)
    (s' : System) : Prop
  | none (hnotices : s'.notices = s.notices) (hheld : ∀ other, s'.sent.held? other = s.sent.held? other)
      (hdone : service.isNotifying = true → handled = .done →
        (s.sent.held? (Delivery.keyOf id)).isSome = true)
      (hclock : ∀ token, service = .notifications token Option.none → handled = .done ∨
        KeyStore.clockBound ≤ s.elapsed + s.sent.lifetime.toNanos)
  | sends (token : Uuid) (hnotices : s'.notices = s.notices ++ [.ofEvent e])
      (hfree : s.sent.held? (Delivery.keyOf id) = Option.none)
      (hheld : ∀ other, s'.sent.held? other =
        if other = Delivery.keyOf id then some ⟨token, s.elapsed + s.sent.lifetime.toNanos⟩
        else s.sent.held? other)
      (hdone : handled = .done)

theorem Handles.lifetime {id : Uuid} {e : PaymentSucceeded} {s s' : System} {service : Service}
    {handled : Handled} (h : Handles id e s service handled s') :
    s'.sent.lifetime = s.sent.lifetime := by
  cases h with
  | pays | paidAlready | refuses => rfl
  | notifies | notifiedAlready | overflows => exact KeyStore.reserve_lifetime ..
  | notifierFails => exact (KeyStore.release_lifetime ..).trans (KeyStore.reserve_lifetime ..)

/-- **A service notifies once.** While no key expires, a notification is sent exactly if the key of the
event is free and the notifier does not fail, and a delivery that goes through leaves the key held. -/
theorem Handles.effect {id : Uuid} {e : PaymentSucceeded} {s s' : System} {service : Service}
    {handled : Handled} (h : Handles id e s service handled s') {bound : Nat} (hfresh : s.sent.Fresh bound)
    (hnow : s.elapsed < bound) : Effect id e s service handled s' := by
  cases h with
  | pays | paidAlready | refuses => exact .none rfl (fun _ => rfl) nofun nofun
  | notifies token hg =>
    obtain ⟨hfree, hheld⟩ := hfresh.granted hnow hg
    exact .sends token rfl hfree hheld rfl
  | notifierFails token error hg =>
    exact .none rfl (hfresh.granted_release hnow hg) (fun _ => nofun) nofun
  | notifiedAlready token fault ht =>
    have hne : (s.sent.reserve (Delivery.keyOf id) token s.elapsed).1 ≠ .granted := by rw [ht]; exact nofun
    refine .none rfl (hfresh.not_granted hnow hne) (fun _ _ => ?_) fun _ _ => .inl rfl
    rw [← hfresh.contains hnow]
    exact (KeyStore.reserve_taken_iff ..).mp ht
  | overflows token fault ho =>
    have hne : (s.sent.reserve (Delivery.keyOf id) token s.elapsed).1 ≠ .granted := by rw [ho]; exact nofun
    refine .none rfl (hfresh.not_granted hnow hne) (fun _ => nofun) fun _ _ => .inr ?_
    exact Nat.not_lt.mp fun hlt => KeyStore.reserve_ne_overflow hlt _ _ ho

end Service

end PaymentRelay
