import PaymentRelay.Proofs.Event.Wire
import PaymentRelay.Proofs.World.Feed
import PaymentRelay.Proofs.World.Pairing
import PaymentRelay.Proofs.World.Touch

/-!
# What consumers make of what they are fed

A record of the broker announces a payment that was committed, and every service that it is handed to reads
that payment out of it (`read_record`). What the two services make of the records is told apart.

* The orders follow the payments (`OrdersFollow`): an order is paid only if a payment of it was committed,
  and it is paid once the record of a payment was handed to the order service.
* The notifications follow the payments (`NoticesFollow`), as long as no key of a notification expires: the
  key of an event is held exactly if a notification of it was sent, so none is sent twice, and the event of
  a delivery that went through has its notification.

Deliveries come one at a time, so a delivery whose notifier fails leaves the keys as it found them.
-/

namespace PaymentRelay

namespace World

/-! ## Payments and the records of them -/

/-- A payment is announced under an id: the two stand at one place of ledger and outbox. -/
def Announces (w : World) (id : Uuid) (p : Payment) : Prop :=
  ∃ (i : Nat) (e : OutboxEvent), w.system.database.payments[i]? = some p ∧
    w.system.database.written[i]? = some e ∧ e.id = id

variable {w w' : World} {id : Uuid} {p : Payment}

theorem Announces.committed (h : w.Announces id p) : p ∈ w.system.database.payments := by
  obtain ⟨i, e, hp, -, -⟩ := h
  exact List.mem_of_getElem? hp

theorem Announces.step {a : Action} (h : w.Announces id p) (hw : w.Paired) (hstep : w.step a = some w') :
    w'.Announces id p := by
  obtain ⟨i, e, hp, he, hid⟩ := h
  rcases hw.adds hstep with ⟨hpayments, hwritten⟩ | ⟨c, id', now, hpayments, hwritten⟩
  · exact ⟨i, e, hpayments ▸ hp, hwritten ▸ he, hid⟩
  · refine ⟨i, e, ?_, ?_, hid⟩
    · rw [hpayments, List.getElem?_append_left (List.getElem?_eq_some_iff.mp hp).1, hp]
    · rw [hwritten, List.getElem?_append_left (List.getElem?_eq_some_iff.mp he).1, he]

/-- **A record announces a payment.** A consumer reads the event of a committed payment out of every record
of the broker, with the id that is the key of the record. -/
theorem Fed.read_record (h : w.Fed) (hw : w.Paired)
    (husers : ∀ p ∈ w.system.database.payments, Text.FitsInt64 p.user.value) {r : BrokerRecord}
    (hr : r ∈ w.system.broker.records) :
    ∃ id p, w.Announces id p ∧ r.key = id.text ∧ (Message.ofRecord r).read = .ok (id, p.succeeded) := by
  obtain ⟨topic, e, rfl, he⟩ := h.records r hr
  obtain ⟨i, hi⟩ := List.mem_iff_getElem?.mp he
  -- the row at a place of the outbox announces the payment at that place of the ledger
  have hlength : i < w.system.database.payments.length := by
    have hlt := (List.getElem?_eq_some_iff.mp hi).1
    rwa [Database.written, List.length_map, ← hw.length_eq] at hlt
  have hp := List.getElem?_eq_getElem hlength
  have hcontent := congrArg (·[i]?) hw.rows
  simp only [List.getElem?_map, hi, hp, Option.map_some, Option.some.injEq] at hcontent
  obtain ⟨htype, hpayload⟩ := Prod.mk.inj hcontent
  exact ⟨e.id, _, ⟨i, _, hp, hi, rfl⟩, rfl,
    Message.read_ofEvent htype hpayload (husers _ (List.getElem_mem hlength)) topic⟩

/-! ## Deliveries -/

/-- The world after a record was handed to a service, which left the system `s`. -/
def delivered (w : World) (service : Service) (r : BrokerRecord) (handled : Handled) (s : System) : World :=
  { w with
    system := s
    deliveries := w.deliveries ++ [⟨service, r, .handed handled, s.notices.drop w.system.notices.length⟩] }

/-- **A delivery handles the event of a committed payment.** -/
theorem Fed.deliver (h : w.Fed) (hw : w.Paired)
    (husers : ∀ p ∈ w.system.database.payments, Text.FitsInt64 p.user.value) {service : Service}
    {place : Nat} (hstep : w.step (.deliver service place) = some w') :
    ∃ r id p handled s, w.Announces id p ∧ r.key = id.text ∧
      Service.Handles id p.succeeded w.system service handled s ∧ w' = w.delivered service r handled s := by
  obtain ⟨r, hr, hstep⟩ := Option.bind_eq_some_iff.mp hstep
  obtain ⟨id, p, hannounces, hkey, hread⟩ := h.read_record hw husers (List.mem_of_getElem? hr)
  refine ⟨r, id, p, _, _, hannounces, hkey, service.handles id p.succeeded w.system, ?_⟩
  simp only [Message.dispatch, hread] at hstep
  exact (Option.some.inj hstep).symm

/-- A delivery that leaves the tables alone announces nothing anew and takes nothing back. -/
theorem Announces.delivered (h : w.Announces id p) {service : Service} {r : BrokerRecord}
    {handled : Handled} {sys : System} (hdatabase : sys.database = w.system.database) :
    (w.delivered service r handled sys).Announces id p := by
  show ∃ (i : Nat) (e : OutboxEvent), sys.database.payments[i]? = _ ∧ sys.database.written[i]? = _ ∧ _
  rw [hdatabase]
  exact h

/-! ## Orders -/

/-- The orders of a world that opened on `s` follow the payments. -/
structure OrdersFollow (s : System) (w : World) : Prop where
  paid : ∀ o, w.system.orders.status? o = some .paid → ∃ p ∈ w.system.database.payments, p.order = o
  known : ∀ o, (w.system.orders.status? o).isSome = (s.orders.status? o).isSome
  told : ∀ d ∈ w.deliveries, d.service = .orders → ∃ id p, w.Announces id p ∧ d.record.key = id.text ∧
    w.system.orders.status? p.order ≠ some .created

variable {s : System}

/-- Where orders and deliveries stay as they are, the orders go on following the payments. -/
theorem OrdersFollow.of_same {a : Action} (h : w.OrdersFollow s) (hw : w.Paired)
    (hstep : w.step a = some w') (horders : w'.system.orders = w.system.orders)
    (hdeliveries : w'.deliveries = w.deliveries) : w'.OrdersFollow s where
  paid o ho := by
    obtain ⟨p, hp, hpo⟩ := h.paid o (horders ▸ ho)
    exact ⟨p, hw.payments_mono hstep hp, hpo⟩
  known o := horders ▸ h.known o
  told d hd hservice := by
    obtain ⟨id, p, hannounces, hkey, hstatus⟩ := h.told d (hdeliveries ▸ hd) hservice
    exact ⟨id, p, hannounces.step hw hstep, hkey, horders ▸ hstatus⟩

/-- **The order service follows the payments.** An order that is marked paid is that of a committed payment,
and once its record was handed over an order of a payment is not unpaid. -/
theorem OrdersFollow.delivered (h : w.OrdersFollow s) {service : Service} {r : BrokerRecord}
    {handled : Handled} {sys : System} (ha : w.Announces id p) (hkey : r.key = id.text)
    (hh : Service.Handles id p.succeeded w.system service handled sys) :
    (w.delivered service r handled sys).OrdersFollow s := by
  obtain ⟨hstatus, hsettled⟩ := hh.orders
  obtain ⟨hdatabase, -, -⟩ := hh.frame
  constructor
  case paid =>
    intro o ho
    show ∃ p ∈ sys.database.payments, p.order = o
    rw [hdatabase]
    replace ho : sys.orders.status? o = some .paid := ho
    rcases hstatus o with hsame | ⟨rfl, -, -⟩
    · exact h.paid o (hsame ▸ ho)
    · exact ⟨p, ha.committed, rfl⟩
  case known =>
    intro o
    show (sys.orders.status? o).isSome = _
    rw [← h.known o]
    rcases hstatus o with hsame | ⟨-, hknown, hpaid⟩
    · rw [hsame]
    · rw [hknown, hpaid]
      rfl
  case told =>
    intro d hd hservice
    rcases List.mem_append.mp hd with hd | hd
    · obtain ⟨id', p', ha', hkey', hpaid'⟩ := h.told d hd hservice
      refine ⟨id', p', ha'.delivered hdatabase, hkey', fun hcreated => ?_⟩
      replace hcreated : sys.orders.status? p'.order = some .created := hcreated
      rcases hstatus p'.order with hsame | ⟨-, -, hpaid⟩
      · exact hpaid' (hsame ▸ hcreated)
      · rw [hpaid] at hcreated
        cases hcreated
    · cases List.mem_singleton.mp hd
      exact ⟨id, p, ha.delivered hdatabase, hkey, hsettled hservice⟩

/-! ## Notifications -/

/-- The notifications that were sent, each with the id of the event it came from, in text. -/
def sendings (w : World) : List (String × Notification) :=
  w.deliveries.flatMap fun d => d.notices.map fun n => (d.record.key, n)

theorem sendings_delivered (w : World) (service : Service) (r : BrokerRecord) (handled : Handled)
    (sys : System) : (w.delivered service r handled sys).sendings =
      w.sendings ++ (sys.notices.drop w.system.notices.length).map fun n => (r.key, n) := by
  simp only [sendings, World.delivered, List.flatMap_append, List.flatMap_cons, List.flatMap_nil,
    List.append_nil]

/-- The notifications of a world that opened on `s` follow the payments. -/
structure NoticesFollow (s : System) (w : World) : Prop where
  lifetime : w.system.sent.lifetime = s.sent.lifetime
  fresh : w.system.sent.Fresh (s.elapsed + s.sent.lifetime.toNanos)
  held : ∀ id, (w.system.sent.held? (Delivery.keyOf id)).isSome = true ↔ id.text ∈ w.sendings.map (·.1)
  notices : w.system.notices = w.sendings.map (·.2)
  distinct : (w.sendings.map (·.1)).Nodup
  genuine : ∀ n ∈ w.sendings, ∃ id p, w.Announces id p ∧ n = (id.text, .ofEvent p.succeeded)
  told : ∀ d ∈ w.deliveries, d.service.isNotifying = true → d.dispatch = .handed .done →
    d.record.key ∈ w.sendings.map (·.1)
  applied : ∀ d ∈ w.deliveries, ∀ token, d.service = .notifications token none →
    d.dispatch = .handed .done ∨ KeyStore.clockBound ≤ w.system.elapsed + s.sent.lifetime.toNanos

/-- Where keys, notifications and deliveries stay as they are, the notifications go on following the
payments. -/
theorem NoticesFollow.of_same {a : Action} (h : w.NoticesFollow s) (hw : w.Paired)
    (hstep : w.step a = some w') (hsent : w'.system.sent = w.system.sent)
    (hnotices : w'.system.notices = w.system.notices) (hdeliveries : w'.deliveries = w.deliveries) :
    w'.NoticesFollow s := by
  have hsendings : w'.sendings = w.sendings := by rw [sendings, hdeliveries, sendings]
  constructor
  case lifetime => exact hsent ▸ h.lifetime
  case fresh => exact hsent ▸ h.fresh
  case held =>
    rw [hsent, hsendings]
    exact h.held
  case notices =>
    rw [hnotices, hsendings]
    exact h.notices
  case distinct => exact hsendings ▸ h.distinct
  case genuine =>
    intro n hn
    obtain ⟨id, p, ha, hn⟩ := h.genuine n (hsendings ▸ hn)
    exact ⟨id, p, ha.step hw hstep, hn⟩
  case told =>
    rw [hdeliveries, hsendings]
    exact h.told
  case applied =>
    intro d hd token hservice
    have hle := Nat.add_le_add_right (elapsed_le_of_step hstep) s.sent.lifetime.toNanos
    exact (h.applied d (hdeliveries ▸ hd) token hservice).imp_right fun hclock => Nat.le_trans hclock hle

section Delivery

variable {service : Service} {r : BrokerRecord} {handled : Handled} {sys : System}

/-- A delivery that notifies nobody leaves the notifications as they are. -/
theorem NoticesFollow.silent (h : w.NoticesFollow s) (hkey : r.key = id.text)
    (hh : Service.Handles id p.succeeded w.system service handled sys)
    (hnotices : sys.notices = w.system.notices)
    (hheld : ∀ key, sys.sent.held? key = w.system.sent.held? key)
    (hdone : service.isNotifying = true → handled = .done →
      (w.system.sent.held? (Delivery.keyOf id)).isSome = true)
    (hclock : ∀ token, service = .notifications token none → handled = .done ∨
      KeyStore.clockBound ≤ w.system.elapsed + w.system.sent.lifetime.toNanos) :
    (w.delivered service r handled sys).NoticesFollow s := by
  obtain ⟨hdatabase, -, helapsed⟩ := hh.frame
  have hsendings := sendings_delivered w service r handled sys
  rw [hnotices, List.drop_length, List.map_nil, List.append_nil] at hsendings
  constructor
  case lifetime => exact hh.lifetime.trans h.lifetime
  case fresh =>
    intro key held hk
    exact h.fresh key held (hheld key ▸ hk)
  case held =>
    intro other
    show (sys.sent.held? _).isSome = true ↔ _
    rw [hsendings, hheld, h.held]
  case notices =>
    rw [hsendings, ← h.notices]
    exact hnotices
  case distinct => exact hsendings ▸ h.distinct
  case genuine =>
    intro n hn
    obtain ⟨other, p', ha, hn⟩ := h.genuine n (hsendings ▸ hn)
    exact ⟨other, p', ha.delivered hdatabase, hn⟩
  case told =>
    intro d hd hservice hd'
    rw [hsendings]
    rcases List.mem_append.mp hd with hd | hd
    · exact h.told d hd hservice hd'
    · cases List.mem_singleton.mp hd
      rw [hkey, ← h.held]
      exact hdone hservice (Dispatch.handed.inj hd')
  case applied =>
    intro d hd token hservice
    show _ ∨ _ ≤ sys.elapsed + _
    rw [helapsed]
    rcases List.mem_append.mp hd with hd | hd
    · exact h.applied d hd token hservice
    · cases List.mem_singleton.mp hd
      rw [← h.lifetime]
      exact (hclock token hservice).imp_left (congrArg Dispatch.handed)

/-- A delivery that notifies adds the notification of its payment, under a key that was free. -/
theorem NoticesFollow.sending (h : w.NoticesFollow s) (ha : w.Announces id p) (hkey : r.key = id.text)
    (hh : Service.Handles id p.succeeded w.system service handled sys)
    (hstart : s.elapsed ≤ w.system.elapsed) {token : Uuid}
    (hnotices : sys.notices = w.system.notices ++ [.ofEvent p.succeeded])
    (hfree : w.system.sent.held? (Delivery.keyOf id) = none)
    (hheld : ∀ key, sys.sent.held? key =
      if key = Delivery.keyOf id then
        some ⟨token, w.system.elapsed + w.system.sent.lifetime.toNanos⟩
      else w.system.sent.held? key)
    (hdone : handled = .done) : (w.delivered service r handled sys).NoticesFollow s := by
  obtain ⟨hdatabase, -, helapsed⟩ := hh.frame
  have hsendings := sendings_delivered w service r handled sys
  rw [hnotices, List.drop_left, List.map_singleton] at hsendings
  have hnew : id.text ∉ w.sendings.map (·.1) := by
    intro hin
    rw [← h.held, hfree] at hin
    cases hin
  have hkeys : (w.delivered service r handled sys).sendings.map (·.1) =
      w.sendings.map (·.1) ++ [id.text] := by
    rw [hsendings, List.map_append, List.map_singleton, hkey]
  constructor
  case lifetime => exact hh.lifetime.trans h.lifetime
  case fresh =>
    intro key held hk
    replace hk : sys.sent.held? key = some held := hk
    rw [hheld] at hk
    split at hk
    next =>
      cases hk
      rw [h.lifetime]
      exact Nat.add_le_add_right hstart _
    next => exact h.fresh key held hk
  case held =>
    intro other
    -- the keys of two events differ as their ids do, and their texts too
    show (sys.sent.held? _).isSome = true ↔ _
    rw [hheld, hkeys, List.mem_append, List.mem_singleton, ← h.held]
    split
    next heq => exact ⟨fun _ => .inr (congrArg Uuid.text (Delivery.keyOf_inj heq)), fun _ => rfl⟩
    next hne =>
      refine ⟨.inl, fun hin => hin.resolve_right fun heq => hne ?_⟩
      rw [Uuid.text_inj heq]
  case notices =>
    rw [hsendings, List.map_append, ← h.notices]
    exact hnotices
  case distinct =>
    rw [hkeys, List.nodup_append]
    refine ⟨h.distinct, List.nodup_cons.mpr ⟨List.not_mem_nil, .nil⟩, ?_⟩
    intro a ha b hb hab
    exact hnew (List.mem_singleton.mp hb ▸ hab ▸ ha)
  case genuine =>
    intro n hn
    rcases List.mem_append.mp (hsendings ▸ hn) with hn | hn
    · obtain ⟨other, p', ha', hn⟩ := h.genuine n hn
      exact ⟨other, p', ha'.delivered hdatabase, hn⟩
    · exact ⟨id, p, ha.delivered hdatabase, by rw [List.mem_singleton.mp hn, hkey]⟩
  case told =>
    intro d hd hservice hd'
    rw [hkeys]
    rcases List.mem_append.mp hd with hd | hd
    · exact List.mem_append_left _ (h.told d hd hservice hd')
    · cases List.mem_singleton.mp hd
      exact List.mem_append_right _ (List.mem_singleton.mpr hkey)
  case applied =>
    intro d hd token' hservice
    show _ ∨ _ ≤ sys.elapsed + _
    rw [helapsed]
    rcases List.mem_append.mp hd with hd | hd
    · exact h.applied d hd token' hservice
    · cases List.mem_singleton.mp hd
      exact .inl (congrArg Dispatch.handed hdone)

/-- **A delivery notifies once.** While no key expires, a delivery sends the notification of its payment if
none was sent for the event before, and else nothing. -/
theorem NoticesFollow.delivered (h : w.NoticesFollow s) (ha : w.Announces id p) (hkey : r.key = id.text)
    (hh : Service.Handles id p.succeeded w.system service handled sys)
    (hstart : s.elapsed ≤ w.system.elapsed)
    (hnow : w.system.elapsed < s.elapsed + s.sent.lifetime.toNanos) :
    (w.delivered service r handled sys).NoticesFollow s := by
  cases hh.effect h.fresh hnow with
  | none hnotices hheld hdone hclock => exact h.silent hkey hh hnotices hheld hdone hclock
  | sends token hnotices hfree hheld hdone => exact h.sending ha hkey hh hstart hnotices hfree hheld hdone

end Delivery

end World

end PaymentRelay
