import PaymentRelay.Proofs.Delivery.Selection
import PaymentRelay.Proofs.World.Basic

/-!
# Payments of orders in any order

What a message does to the book of orders is one thing, whatever the message and the book: the order that is paid
according to it is paid in the book, if the book has it (`Service.orders_dispatch`). So what a list of messages does is
told by the set of orders that are paid according to some of them (`Service.orders_consume`), and neither the order of
the messages nor how often they come is left to see. The result of a message is decided by its octets and by which
orders are known (`Service.result_dispatch`), and these stay the same.
-/

namespace PaymentRelay

/-! ## Registers with their values replaced -/

namespace Register

variable {κ ν : Type} {r : Register κ ν} {f g : κ → ν → ν} {k : κ} {v w : ν}

/-- The register with every value replaced, the keys staying where they are. -/
def mapValues (f : κ → ν → ν) (r : Register κ ν) : Register κ ν where
  entries := r.entries.map fun e => (e.1, f e.1 e.2)
  distinct := by
    rw [List.map_map]
    exact r.distinct

theorem ext_entries {r' : Register κ ν} (h : r.entries = r'.entries) : r = r' := by
  obtain ⟨entries, distinct⟩ := r
  cases h
  rfl

theorem mapValues_mapValues : (r.mapValues f).mapValues g = r.mapValues fun k v => g k (f k v) := by
  refine ext_entries ?_
  simp only [mapValues, List.map_map]
  rfl

variable [DecidableEq κ]

/-- A key has its value replaced. -/
theorem find?_mapValues (k : κ) : (r.mapValues f).find? k = (r.find? k).map (f k) := by
  simp only [find?, mapValues]
  induction r.entries with
  | nil => rfl
  | cons e es ih =>
    rw [List.map_cons, List.lookup_cons, List.lookup_cons, ih]
    cases h : k == e.1 with
    | true => rw [eq_of_beq h]; rfl
    | false => rfl

/-- A register whose values are replaced by themselves is the same. -/
theorem mapValues_eq_self (h : ∀ k v, r.find? k = some v → f k v = v) : r.mapValues f = r := by
  have hsame : r.entries.map (fun e => (e.1, f e.1 e.2)) = r.entries.map id :=
    List.map_congr_left fun e he => congrArg (e.1, ·) (h e.1 e.2 ((find?_eq_some_iff r).mpr he))
  exact ext_entries (hsame.trans (List.map_id _))

/-- Giving a new value to a key that has one replaces this value. -/
theorem put_eq_mapValues (h : r.find? k = some w) (v : ν) :
    r.put k v = r.mapValues fun k' v' => if k' = k then v else v' := by
  have hknown : r.entries.lookup k ≠ none := by
    rw [← find?, h]
    exact Option.some_ne_none w
  refine ext_entries ?_
  simp only [put, dif_neg hknown, replaceValue, mapValues]
  refine List.map_congr_left fun e _ => ?_
  by_cases he : e.1 = k
  · rw [if_pos he, if_pos he, he]
  · rw [if_neg he, if_neg he]

end Register

/-! ## Books -/

namespace OrderBook

/-- The book in which the orders of a set are paid. An order that is not known does not come in. -/
def payAll (b : OrderBook) (paid : OrderReference → Bool) : OrderBook :=
  ⟨b.orders.mapValues fun order status => if paid order then .paid else status⟩

/-- Whether an order is known. -/
def isKnown (b : OrderBook) (order : OrderReference) : Bool := (b.status? order).isSome

variable {b : OrderBook} {paid paid' : OrderReference → Bool} {order : OrderReference}

/-- An order of the set is paid if it is known, and any other order keeps its status. -/
theorem status?_payAll (order : OrderReference) :
    (b.payAll paid).status? order = (b.status? order).map fun status => if paid order then .paid else status :=
  Register.find?_mapValues order

/-- No order becomes known, and none is forgotten. -/
theorem isKnown_payAll (order : OrderReference) : (b.payAll paid).isKnown order = b.isKnown order := by
  rw [isKnown, status?_payAll, Option.isSome_map, isKnown]

/-- Paying for two sets one after the other is paying for both. -/
theorem payAll_payAll : (b.payAll paid).payAll paid' = b.payAll fun order => paid order || paid' order := by
  simp only [payAll, Register.mapValues_mapValues]
  congr 2
  funext order status
  by_cases h : paid order = true <;> by_cases h' : paid' order = true <;> simp [h, h']

/-- Nothing changes if every known order of the set is paid already. -/
theorem payAll_eq_self (h : ∀ order, paid order = true → b.status? order ≠ some .created) : b.payAll paid = b := by
  refine congrArg OrderBook.mk (Register.mapValues_eq_self fun order status hstatus => ?_)
  cases hpaid : paid order with
  | false => rfl
  | true =>
    cases status with
    | created => exact absurd hstatus (h order hpaid)
    | paid => rfl

/-- Paying for no order changes nothing. -/
theorem payAll_none : b.payAll (fun _ => false) = b := payAll_eq_self fun _ h => absurd h Bool.false_ne_true

/-- Paying for one order changes nothing if it is not known or paid already. -/
theorem payAll_one (h : b.status? order = none ∨ b.status? order = some .paid) : b.payAll (· = order) = b := by
  refine payAll_eq_self fun other hother => ?_
  rw [of_decide_eq_true hother]
  rcases h with h | h <;> simp [h]

/-- An order is paid afterwards if it was paid before, or is known and in the set. -/
theorem isPaid_payAll (order : OrderReference) : (b.payAll paid).status? order = some .paid ↔
    b.status? order = some .paid ∨ b.isKnown order = true ∧ paid order = true := by
  rw [status?_payAll, isKnown]
  cases b.status? order with
  | none => exact ⟨nofun, fun h => h.elim nofun nofun⟩
  | some status => cases status <;> cases paid order <;> decide

/-- **Marking an order paid** is paying for the set of this order, and fails if the order is not known. -/
theorem markPaid_eq : b.markPaid order =
    match b.status? order with
    | some status => .ok (status = .created, b.payAll (· = order))
    | none => .error (.refused (.unknownOrder order.uuid)) := by
  unfold markPaid
  cases hstatus : b.status? order with
  | none => rfl
  | some status =>
    cases status with
    | created =>
      have hput : b.set order .paid = b.payAll (· = order) := by
        refine congrArg OrderBook.mk ((Register.put_eq_mapValues hstatus _).trans ?_)
        simp only [decide_eq_true_eq]
      rw [hput]
      rfl
    | paid =>
      rw [payAll_one (.inr hstatus)]
      rfl

end OrderBook

/-! ## One message -/

namespace Message

/-- A message announces a payment for an order. -/
def announces (m : Message) (order : OrderReference) : Bool :=
  m.event?.any fun call => call.2.order = order

/-- What becomes of a message that is handed to the order service, given the orders that are known. -/
def paymentResult (m : Message) (isKnown : OrderReference → Bool) : Dispatch :=
  match m.read with
  | .error why => .unusable why
  | .ok (_, e) => .handed (if isKnown e.order then .done else .failed (.refused (.unknownOrder e.order.uuid)))

variable {m : Message} {order : OrderReference}

/-- An order that is announced is that of an event which the message holds. -/
theorem announces_iff : m.announces order = true ↔ ∃ id e, m.Holds id e ∧ e.order = order := by
  simp only [announces, Option.any_eq_true, Prod.exists, event?_eq_some_iff, decide_eq_true_eq]

/-- The result is a failure exactly if the message holds an event whose order is not known. -/
theorem verdict_paymentResult_eq_failed_iff {isKnown : OrderReference → Bool} :
    (m.paymentResult isKnown).verdict? = some .failed ↔ ∃ id e, m.Holds id e ∧ isKnown e.order = false := by
  simp only [← read_eq_ok_iff]
  rw [paymentResult]
  cases m.read with
  | error why => cases why <;> simp [Dispatch.verdict?]
  | ok call =>
    obtain ⟨id, e⟩ := call
    simp only [Except.ok.injEq, Prod.mk.injEq, and_assoc, exists_and_left, exists_eq_left']
    cases isKnown e.order <;> simp [Dispatch.verdict?]

/-- Nothing but the octets of a message counts. -/
theorem announces_eq_of_octets {other : Message} (h : other.octets = m.octets) : other.announces = m.announces := by
  funext order
  simp only [announces, event?, read, h]

theorem paymentResult_eq_of_octets {other : Message} (h : other.octets = m.octets) :
    other.paymentResult = m.paymentResult := by
  funext isKnown
  simp only [paymentResult, read, h]

end Message

namespace Service

variable {m : Message} {messages : List Message} {s s' : System}

/-- **What the order service does with a payment**: it is paid in the book, and it fails if the book does not have the
order. -/
theorem payOrder_eq (s : System) (e : PaymentSucceeded) :
    (s.payOrder e).2.orders = s.orders.payAll (· = e.order) ∧
      (s.payOrder e).1 =
        if s.orders.isKnown e.order then .done else .failed (.refused (.unknownOrder e.order.uuid)) := by
  unfold System.payOrder
  rw [OrderBook.markPaid_eq, OrderBook.isKnown]
  cases hstatus : s.orders.status? e.order with
  | none => exact ⟨(OrderBook.payAll_one (.inl hstatus)).symm, rfl⟩
  | some status =>
    cases status with
    | created => exact ⟨rfl, rfl⟩
    | paid => exact ⟨(OrderBook.payAll_one (.inr hstatus)).symm, rfl⟩

/-- **The effect of a message**: the order that it announces a payment for is paid. -/
theorem orders_dispatch : (m.dispatch orders.handler s).2.orders = s.orders.payAll m.announces := by
  cases hread : m.read with
  | error why =>
    have hnone : m.announces = fun _ => false := by
      funext order
      rw [Message.announces, Message.event?, hread]
      rfl
    rw [hnone, OrderBook.payAll_none, Message.dispatch, hread]
  | ok call =>
    have hone : m.announces = fun order => decide (order = call.2.order) := by
      funext order
      rw [Message.announces, Message.event?, hread]
      exact decide_eq_decide.mpr eq_comm
    rw [hone, Message.dispatch, hread]
    exact (payOrder_eq s call.2).1

/-- **The result of a message** is told by which orders are known. -/
theorem result_dispatch : (m.dispatch orders.handler s).1 = m.paymentResult s.orders.isKnown := by
  rw [Message.dispatch, Message.paymentResult]
  cases m.read with
  | error why => rfl
  | ok call => exact congrArg Dispatch.handed (payOrder_eq s call.2).2

/-- No message makes an order known, and none makes one forgotten. -/
theorem isKnown_dispatch : (m.dispatch orders.handler s).2.orders.isKnown = s.orders.isKnown := by
  funext order
  rw [orders_dispatch, OrderBook.isKnown_payAll]

/-! ## Any number of messages -/

/-- **The effect of messages**: the orders that some of them announce a payment for are paid. -/
theorem orders_consume : (orders.handler.consume messages s).2.orders =
    s.orders.payAll fun order => messages.any (·.announces order) := by
  induction messages generalizing s with
  | nil => exact OrderBook.payAll_none.symm
  | cons m rest ih =>
    rw [Handler.consume_cons, ih, orders_dispatch, OrderBook.payAll_payAll]
    rfl

/-- **The results of messages** are those they would have had alone. -/
theorem results_consume : (orders.handler.consume messages s).1 =
    messages.map fun m => (m, m.paymentResult s.orders.isKnown) := by
  induction messages generalizing s with
  | nil => rfl
  | cons m rest ih => rw [Handler.consume_cons, ih, isKnown_dispatch, result_dispatch, List.map_cons]

/-- Two lists with the same octets announce payments for the same orders, however often and in whatever order. -/
theorem any_announces_eq_of_octets {others : List Message}
    (h : ∀ octets, octets ∈ others.map (·.octets) ↔ octets ∈ messages.map (·.octets)) (order : OrderReference) :
    others.any (·.announces order) = messages.any (·.announces order) := by
  have hsub {l l' : List Message} (hl : ∀ octets, octets ∈ l.map (·.octets) → octets ∈ l'.map (·.octets))
      (hany : l.any (·.announces order) = true) : l'.any (·.announces order) = true := by
    obtain ⟨m, hm, hannounces⟩ := List.any_eq_true.mp hany
    obtain ⟨m', hm', hoctets⟩ := List.mem_map.mp (hl m.octets (List.mem_map_of_mem hm))
    exact List.any_eq_true.mpr ⟨m', hm', Message.announces_eq_of_octets hoctets ▸ hannounces⟩
  exact Bool.eq_iff_iff.mpr ⟨hsub fun octets => (h octets).mp, hsub fun octets => (h octets).mpr⟩

end Service

/-! ## The law -/

/-- **Payments of orders commute, and may be repeated.** For every system, and all messages with whatever octets that
the order service takes one after the other:

* an order is paid afterwards exactly if it was before, or it was known and one of the messages holds a payment for it;
* at every point between, the orders that are known are those from the start, and those that are paid stay so;
* the result of each message is the one it would have had alone; it is decided by its octets and by which orders are
  known; and it is a failure exactly if the message holds a payment for an order that is not known;
* other messages with the same octets, whatever their order and number, leave the same book, and messages with the same
  octets have the same result in both. -/
theorem payments_commute (s : System) (messages : List Message) :
    let consume := Service.orders.handler.consume
    let after := (consume messages s).2
    (∀ order, after.orders.status? order = some .paid ↔ s.orders.status? order = some .paid ∨
      s.orders.isKnown order = true ∧ ∃ m ∈ messages, ∃ id e, m.Holds id e ∧ e.order = order) ∧
    (∀ before later, messages = before ++ later → ∀ order,
      (consume before s).2.orders.isKnown order = s.orders.isKnown order ∧
      ((consume before s).2.orders.status? order = some .paid → after.orders.status? order = some .paid)) ∧
    ((consume messages s).1 = messages.map (fun m => (m, (m.dispatch Service.orders.handler s).1)) ∧
      (∀ m m' : Message, ∀ s' : System, m'.octets = m.octets →
        (∀ order, s'.orders.isKnown order = s.orders.isKnown order) →
        (m'.dispatch Service.orders.handler s').1 = (m.dispatch Service.orders.handler s).1) ∧
      ∀ m : Message, (m.dispatch Service.orders.handler s).1.verdict? = some .failed ↔
        ∃ id e, m.Holds id e ∧ s.orders.status? e.order = none) ∧
    ∀ others : List Message, (∀ octets, octets ∈ others.map (·.octets) ↔ octets ∈ messages.map (·.octets)) →
      (consume others s).2.orders = after.orders ∧
      ∀ seen ∈ (consume messages s).1, ∀ seen' ∈ (consume others s).1,
        seen'.1.octets = seen.1.octets → seen'.2 = seen.2 := by
  intro consume after
  have hpaid (l : List Message) (order : OrderReference) : (consume l s).2.orders.status? order = some .paid ↔
      s.orders.status? order = some .paid ∨ s.orders.isKnown order = true ∧ l.any (·.announces order) = true := by
    rw [Service.orders_consume, OrderBook.isPaid_payAll]
  refine ⟨fun order => ?paid, ?between, ⟨?alone, ?decided, fun m => ?failed⟩, ?commute⟩
  case paid => simp only [after, hpaid, List.any_eq_true, Message.announces_iff]
  case between =>
    rintro before later rfl order
    refine ⟨by rw [Service.orders_consume, OrderBook.isKnown_payAll], fun h => (hpaid _ _).mpr ?_⟩
    exact ((hpaid _ _).mp h).imp_right fun ⟨hknown, hany⟩ => ⟨hknown, by rw [List.any_append, hany, Bool.true_or]⟩
  case alone => simp only [consume, Service.results_consume, Service.result_dispatch]
  case decided =>
    intro m m' s' hoctets hknown
    rw [Service.result_dispatch, Service.result_dispatch, Message.paymentResult_eq_of_octets hoctets, funext hknown]
  case failed =>
    rw [Service.result_dispatch, Message.verdict_paymentResult_eq_failed_iff]
    simp only [OrderBook.isKnown, Option.isSome_eq_false_iff, Option.isNone_iff_eq_none]
  case commute =>
    refine fun others hoctets => ⟨?_, fun seen hseen seen' hseen' heq => ?_⟩
    · simp only [consume, after, Service.orders_consume]
      exact congrArg s.orders.payAll (funext (Service.any_announces_eq_of_octets hoctets))
    · rw [Service.results_consume] at hseen hseen'
      obtain ⟨m, -, rfl⟩ := List.mem_map.mp hseen
      obtain ⟨m', -, rfl⟩ := List.mem_map.mp hseen'
      exact congrFun (Message.paymentResult_eq_of_octets heq) _

/-- The event of a payment of one cent by the user 7. -/
def oneCentFor (order : OrderReference) : PaymentSucceeded := { extremeEvent with order, user := ⟨7⟩ }

/-- What is published for it. -/
def oneCentMessage (order : OrderReference) : Message :=
  .ofRecord (.ofEvent "payments" (.record (oneCentFor order) (.ofNat 12) ⟨0, 0⟩))

theorem oneCentMessage_holds (order : OrderReference) :
    (oneCentMessage order).Holds (.ofNat 12) (oneCentFor order) := by
  have hfits : Text.FitsInt64 (oneCentFor order).user.value := (by decide : Text.FitsInt64 7)
  exact Message.read_eq_ok_iff.mp (Message.read_ofEvent (p := oneCentFor order) rfl rfl hfits _)

/-- A system whose book has the first order only. -/
def oneOrder : System :=
  { System.fresh ⟨0, 0⟩ ⟨0, 0⟩ ⟨0, 0⟩ ⟨0, 0⟩ with orders := OrderBook.empty.insert ⟨.ofNat 1⟩ }

/-- Payments for the first and the second order, and messages without an event. -/
def mixedMessages : List Message := oneCentMessage ⟨.ofNat 1⟩ :: oneCentMessage ⟨.ofNat 2⟩ :: badMessages

/-- The same in another order, and one twice. -/
def repeatedMessages : List Message :=
  badMessages ++ [oneCentMessage ⟨.ofNat 2⟩, oneCentMessage ⟨.ofNat 1⟩, oneCentMessage ⟨.ofNat 2⟩]

/-- The first order is paid, the payment for the second fails each time, and nothing else is to be seen. -/
theorem payments_commute_of_mixed :
    (Service.orders.handler.consume repeatedMessages oneOrder).2.orders =
      (Service.orders.handler.consume mixedMessages oneOrder).2.orders ∧
    (Service.orders.handler.consume mixedMessages oneOrder).2.orders.status? ⟨.ofNat 1⟩ = some .paid ∧
    ((oneCentMessage ⟨.ofNat 2⟩).dispatch Service.orders.handler oneOrder).1.verdict? = some .failed := by
  obtain ⟨hpaid, -, ⟨-, -, hfailed⟩, hcommute⟩ := payments_commute oneOrder mixedMessages
  have hoctets : ∀ octets, octets ∈ repeatedMessages.map (·.octets) ↔ octets ∈ mixedMessages.map (·.octets) := by
    intro octets
    simp only [repeatedMessages, mixedMessages, List.map_append, List.map_cons, List.map_nil, List.mem_append,
      List.mem_cons, List.not_mem_nil]
    grind
  have hknown : oneOrder.orders.isKnown ⟨.ofNat 1⟩ = true := by decide
  have hunknown : oneOrder.orders.status? ⟨.ofNat 2⟩ = none := by decide
  exact ⟨(hcommute _ hoctets).1,
    (hpaid _).mpr (.inr ⟨hknown, _, List.mem_cons_self, _, _, oneCentMessage_holds _, rfl⟩),
    (hfailed _).mpr ⟨_, _, oneCentMessage_holds _, hunknown⟩⟩

end PaymentRelay
