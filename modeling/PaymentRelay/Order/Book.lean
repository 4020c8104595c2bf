import PaymentRelay.Payment.Identity
import PaymentRelay.Register

/-!
# Orders

The order service keeps a status for every order it knows. An order is created unpaid and can be
paid once; being told again that it is paid changes nothing. An order the book does not know cannot
be paid.
-/

namespace PaymentRelay

/-- The status of an order. -/
inductive OrderStatus where
  | created
  | paid
deriving DecidableEq, Repr

namespace OrderStatus

/-- The name of a status. -/
def text : OrderStatus → String
  | created => "created"
  | paid => "paid"

/-- The status a name stands for. -/
def ofString (s : String) : Except PaymentError OrderStatus :=
  if s = "created" then .ok created
  else if s = "paid" then .ok paid
  else .error (.refused (.unknownOrderStatus s))

/-- A status is read back from its name, and no other text names one. -/
theorem ofString_eq_ok_iff (s : String) (status : OrderStatus) :
    ofString s = .ok status ↔ s = status.text := by
  unfold ofString
  cases status <;> by_cases h : s = "created" <;> by_cases h' : s = "paid" <;>
    simp_all [text]

end OrderStatus

/-- The status of every known order. -/
structure OrderBook where
  orders : Register OrderReference OrderStatus
deriving DecidableEq, Repr

namespace OrderBook

/-- The book that knows no order. -/
def empty : OrderBook := ⟨.empty⟩

/-- The status of an order, if it is known. -/
def status? (b : OrderBook) (order : OrderReference) : Option OrderStatus :=
  b.orders.find? order

/-- Gives an order a status. -/
def set (b : OrderBook) (order : OrderReference) (status : OrderStatus) : OrderBook :=
  ⟨b.orders.put order status⟩

/-- Enters an order as created, whatever its status was. -/
def insert (b : OrderBook) (order : OrderReference) : OrderBook :=
  b.set order .created

/-- Marks an order paid. The answer says whether it was not paid before. -/
def markPaid (b : OrderBook) (order : OrderReference) : Except PaymentError (Bool × OrderBook) :=
  match b.status? order with
  | some .paid => .ok (false, b)
  | some .created => .ok (true, b.set order .paid)
  | none => .error (.refused (.unknownOrder order.uuid))

/-- An order has the status it was given last. -/
theorem status?_set (b : OrderBook) (order : OrderReference) (status : OrderStatus)
    (other : OrderReference) :
    (b.set order status).status? other = if other = order then some status else b.status? other :=
  Register.find?_put ..

/-- An order that was marked paid is paid, and nothing else changes. -/
theorem status?_markPaid {b after : OrderBook} {order : OrderReference} {isNew : Bool}
    (h : b.markPaid order = .ok (isNew, after)) (other : OrderReference) :
    after.status? other = if other = order then some .paid else b.status? other := by
  unfold markPaid at h
  split at h
  next hs =>
    obtain ⟨-, rfl⟩ := Prod.mk.injEq .. ▸ Except.ok.inj h
    by_cases ho : other = order
    · rw [if_pos ho, ho, hs]
    · rw [if_neg ho]
  next =>
    obtain ⟨-, rfl⟩ := Prod.mk.injEq .. ▸ Except.ok.inj h
    exact status?_set ..
  next => cases h

end OrderBook

end PaymentRelay
