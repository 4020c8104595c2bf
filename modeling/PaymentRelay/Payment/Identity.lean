import PaymentRelay.Payment.Error
import PaymentRelay.Json.Record
import PaymentRelay.Text.Blank

/-!
# Orders, users and idempotency keys

Three kinds of name, each a plain value with a constructor that checks it. The check is not part of
the type: an order reference, a user id or a key that comes out of JSON is taken as it stands there,
so the nil order, a user below one and a key with blanks around it are values that occur.

An idempotency key is kept without the blanks around it, and everything that compares keys compares
that text.
-/

namespace PaymentRelay

/-- The order a payment is for. -/
structure OrderReference where
  uuid : Uuid
deriving DecidableEq, Repr

namespace OrderReference

/-- The order of a uuid; the nil uuid is no order. -/
def ofUuid (u : Uuid) : Except PaymentError OrderReference :=
  if u = Uuid.nil then .error (.refused .nilOrderReference) else .ok ⟨u⟩

/-- The order a text names. -/
def ofString (s : String) : Except PaymentError OrderReference :=
  match Uuid.ofString? s with
  | some u => ofUuid u
  | none => .error (.refused (.orderReferenceUnreadable s))

/-- The text of an order reference. -/
def text (o : OrderReference) : String := o.uuid.text

/-- An order reference in JSON. -/
def toJson (o : OrderReference) : Json := .text o.text

/-- The order reference a JSON string holds. It is not checked further. -/
def accept (h : Json.Head) : Except Json.Problem OrderReference :=
  (Json.acceptUuid h).map OrderReference.mk

end OrderReference

/-- The user who pays. -/
structure UserId where
  value : Int
deriving DecidableEq, Repr

namespace UserId

/-- The user of a number, which has to be positive. -/
def ofInt (i : Int) : Except PaymentError UserId :=
  if i ≤ 0 then .error (.refused (.userIdNotPositive i)) else .ok ⟨i⟩

/-- The text of a user id. -/
def text (u : UserId) : String := String.ofList (Text.integer u.value)

/-- A user id in JSON. -/
def toJson (u : UserId) : Json := .number (.integer u.value)

/-- The user id a JSON integer of 64 bits holds. It is not checked further. -/
def accept (h : Json.Head) : Except Json.Problem UserId :=
  (Json.acceptInt64 h).map UserId.mk

end UserId

/-- The token under which a client may repeat a payment request. -/
structure IdempotencyKey where
  text : String
deriving DecidableEq, Repr

namespace IdempotencyKey

/-- The octets a key has at most. -/
def maxOctets : Nat := 255

/-- The key of a text, without the blanks around it. Something has to be left, and not too much. -/
def ofString (s : String) : Except PaymentError IdempotencyKey :=
  let key := Text.trim s
  if key = "" then .error (.refused .keyEmpty)
  else if maxOctets < key.utf8ByteSize then .error (.refused .keyTooLong)
  else .ok ⟨key⟩

/-- The name of a key in a key store on a server, which other programs share. -/
def storageName (k : IdempotencyKey) : String :=
  "IDEMP_KEY:" ++ k.text

/-- A key in JSON. -/
def toJson (k : IdempotencyKey) : Json := .text k.text

/-- The key a JSON string holds, blanks and all. -/
def accept (h : Json.Head) : Except Json.Problem IdempotencyKey :=
  (Json.acceptText h).map IdempotencyKey.mk

end IdempotencyKey

end PaymentRelay
