import PaymentRelay.Binary64.Basic

/-!
# JSON values

A value as a text holds it, with two decisions about what is kept.

* **Numbers** are integers of 64 bits, signed or unsigned, kept exactly, or doubles. Which of the
  two a number is depends on its text and not on its value: `1.0` and `1e2` are doubles.
* **Objects** are lists of members in writing order. An object that was read has its members in
  ascending order of their keys, one for each key; `Members.insert` keeps it so.
-/

namespace PaymentRelay

namespace Json

/-- A JSON number. -/
inductive Number where
  /-- An integer of the range -2^63 to 2^64 - 1. -/
  | integer (value : Int)
  /-- Any other number, rounded. -/
  | double (value : Binary64)
deriving DecidableEq, Repr

end Json

/-- A JSON value. -/
inductive Json where
  | null
  | boolean (value : Bool)
  | number (value : Json.Number)
  | text (value : String)
  | array (items : List Json)
  | object (members : List (String × Json))
deriving Repr, Inhabited

namespace Json

/-- The members of an object. -/
abbrev Members := List (String × Json)

/-- Adds a member in the order of the keys. A member with the same key is replaced. -/
def Members.insert (key : String) (value : Json) : Members → Members
  | [] => [(key, value)]
  | (k, v) :: rest =>
    match compare key k with
    | .lt => (key, value) :: (k, v) :: rest
    | .eq => (key, value) :: rest
    | .gt => (k, v) :: Members.insert key value rest

/-- The value of a key. -/
def Members.find? (key : String) (members : Members) : Option Json :=
  List.lookup key members

end Json

end PaymentRelay
