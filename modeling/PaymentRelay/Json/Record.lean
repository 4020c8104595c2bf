import PaymentRelay.Binary64.Shortest
import PaymentRelay.Json.Reader
import PaymentRelay.Decimal.Numeral
import PaymentRelay.Uuid

/-!
# Records in JSON

A record type is described by its fields (`Schema`), and the description reads it in two ways: from
a text, where the order of what is written decides which problem comes first, and from a value that
has been read already. Both follow the same rules.

* An object gives the fields by name, in any order. Unknown members are passed over, a known one may
  not be repeated, and none may be missing.
* An array gives the fields by position, exactly as many as there are.
* From a text, an unknown member is skipped and not read; a repeated one is a problem at its name.

While it is read a record is a *draft*, whose fields are filled one after the other.
-/

namespace PaymentRelay.Json

/-- A field of a record with drafts `ρ`. -/
structure Field (ρ : Type) where
  /-- The name of the member that holds the field. -/
  name : String
  /-- Whether a draft has the field already. -/
  isFilled : ρ → Bool
  /-- Reads the field from a text, with room for so many brackets. -/
  read : Nat → Reader (ρ → ρ)
  /-- Takes the field from a value. -/
  ofValue : Json → Except Problem (ρ → ρ)

/-- A record type `α` with drafts `ρ`. -/
structure Schema (ρ α : Type) where
  /-- The draft that has no field yet. -/
  blank : ρ
  /-- The fields, in the order of an array. -/
  fields : List (Field ρ)
  /-- The record, once every field is there. -/
  complete? : ρ → Option α

/-! ## Fields -/

/-- A field that is known by the head of its value. -/
def Field.ofHead (name : String) (get : ρ → Option α) (put : α → ρ → ρ)
    (accept : Head → Except Problem α) : Field ρ where
  name := name
  isFilled := fun draft => (get draft).isSome
  read := fun _ s => do
    let (h, rest) ← readHead s
    return (put (← accept h), rest)
  ofValue := fun v => (accept v.head).map put

/-- A field that may hold any value. -/
def Field.untyped (name : String) (get : ρ → Option Json) (put : Json → ρ → ρ) : Field ρ where
  name := name
  isFilled := fun draft => (get draft).isSome
  read := fun room s => (readValue (fuelFor s) room s).map fun (v, rest) => (put v, rest)
  ofValue := fun v => .ok (put v)

/-- A scalar reader: the head of a value, taken off the front of a text. -/
def readScalar (accept : Head → Except Problem α) : Reader α := fun s => do
  let (h, rest) ← readHead s
  return (← accept h, rest)

/-! ## From a text -/

/-- The fields that follow in an array, and its end. -/
def readElements (room : Nat) : List (Field ρ) → Bool → ρ → Reader ρ
  | [], _, draft, s => do
    let rest ← expect ']' s
    return (draft, rest)
  | field :: fields, first, draft, s =>
    match expect ']' s with
    | .ok _ => .error .mismatch
    | .error _ => do
      let rest ← if first then .ok s else expect ',' s
      let (put, rest) ← field.read room rest
      readElements room fields false (put draft) rest

/-- The members of an object from one that has to be there, and its end. -/
def readNamed (room : Nat) (fields : List (Field ρ)) : Nat → ρ → Reader ρ
  | 0, _, _ => .error .malformed
  | fuel + 1, draft, s => do
    let rest ← expect '"' s
    let (key, rest) ← readString rest
    let (draft, rest) ← match fields.find? (·.name == key) with
      | none => do
        let rest ← expect ':' rest
        pure (draft, ← skipValue rest)
      | some field =>
        if field.isFilled draft then .error .mismatch
        else do
          let rest ← expect ':' rest
          let (put, rest) ← field.read room rest
          pure (put draft, rest)
    match expect ',' rest with
    | .ok rest => readNamed room fields fuel draft rest
    | .error _ => do
      let rest ← expect '\x7d' rest
      return (draft, rest)

/-- The record of a draft, which has to have all its fields. -/
def Schema.close (schema : Schema ρ α) (draft : ρ) : Except Problem α :=
  match schema.complete? draft with
  | some a => .ok a
  | none => .error .mismatch

/-- A record at the front of a text, with room for so many brackets, of which it takes one. -/
def Schema.read (schema : Schema ρ α) (room : Nat) : Reader α := fun s => do
  let (h, rest) ← readHead s
  match h with
  | .array => do
    let (draft, rest) ← readElements (room - 1) schema.fields true schema.blank rest
    return (← schema.close draft, rest)
  | .object =>
    match expect '\x7d' rest with
    | .ok rest => do return (← schema.close schema.blank, rest)
    | .error _ => do
      let (draft, rest) ← readNamed (room - 1) schema.fields (fuelFor s) schema.blank rest
      return (← schema.close draft, rest)
  | _ => .error .mismatch

/-- The record a whole text holds. -/
def Schema.ofOctets (schema : Schema ρ α) (s : Octets) : Except Problem α :=
  finish (schema.read maxDepth) s

/-! ## From a value -/

/-- Fills the fields from the items of an array. -/
def fillElements : List (Field ρ) → List Json → ρ → Except Problem ρ
  | [], [], draft => .ok draft
  | field :: fields, v :: vs, draft => do
    let put ← field.ofValue v
    fillElements fields vs (put draft)
  | _, _, _ => .error .mismatch

/-- Fills the fields from the members of an object. -/
def fillNamed (fields : List (Field ρ)) : Members → ρ → Except Problem ρ
  | [], draft => .ok draft
  | (key, v) :: rest, draft =>
    match fields.find? (·.name == key) with
    | none => fillNamed fields rest draft
    | some field =>
      if field.isFilled draft then .error .mismatch
      else do
        let put ← field.ofValue v
        fillNamed fields rest (put draft)

/-- The record a value holds. -/
def Schema.ofValue (schema : Schema ρ α) : Json → Except Problem α
  | .array items => do schema.close (← fillElements schema.fields items schema.blank)
  | .object members => do schema.close (← fillNamed schema.fields members schema.blank)
  | _ => .error .mismatch

/-- A field that holds a record of its own. -/
def Field.nested (name : String) (get : ρ → Option α) (put : α → ρ → ρ)
    (schema : Schema σ α) : Field ρ where
  name := name
  isFilled := fun draft => (get draft).isSome
  read := fun room s => (schema.read room s).map fun (a, rest) => (put a, rest)
  ofValue := fun v => (schema.ofValue v).map put

/-! ## What common fields accept -/

/-- A string. -/
def acceptText : Head → Except Problem String
  | .text s => .ok s
  | _ => .error .mismatch

/-- A string with the text of a uuid. -/
def acceptUuid : Head → Except Problem Uuid
  | .text s => match Uuid.ofString? s with
    | some u => .ok u
    | none => .error .mismatch
  | _ => .error .mismatch

/-- An integer of 64 bits with a sign. -/
def acceptInt64 : Head → Except Problem Int
  | .number (.integer i) => if Text.FitsInt64 i then .ok i else .error .mismatch
  | _ => .error .mismatch

/-- The decimal a number stands for. An integer is taken as it is; a double is taken at its shortest
digits, which are those of the text unless the text has more than a double holds. Of two decimals
that are equally near the larger is taken, which need not be the one in the text. -/
def Number.toDecimal? : Number → Option Decimal
  | .integer i => Decimal.make? (i < 0) i.natAbs 0
  | .double x => Decimal.plain? x.plainChars

/-- A number, or a string with a decimal numeral. -/
def acceptDecimal (h : Head) : Except Problem Decimal :=
  let d := match h with
    | .text s => Decimal.ofString? s
    | .number n => n.toDecimal?
    | _ => none
  match d with
  | some d => .ok d
  | none => .error .mismatch

end PaymentRelay.Json
