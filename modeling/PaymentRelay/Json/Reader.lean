import PaymentRelay.Json.Value
import PaymentRelay.Width

/-!
# Reading JSON

A reader takes a value off the front of a row of octets and says what is left. A text is read from
left to right and **the first problem decides**, so a text with two faults has one verdict. A problem
is one of three: the text is not JSON, a value is JSON of the wrong kind, or a field refuses a value
that has the right kind.

What is read strictly and what is not:

* A string that is used has to be UTF-8, and its escapes have to denote characters. A string that is
  skipped only has to end, and its escapes only have to have their form.
* A number that is used has to lie in the range of a double. A number that is skipped need not.
* A value that is used nests `maxDepth` brackets at most, counted from the start of the text. A value
  that is skipped nests as deep as it likes, for which `skipValue` keeps its open brackets in a list.
* An object whose first key is `documentKey` stands for the document that its only member holds as a
  string. That document is read by itself, so its brackets are counted from its own start. The key
  means nothing where another key is in front of it, so not every object that is written reads back.

Every recursion runs on fuel computed from the length of the text; a step takes an octet at least,
so the fuel outlasts the text.
-/

namespace PaymentRelay.Json

/-- Why a text is not read. -/
inductive Problem where
  /-- The text is not JSON, or holds a number or a string that no value is. -/
  | malformed
  /-- The text is JSON, but not of the kind that is wanted. -/
  | mismatch
  /-- A value of the right kind is refused, for the reason given. -/
  | refused (reason : String)
deriving DecidableEq, Repr

/-- The octets of a text. -/
abbrev Octets := List UInt8

/-- A reader of values: the value and the octets behind it. -/
abbrev Reader (α : Type) := Octets → Except Problem (α × Octets)

/-- The octet of an ASCII character. -/
def octet (c : Char) : UInt8 := c.toNat.toUInt8

/-- The brackets deep that a value nests at most. -/
def maxDepth : Nat := 127

/-- The first key of an object that holds a document as a string. -/
def documentKey : String := "$serde_json::private::RawValue"

/-! ## Blanks, words and digits -/

/-- Space, tab, line feed and carriage return. -/
def isBlank (b : UInt8) : Bool :=
  b == octet ' ' || b == octet '\t' || b == octet '\n' || b == octet '\r'

/-- The octets from the first that is not blank. -/
def skipBlanks (s : Octets) : Octets :=
  s.dropWhile isBlank

/-- The octets behind an expected one, with blanks in front of it passed over. -/
def expect (c : Char) (s : Octets) : Except Problem Octets :=
  match skipBlanks s with
  | b :: rest => if b == octet c then .ok rest else .error .malformed
  | [] => .error .malformed

/-- The octets behind a word. -/
def expectWord : List Char → Octets → Except Problem Octets
  | [], s => .ok s
  | c :: cs, b :: s => if b == octet c then expectWord cs s else .error .malformed
  | _ :: _, [] => .error .malformed

/-- A digit. -/
def isDigit (b : UInt8) : Bool :=
  octet '0' ≤ b && b ≤ octet '9'

/-- The value of a digit. -/
def digitValue (b : UInt8) : Nat :=
  b.toNat - '0'.toNat

/-- The number a row of digits denotes. -/
def digitsValue (ds : Octets) : Nat :=
  ds.foldl (fun n d => n * 10 + digitValue d) 0

/-- The value of a hexadecimal digit. -/
def hexValue? (b : UInt8) : Option Nat :=
  if isDigit b then some (digitValue b)
  else if octet 'a' ≤ b && b ≤ octet 'f' then some (b.toNat - 'a'.toNat + 10)
  else if octet 'A' ≤ b && b ≤ octet 'F' then some (b.toNat - 'A'.toNat + 10)
  else none

/-- The number four hexadecimal digits denote. -/
def hexFour? (a b c d : UInt8) : Option Nat := do
  let a ← hexValue? a
  let b ← hexValue? b
  let c ← hexValue? c
  let d ← hexValue? d
  return ((a * 16 + b) * 16 + c) * 16 + d

/-! ## Strings -/

/-- The character of an escape of one letter. -/
def shortEscape? (b : UInt8) : Option Char :=
  if b == octet '"' then some '"'
  else if b == octet '\\' then some '\\'
  else if b == octet '/' then some '/'
  else if b == octet 'b' then some '\x08'
  else if b == octet 'f' then some '\x0c'
  else if b == octet 'n' then some '\n'
  else if b == octet 'r' then some '\r'
  else if b == octet 't' then some '\t'
  else none

/-- The first half of a pair of escapes that denote one character together. -/
def isHighSurrogate (n : Nat) : Bool := 0xD800 ≤ n && n ≤ 0xDBFF

/-- The second half of such a pair. -/
def isLowSurrogate (n : Nat) : Bool := 0xDC00 ≤ n && n ≤ 0xDFFF

/-- The character that two halves denote. -/
def ofSurrogates (high low : Nat) : Char :=
  Char.ofNat (0x10000 + (high - 0xD800) * 0x400 + (low - 0xDC00))

/-- The octets of a string up to its closing quote, with its escapes replaced. `acc` holds what has
been read, last octet first. -/
def stringOctets (acc : Octets) : Octets → Except Problem (Octets × Octets)
  | [] => .error .malformed
  | b :: rest =>
    if b == octet '"' then .ok (acc.reverse, rest)
    else if b == octet '\\' then
      match rest with
      | [] => .error .malformed
      | e :: rest =>
        match shortEscape? e with
        | some c => stringOctets (octet c :: acc) rest
        | none =>
          if e != octet 'u' then .error .malformed
          else match rest with
            | h1 :: h2 :: h3 :: h4 :: rest =>
              match hexFour? h1 h2 h3 h4 with
              | none => .error .malformed
              | some n =>
                if isLowSurrogate n then .error .malformed
                else if isHighSurrogate n then
                  match rest with
                  | s :: u :: l1 :: l2 :: l3 :: l4 :: rest =>
                    if s == octet '\\' && u == octet 'u' then
                      match hexFour? l1 l2 l3 l4 with
                      | none => .error .malformed
                      | some m =>
                        if isLowSurrogate m then
                          stringOctets
                            ((String.utf8EncodeChar (ofSurrogates n m)).reverse ++ acc) rest
                        else .error .malformed
                    else .error .malformed
                  | _ => .error .malformed
                else stringOctets ((String.utf8EncodeChar (Char.ofNat n)).reverse ++ acc) rest
            | _ => .error .malformed
    else if b < 0x20 then .error .malformed
    else stringOctets (b :: acc) rest

/-- A string behind its opening quote. -/
def readString : Reader String := fun s => do
  let (octets, rest) ← stringOctets [] s
  match String.fromUTF8? octets.toByteArray with
  | some t => .ok (t, rest)
  | none => .error .malformed

/-- The octets behind a string that is not used. -/
def skipString : Octets → Except Problem Octets
  | [] => .error .malformed
  | b :: rest =>
    if b == octet '"' then .ok rest
    else if b == octet '\\' then
      match rest with
      | [] => .error .malformed
      | e :: rest =>
        if (shortEscape? e).isSome then skipString rest
        else if e != octet 'u' then .error .malformed
        else match rest with
          | h1 :: h2 :: h3 :: h4 :: rest =>
            if (hexFour? h1 h2 h3 h4).isSome then skipString rest else .error .malformed
          | _ => .error .malformed
    else if b < 0x20 then .error .malformed
    else skipString rest

/-! ## Numbers -/

/-- The parts of a number as they are written. -/
structure NumberText where
  negative : Bool
  whole : Octets
  fraction : Option Octets
  exponent : Option Int

/-- The digits at the front of a text, of which there has to be one. -/
def takeDigits (s : Octets) : Except Problem (Octets × Octets) :=
  match s.takeWhile isDigit with
  | [] => .error .malformed
  | ds => .ok (ds, s.dropWhile isDigit)

/-- The fraction of a number, if it has one. -/
def takeFraction (s : Octets) : Except Problem (Option Octets × Octets) :=
  match s with
  | b :: rest =>
    if b == octet '.' then (takeDigits rest).map fun (ds, rest) => (some ds, rest)
    else .ok (none, s)
  | [] => .ok (none, s)

/-- The exponent of a number, if it has one. -/
def takeExponent (s : Octets) : Except Problem (Option Int × Octets) :=
  match s with
  | b :: rest =>
    if b == octet 'e' || b == octet 'E' then
      match rest with
      | sign :: digits =>
        if sign == octet '-' then
          (takeDigits digits).map fun (ds, rest) => (some (-(digitsValue ds : Int)), rest)
        else if sign == octet '+' then
          (takeDigits digits).map fun (ds, rest) => (some (digitsValue ds : Int), rest)
        else (takeDigits rest).map fun (ds, rest) => (some (digitsValue ds : Int), rest)
      | [] => .error .malformed
    else .ok (none, s)
  | [] => .ok (none, s)

/-- The parts of the number at the front of a text. A zero is the only whole part that begins with
a zero. -/
def takeNumber (s : Octets) : Except Problem (NumberText × Octets) := do
  let (negative, s) := match s with
    | b :: rest => if b == octet '-' then (true, rest) else (false, s)
    | [] => (false, s)
  let (whole, s) ← takeDigits s
  if whole.head? = some (octet '0') ∧ whole.length ≠ 1 then .error .malformed
  let (fraction, s) ← takeFraction s
  let (exponent, s) ← takeExponent s
  return (⟨negative, whole, fraction, exponent⟩, s)

/-- Appends digits to a number for as long as the result fits 64 bits. The second part counts the
digits that were appended. -/
def appendDigits (n : Nat) (count : Nat) : Octets → Nat × Nat
  | [] => (n, count)
  | d :: ds =>
    if n * 10 + digitValue d < Width.bits64 then appendDigits (n * 10 + digitValue d) (count + 1) ds
    else (n, count)

/-- The double of a number: as many digits of each part as 64 bits hold, and a power of ten for
where they stand. -/
def NumberText.double? (t : NumberText) : Option Binary64 :=
  let (n, wholeCount) := appendDigits 0 0 t.whole
  let (n, fractionCount) := appendDigits n 0 (t.fraction.getD [])
  let exponent : Int := (t.whole.length - wholeCount : Nat) - fractionCount + t.exponent.getD 0
  Binary64.ofScientific? t.negative n exponent

/-- The integer of a number that is written as one, has 64 bits, and is not the zero with a sign. -/
def NumberText.integer? (t : NumberText) : Option Int :=
  if t.fraction.isSome || t.exponent.isSome then none
  else
    let n := digitsValue t.whole
    if t.negative then if n ≠ 0 ∧ n ≤ Width.signed64 then some (-(n : Int)) else none
    else if n < Width.bits64 then some (n : Int) else none

/-- The value of a number. -/
def NumberText.value (t : NumberText) : Except Problem Number :=
  match t.integer? with
  | some i => .ok (.integer i)
  | none => match t.double? with
    | some x => .ok (.double x)
    | none => .error .malformed

/-! ## Heads

Typed readers look at the head of a value only: a scalar in full, or the bracket that opens an array
or an object. The same heads come from a value that has been read already, so a type has one rule for
both. -/

/-- What a value begins with. -/
inductive Head where
  | null
  | boolean (value : Bool)
  | number (value : Number)
  | text (value : String)
  | array
  | object
deriving DecidableEq, Repr

/-- The head of a value. -/
def head : Json → Head
  | .null => .null
  | .boolean b => .boolean b
  | .number n => .number n
  | .text s => .text s
  | .array _ => .array
  | .object _ => .object

/-- The head at the front of a text, with a scalar or an opening bracket taken off. -/
def readHead : Reader Head := fun s =>
  match skipBlanks s with
  | [] => .error .malformed
  | b :: rest =>
    if b == octet 'n' then (expectWord "ull".toList rest).map ((.null, ·))
    else if b == octet 't' then (expectWord "rue".toList rest).map ((.boolean true, ·))
    else if b == octet 'f' then (expectWord "alse".toList rest).map ((.boolean false, ·))
    else if b == octet '"' then (readString rest).map fun (t, rest) => (.text t, rest)
    else if b == octet '[' then .ok (.array, rest)
    else if b == octet '\x7b' then .ok (.object, rest)
    else if b == octet '-' || isDigit b then do
      let (t, rest) ← takeNumber (b :: rest)
      return (.number (← t.value), rest)
    else .error .malformed

/-! ## Values -/

/-- The octets of a text. -/
def octetsOf (s : String) : Octets := s.toUTF8.data.toList

/-- Ends a text: behind its value only blanks may follow. -/
def finish (read : Reader α) (s : Octets) : Except Problem α := do
  let (a, rest) ← read s
  if skipBlanks rest = [] then return a else .error .malformed

mutual

/-- A value with room for `room` more brackets. -/
def readValue : Nat → Nat → Reader Json
  | 0, _, _ => .error .malformed
  | fuel + 1, room, s => do
    let (head, rest) ← readHead s
    match head with
    | .null => .ok (.null, rest)
    | .boolean b => .ok (.boolean b, rest)
    | .number n => .ok (.number n, rest)
    | .text t => .ok (.text t, rest)
    | .array =>
      if room = 0 then .error .malformed
      else match expect ']' rest with
        | .ok rest => .ok (.array [], rest)
        | .error _ => readItems fuel (room - 1) [] rest
    | .object =>
      if room = 0 then .error .malformed
      else match expect '\x7d' rest with
        | .ok rest => .ok (.object [], rest)
        | .error _ => readMembers fuel (room - 1) [] rest

/-- The items of an array from one that has to be there. `acc` holds those before it, last first. -/
def readItems : Nat → Nat → List Json → Reader Json
  | 0, _, _, _ => .error .malformed
  | fuel + 1, room, acc, s => do
    let (v, rest) ← readValue fuel room s
    match expect ',' rest with
    | .ok rest => readItems fuel room (v :: acc) rest
    | .error _ => do
      let rest ← expect ']' rest
      return (.array (v :: acc).reverse, rest)

/-- The members of an object from one that has to be there, added to those before it. -/
def readMembers : Nat → Nat → Members → Reader Json
  | 0, _, _, _ => .error .malformed
  | fuel + 1, room, acc, s => do
    let rest ← expect '"' s
    let (key, rest) ← readString rest
    let rest ← expect ':' rest
    if acc.isEmpty && key == documentKey then readDocument fuel rest
    else
      let (v, rest) ← readValue fuel room rest
      match expect ',' rest with
      | .ok rest => readMembers fuel room (acc.insert key v) rest
      | .error _ => do
        let rest ← expect '\x7d' rest
        return (.object (acc.insert key v), rest)

/-- The document that the only member of an object holds as a string. Whatever is wrong with the
document, it is the string that is of the wrong kind. -/
def readDocument : Nat → Reader Json
  | 0, _ => .error .malformed
  | fuel + 1, s => do
    let (head, rest) ← readHead s
    match head with
    | .text t => match finish (readValue fuel maxDepth) (octetsOf t) with
      | .ok v => do
        let rest ← expect '\x7d' rest
        return (v, rest)
      | .error _ => .error .mismatch
    | _ => .error .mismatch

end

/-- Fuel for reading a text: two steps for every octet outlast it. -/
def fuelFor (s : Octets) : Nat := 2 * s.length + 2

/-- The value of a whole text. -/
def ofOctets (s : Octets) : Except Problem Json :=
  finish (readValue (fuelFor s) maxDepth) s

/-- The value a text holds. -/
def ofString (s : String) : Except Problem Json :=
  ofOctets (octetsOf s)

/-! ## Values that are skipped -/

/-- The octets behind a scalar that is not used. -/
def skipScalar (b : UInt8) (rest : Octets) : Except Problem Octets :=
  if b == octet 'n' then expectWord "ull".toList rest
  else if b == octet 't' then expectWord "rue".toList rest
  else if b == octet 'f' then expectWord "alse".toList rest
  else if b == octet '"' then skipString rest
  else if b == octet '-' || isDigit b then (takeNumber (b :: rest)).map (·.2)
  else .error .malformed

/-- The octets behind a key that is not used and its colon. -/
def skipKey (s : Octets) : Except Problem Octets := do
  expect ':' (← skipString (← expect '"' s))

/-- An open bracket. -/
inductive Bracket where
  | array
  | object
deriving DecidableEq

/-- The character that closes a bracket. -/
def Bracket.closing : Bracket → Char
  | .array => ']'
  | .object => '\x7d'

/-- The octets at the next value of an open bracket: an object has a key in front of it. -/
def Bracket.next : Bracket → Octets → Except Problem Octets
  | .array, s => .ok s
  | .object, s => skipKey s

mutual

/-- Skips a value inside the open brackets, and then everything up to the end of the outermost. -/
def skipFrom : Nat → List Bracket → Octets → Except Problem Octets
  | 0, _, _ => .error .malformed
  | fuel + 1, stack, s =>
    match skipBlanks s with
    | [] => .error .malformed
    | b :: rest =>
      if b == octet '[' then enter fuel .array stack rest
      else if b == octet '\x7b' then enter fuel .object stack rest
      else do leave fuel stack (← skipScalar b rest)

/-- Skips what follows an opening bracket. -/
def enter : Nat → Bracket → List Bracket → Octets → Except Problem Octets
  | 0, _, _, _ => .error .malformed
  | fuel + 1, bracket, stack, s =>
    match expect bracket.closing s with
    | .ok rest => leave fuel stack rest
    | .error _ => do skipFrom fuel (bracket :: stack) (← bracket.next s)

/-- Skips what follows a value inside the open brackets. -/
def leave : Nat → List Bracket → Octets → Except Problem Octets
  | 0, _, _ => .error .malformed
  | _, [], s => .ok s
  | fuel + 1, bracket :: stack, s =>
    match expect ',' s with
    | .ok rest => do skipFrom fuel (bracket :: stack) (← bracket.next rest)
    | .error _ => do leave fuel stack (← expect bracket.closing s)

end

/-- The octets behind a value that is not used. -/
def skipValue (s : Octets) : Except Problem Octets :=
  skipFrom (fuelFor s) [] s

end PaymentRelay.Json
