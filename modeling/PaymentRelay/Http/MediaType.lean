import PaymentRelay.Text.Numeral

/-!
# Media types

A content type names a type and a subtype, with parameters behind them that have to be well formed and
are not looked at further. A subtype may have a suffix behind its last plus sign; the plus sign it
begins with does not count.

`isJson` asks whether a content type announces JSON: the type is `application`, and the subtype
without its suffix or the suffix is `json`, in letters of either case.
-/

namespace PaymentRelay

/-- A type, a subtype and its suffix. -/
structure MediaType where
  type : List Char
  subtype : List Char
  suffix : Option (List Char)
deriving DecidableEq, Repr

namespace MediaType

/-- The marks that may stand in a name. -/
def tokenMarks : List Char := "!#$%&'*+-.^_\x60|~".toList

/-- A character of a name. -/
def isToken (c : Char) : Bool :=
  c.isAlphanum || tokenMarks.contains c

/-- A character between quotes. -/
def isQuotable (c : Char) : Bool :=
  0x20 ≤ c.toNat && c.toNat ≠ 0x7F

/-- Where a reader of parameters stands. `isStarted` says that the part has a character already. -/
inductive Place where
  | name (isStarted : Bool)
  | value (isStarted : Bool)
  | quoted (isStarted : Bool)
  /-- Behind the closing quote. -/
  | behind
deriving DecidableEq, Repr

/-- The place behind a character, if it may stand there. -/
def Place.next? : Place → Char → Option Place
  | name isStarted, c =>
    if c == ' ' && !isStarted then some (name false)
    else if isToken c then some (name true)
    else if c == '=' && isStarted then some (value false)
    else none
  | value isStarted, c =>
    if c == '"' && !isStarted then some (quoted false)
    else if isToken c then some (value true)
    else if c == ';' && isStarted then some (name false)
    else none
  | quoted isStarted, c =>
    if c == '"' && isStarted then some behind
    else if isQuotable c then some (quoted true)
    else none
  | behind, c =>
    if c == ';' then some (name false)
    else if c == ' ' then some behind
    else none

/-- Whether parameters may end at a place. -/
def Place.isEnd : Place → Bool
  | name isStarted => !isStarted
  | value _ | behind => true
  | quoted _ => false

/-- Whether parameters are well formed from a place on. -/
def wellFormed : Place → List Char → Bool
  | p, [] => p.isEnd
  | p, c :: cs => match p.next? c with
    | some p => wellFormed p cs
    | none => false

/-- A subtype cut at its last plus sign. -/
def cutSuffix (cs : List Char) : List Char × Option (List Char) :=
  let suffix := (cs.reverse.takeWhile (· != '+')).reverse
  let before := cs.take (cs.length - suffix.length - 1)
  if suffix.length < cs.length && before ≠ [] then (before, some suffix) else (cs, none)

/-- The media type of a content type. -/
def ofChars? (cs : List Char) : Option MediaType :=
  let type := cs.takeWhile isToken
  match type, cs.dropWhile isToken with
  | [], _ => none
  | _, '/' :: rest =>
    let (subtype, suffix) := cutSuffix (rest.takeWhile isToken)
    let mediaType := MediaType.mk type subtype suffix
    match rest.dropWhile isToken with
    | [] => some mediaType
    | ';' :: parameters =>
      if subtype ≠ [] && wellFormed (.name false) parameters then some mediaType else none
    | _ => none
  | _, _ => none

/-- Whether a media type is JSON. -/
def isJson (m : MediaType) : Bool :=
  let is (word : String) (cs : List Char) := cs.map Char.toLower == word.toList
  is "application" m.type && (is "json" m.subtype || m.suffix.any (is "json"))

end MediaType

end PaymentRelay
