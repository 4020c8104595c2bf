import PaymentRelay.Http.MediaType
import PaymentRelay.Http.Response
import PaymentRelay.Text.Blank

/-!
# Requests

Three paths are served: one that says the service is up, and two that take payments. Paths are
compared letter by letter; what follows a question mark or a number sign does not belong to the path.

A payment request is checked in this order: who sends it, whether it announces JSON, how long it is,
what it says, and whether that makes a command. `Request.resolve` gives the command, or the answer to
give instead.
-/

namespace PaymentRelay

/-- A request. -/
structure Request where
  method : String
  target : String
  headers : List (String × String)
  body : Json.Octets
deriving Repr

namespace Request

/-- The header the gateway puts the caller's id into. -/
def userHeader : String := "x-user-id"

/-- The header that announces what the body is. -/
def contentTypeHeader : String := "content-type"

/-- The octets a body has at most. -/
def bodyLimit : Nat := 64 * 1024

/-- A character a header value may have to be taken as text: a tab or a visible one. -/
def isVisible (c : Char) : Bool :=
  c == '\t' || (0x20 ≤ c.toNat && c.toNat ≤ 0x7E)

/-- The first value of a header, by its name in letters of either case, if it can be taken as text. -/
def header? (r : Request) (name : String) : Option (List Char) :=
  let isNamed (h : String × String) := h.1.toList.map Char.toLower == name.toList
  (r.headers.find? isNamed).bind fun h =>
    if h.2.toList.all isVisible then some h.2.toList else none

/-! ## Paths -/

/-- The characters up to a question mark or a number sign. -/
def withoutQuery (cs : List Char) : List Char :=
  cs.takeWhile fun c => c != '?' && c != '#'

/-- What follows the first `://` of a text. -/
def behindScheme? : List Char → Option (List Char)
  | [] => none
  | ':' :: '/' :: '/' :: rest => some rest
  | _ :: rest => behindScheme? rest

/-- The path of a target, which may be given with the host in front of it. -/
def path (r : Request) : String :=
  let target := withoutQuery r.target.toList
  match target with
  | '/' :: _ => String.ofList target
  | _ =>
    match behindScheme? target with
    | none => String.ofList target
    | some rest =>
      match rest.dropWhile (· != '/') with
      | [] => "/"
      | path => String.ofList path

/-- What is served at a path. -/
inductive Route where
  | health
  | pay
deriving DecidableEq, Repr

/-- What is served at the path of a request. -/
def route? (r : Request) : Option Route :=
  if r.path = "/healthz" then some .health
  else if r.path = "/payments/pay" ∨ r.path = "/api/v1/payments/pay" then some .pay
  else none

/-! ## Payments -/

/-- The user who sends a request. -/
def caller (r : Request) : Except PaymentError UserId :=
  match r.header? userHeader with
  | none => .error (.unauthenticated "missing caller identity")
  | some value =>
    match Text.signed? (Text.trimBlank value) with
    | none => .error (.unauthenticated ("malformed caller identity: " ++ String.ofList value))
    | some id => (UserId.ofInt id).mapError fun e => .unauthenticated e.message

/-- Whether a request announces JSON. -/
def isJson (r : Request) : Bool :=
  match r.header? contentTypeHeader with
  | some value => (MediaType.ofChars? value).any MediaType.isJson
  | none => false

/-- What is wrong with a body whose JSON is not taken. -/
def bodyProblem : Json.Problem → BodyProblem
  | .malformed => .malformed
  | .mismatch | .refused _ => .mismatch

/-- The payment request in a body. -/
def payRequest (r : Request) : Except PaymentError PayRequest :=
  if r.isJson = false then .error (.refused (.body .contentType))
  else if bodyLimit < r.body.length then .error (.refused (.body .tooLarge))
  else (PayRequest.schema.ofOctets r.body).mapError fun p => .refused (.body (bodyProblem p))

/-- The command of a request for a payment. -/
def command (r : Request) : Except PaymentError PaymentCommand := do
  let user ← r.caller
  let request ← r.payRequest
  request.toCommand user

/-- The command a request is to be answered for, or its answer. -/
def resolve (r : Request) : Except Response PaymentCommand :=
  match r.route? with
  | none => .error .notFound
  | some .health =>
    if r.method = "GET" then .error ⟨200, none, .text "ok"⟩
    else if r.method = "HEAD" then .error ⟨200, none, .text ""⟩
    else .error (.methodNotAllowed "GET,HEAD")
  | some .pay =>
    if r.method = "POST" then r.command.mapError Response.ofError
    else .error (.methodNotAllowed "POST")

end Request

end PaymentRelay
