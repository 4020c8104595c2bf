import PaymentRelay.Http.PayRequest
import PaymentRelay.Journal
import PaymentRelay.Payment.Processing

/-!
# Answers

Every answer to a payment request that has a body has it in JSON. An error is answered with a code and
a message of its own: a refusal with its wording, a caller nobody knows and a failure of a store with
the same words whatever happened. The failure is reported in the journal instead.
-/

namespace PaymentRelay

/-- The body of an answer. -/
inductive Body where
  | json (value : Json)
  | text (value : String)
  | empty
deriving Repr

/-- An answer to a request. -/
structure Response where
  status : Nat
  /-- The methods that are allowed, if the one of the request is not. -/
  allow : Option String
  body : Body
deriving Repr

namespace Response

/-- The content type of an answer, which its body decides. -/
def contentType? (r : Response) : Option String :=
  match r.body with
  | .json _ => some "application/json"
  | .text _ => some "text/plain; charset=utf-8"
  | .empty => none

/-- An answer without a body. -/
def bare (status : Nat) : Response := ⟨status, none, .empty⟩

/-- The answer to a path nobody serves. -/
def notFound : Response := bare 404

/-- The answer to a method a path does not have. -/
def methodNotAllowed (allow : String) : Response := ⟨405, some allow, .empty⟩

/-- The answer to a request that took too long. -/
def timedOut : Response := bare 408

/-- An answer with an error. -/
def error (status : Nat) (code message : String) : Response :=
  ⟨status, none, .json (.object [("error_code", .text code), ("message", .text message)])⟩

/-- The answer an error is given. -/
def ofError : PaymentError → Response
  | .refused why => error 400 "validation_error" why.message
  | .duplicatePayment => error 409 "duplicate_payment" "duplicate payment"
  | .unauthenticated _ => error 401 "unauthorized" "unauthorized"
  | _ => error 500 "internal_error" "failed to process payment"

/-- What is reported of an error that is answered without its wording. -/
def report? : PaymentError → Option Entry
  | .refused _ | .duplicatePayment | .unauthenticated _ => none
  | _ => some .paymentFailed

/-- The answer to a payment that was accepted. -/
def accepted : Response := ⟨202, none, .json PayResponse.accepted.toJson⟩

/-- The answer to a request by how its command ended; a command that broke down leaves none. -/
def ofOutcome? : Outcome → Option Response
  | .accepted _ => some accepted
  | .failed e => some (ofError e)
  | .cancelled => some timedOut
  | .panicked => none

end Response

end PaymentRelay
