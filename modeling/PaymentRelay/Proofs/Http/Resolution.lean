import PaymentRelay.Http.Request

/-!
# Which requests are payments

`Request.resolve` checks a request step by step and stops at the first thing that is wrong. `Request.Pays` says
the same without an order: what a request has to be like in order to be the request of a command.
`resolve_eq_ok_iff` ties the two together, and the lemmas on errors say what the answer is otherwise.

Every answer that `resolve` gives by itself is one of five (`response_of_resolve`). A caller nobody knows is found
out before the body is looked at (`resolve_of_unknown`).
-/

namespace PaymentRelay

/-- The answer to a caller nobody knows. -/
def Response.stranger : Response := .error 401 "unauthorized" "unauthorized"

namespace Request

/-- The first header of the gateway can be taken as text and, trimmed, is an integer of 64 bits above zero. -/
def Names (r : Request) (user : UserId) : Prop :=
  ∃ value, r.header? "x-user-id" = some value ∧ Text.signed? (Text.trimBlank value) = some user.value ∧
    0 < user.value

/-- The body is announced as JSON, has 65536 octets at most, and reads as a payment request. -/
structure Carries (r : Request) (request : PayRequest) : Prop where
  contentType : ∃ value m, r.header? "content-type" = some value ∧ MediaType.ofChars? value = some m ∧
    m.isJson = true
  size : r.body.length ≤ 65536
  body : PayRequest.schema.ofOctets r.body = .ok request

/-- A request is sent to where payments are taken. -/
structure IsToPay (r : Request) : Prop where
  method : r.method = "POST"
  path : r.path = "/payments/pay" ∨ r.path = "/api/v1/payments/pay"

end Request

/-- A payment request that passes the checks of order, amount and key makes this command. -/
structure PayRequest.Makes (request : PayRequest) (c : PaymentCommand) : Prop where
  order : request.order ≠ Uuid.nil ∧ c.order = ⟨request.order⟩
  amount : Amount.ofDecimal request.amount = .ok c.amount
  key : c.key = ⟨Text.trim request.key⟩ ∧ c.key.text ≠ "" ∧ c.key.text.utf8ByteSize ≤ 255

/-- A request is the request of a command: it is sent to where payments are taken, names the user, and carries a
payment request that makes the command. -/
structure Request.Pays (r : Request) (c : PaymentCommand) : Prop where
  isToPay : r.IsToPay
  names : r.Names c.user
  carries : ∃ request, r.Carries request ∧ request.Makes c

namespace Request

variable {r : Request} {c : PaymentCommand} {user : UserId} {e : PaymentError} {request : PayRequest}
  {response : Response}

/-! ## The caller -/

theorem caller_eq_ok_iff : r.caller = .ok user ↔ r.Names user := by
  rw [caller, userHeader]
  constructor
  · intro h
    split at h
    next => cases h
    next value hvalue =>
      split at h
      next => cases h
      next id hid =>
        rw [UserId.ofInt] at h
        split at h
        next => cases h
        next hpos =>
          cases h
          exact ⟨value, hvalue, hid, Int.not_le.mp hpos⟩
  · rintro ⟨value, hvalue, hid, hpos⟩
    simp only [hvalue, hid, UserId.ofInt, if_neg (Int.not_le.mpr hpos)]
    rfl

theorem unauthenticated_of_caller (h : r.caller = .error e) : ∃ detail, e = .unauthenticated detail := by
  rw [caller] at h
  split at h
  next => cases h; exact ⟨_, rfl⟩
  next =>
    split at h
    next => cases h; exact ⟨_, rfl⟩
    next id _ =>
      cases hid : UserId.ofInt id with
      | ok => rw [hid] at h; cases h
      | error why => rw [hid] at h; cases h; exact ⟨_, rfl⟩

/-! ## The body -/

theorem isJson_iff : r.isJson = true ↔
    ∃ value m, r.header? "content-type" = some value ∧ MediaType.ofChars? value = some m ∧ m.isJson = true := by
  rw [isJson, contentTypeHeader]
  constructor
  · intro h
    split at h
    next value hvalue =>
      obtain ⟨m, hm, hjson⟩ := (Option.any_eq_true _ _).mp h
      exact ⟨value, m, hvalue, hm, hjson⟩
    next => cases h
  · rintro ⟨value, m, hvalue, hm, hjson⟩
    simp only [hvalue, hm, Option.any_some, hjson]

theorem payRequest_eq_ok_iff : r.payRequest = .ok request ↔ r.Carries request := by
  rw [payRequest]
  constructor
  · intro h
    split at h
    next => cases h
    next hjson =>
      split at h
      next => cases h
      next hsize =>
        cases hread : PayRequest.schema.ofOctets r.body with
        | error problem => rw [hread] at h; cases h
        | ok read =>
          rw [hread] at h
          cases h
          exact ⟨isJson_iff.mp (Bool.not_eq_false _ ▸ hjson), Nat.not_lt.mp hsize, hread⟩
  · rintro ⟨hjson, hsize, hread⟩
    have hlimit : ¬ bodyLimit < r.body.length := Nat.not_lt.mpr hsize
    rw [isJson_iff.mpr hjson, if_neg Bool.noConfusion, if_neg hlimit, hread]
    rfl

theorem refused_of_payRequest (h : r.payRequest = .error e) : ∃ why, e = .refused why := by
  rw [payRequest] at h
  split at h
  · cases h; exact ⟨_, rfl⟩
  · split at h
    · cases h; exact ⟨_, rfl⟩
    · cases hread : PayRequest.schema.ofOctets r.body with
      | error problem => rw [hread] at h; cases h; exact ⟨_, rfl⟩
      | ok read => rw [hread] at h; cases h

/-! ## The command -/

theorem toCommand_eq_ok_iff : request.toCommand user = .ok c ↔ c.user = user ∧ request.Makes c := by
  rw [PayRequest.toCommand, OrderReference.ofUuid, IdempotencyKey.ofString]
  constructor
  · intro h
    split at h
    next => cases h
    next hnil =>
      cases hamount : Amount.ofDecimal request.amount with
      | error why => rw [hamount] at h; cases h
      | ok amount =>
        rw [hamount] at h
        split at h
        next => cases h
        next hempty =>
          split at h
          next => cases h
          next hlong =>
            cases h
            exact ⟨rfl, ⟨hnil, rfl⟩, hamount, rfl, hempty, Nat.not_lt.mp hlong⟩
  · rintro ⟨rfl, ⟨hnil, horder⟩, hamount, hkey, hempty, hlong⟩
    rw [hkey] at hempty hlong
    have hfits : ¬ IdempotencyKey.maxOctets < (Text.trim request.key).utf8ByteSize := Nat.not_lt.mpr hlong
    simp only [if_neg hnil, hamount, if_neg hempty, if_neg hfits]
    obtain ⟨user, order, amount, key⟩ := c
    cases horder
    cases hkey
    rfl

theorem refused_of_toCommand (h : request.toCommand user = .error e) : ∃ why, e = .refused why := by
  rw [PayRequest.toCommand, OrderReference.ofUuid, IdempotencyKey.ofString] at h
  split at h
  next => cases h; exact ⟨_, rfl⟩
  next =>
    cases hamount : Amount.ofDecimal request.amount with
    | error why => rw [hamount] at h; cases h; exact ⟨_, rfl⟩
    | ok amount =>
      rw [hamount] at h
      split at h
      next => cases h; exact ⟨_, rfl⟩
      next =>
        split at h
        next => cases h; exact ⟨_, rfl⟩
        next => cases h

/-! ## The answer instead -/

theorem command_eq_ok_iff : r.command = .ok c ↔
    r.Names c.user ∧ ∃ request, r.Carries request ∧ request.Makes c := by
  rw [command]
  constructor
  · intro h
    cases hcaller : r.caller with
    | error e => rw [hcaller] at h; cases h
    | ok user =>
      cases hbody : r.payRequest with
      | error e => rw [hcaller, hbody] at h; cases h
      | ok request =>
        rw [hcaller, hbody] at h
        obtain ⟨rfl, hmakes⟩ := toCommand_eq_ok_iff.mp h
        exact ⟨caller_eq_ok_iff.mp hcaller, request, payRequest_eq_ok_iff.mp hbody, hmakes⟩
  · rintro ⟨hnames, request, hcarries, hmakes⟩
    rw [caller_eq_ok_iff.mpr hnames, payRequest_eq_ok_iff.mpr hcarries]
    exact toCommand_eq_ok_iff.mpr ⟨rfl, hmakes⟩

/-- A payment request that makes no command is refused, or its caller is not known. -/
theorem error_of_command (h : r.command = .error e) :
    (∃ why, e = .refused why) ∨ (∃ detail, e = .unauthenticated detail) ∧ ∀ user, ¬ r.Names user := by
  rw [command] at h
  cases hcaller : r.caller with
  | error unknown =>
    rw [hcaller] at h
    cases h
    refine .inr ⟨unauthenticated_of_caller hcaller, fun user hnames => ?_⟩
    cases hcaller.symm.trans (caller_eq_ok_iff.mpr hnames)
  | ok user =>
    cases hbody : r.payRequest with
    | error problem =>
      rw [hcaller, hbody] at h
      cases h
      exact .inl (refused_of_payRequest hbody)
    | ok request =>
      rw [hcaller, hbody] at h
      exact .inl (refused_of_toCommand h)

theorem route?_eq_pay_iff :
    r.route? = some .pay ↔ r.path = "/payments/pay" ∨ r.path = "/api/v1/payments/pay" := by
  rw [route?]
  constructor
  · intro h
    split at h
    next => cases h
    next =>
      split at h
      next hpath => exact hpath
      next => cases h
  · intro hpath
    have hhealth : r.path ≠ "/healthz" := by
      rintro h
      rw [h] at hpath
      exact absurd hpath (by decide)
    rw [if_neg hhealth, if_pos hpath]

/-- Where payments are taken, the answer is that of the command. -/
theorem resolve_of_isToPay (h : r.IsToPay) : r.resolve = r.command.mapError Response.ofError := by
  rw [resolve, route?_eq_pay_iff.mpr h.path]
  exact if_pos h.method

/-- A request that is not sent to where payments are taken is answered at once, and changes nothing. -/
theorem status_of_not_isToPay (h : ¬ r.IsToPay) :
    ∃ response, r.resolve = .error response ∧ response.status ∈ [200, 404, 405] := by
  rw [resolve]
  cases hroute : r.route? with
  | none => exact ⟨_, rfl, by decide⟩
  | some route =>
    cases route with
    | health =>
      dsimp only
      split
      next => exact ⟨_, rfl, by decide⟩
      next =>
        split
        next => exact ⟨_, rfl, by decide⟩
        next => exact ⟨_, rfl, by decide⟩
    | pay =>
      have hmethod : r.method ≠ "POST" := fun hm => h ⟨hm, route?_eq_pay_iff.mp hroute⟩
      exact ⟨_, if_neg hmethod, by decide⟩

/-- **The requests that are payments.** A request is resolved to a command exactly if it is the request of
that command. -/
theorem resolve_eq_ok_iff : r.resolve = .ok c ↔ r.Pays c := by
  by_cases hto : r.IsToPay
  · rw [resolve_of_isToPay hto]
    have hcommand : r.command.mapError Response.ofError = .ok c ↔ r.command = .ok c := by
      cases r.command with
      | error e => exact ⟨nofun, nofun⟩
      | ok made => exact ⟨fun h => by cases h; rfl, fun h => by cases h; rfl⟩
    rw [hcommand, command_eq_ok_iff]
    exact ⟨fun h => ⟨hto, h.1, h.2⟩, fun h => ⟨h.names, h.carries⟩⟩
  · obtain ⟨response, hresponse, -⟩ := status_of_not_isToPay hto
    rw [hresponse]
    exact ⟨nofun, fun h => absurd h.isToPay hto⟩

/-- **A caller nobody knows** is turned away in the same words, whatever else the request says. -/
theorem resolve_of_unknown (hto : r.IsToPay) (h : ∀ user, ¬ r.Names user) :
    r.resolve = .error .stranger := by
  rw [resolve_of_isToPay hto, command]
  cases hcaller : r.caller with
  | ok user => exact absurd (caller_eq_ok_iff.mp hcaller) (h user)
  | error e =>
    obtain ⟨detail, rfl⟩ := unauthenticated_of_caller hcaller
    rfl

/-- **The answers at once.** The service is up, there is no such page or method, the request is wrong, or its
caller is not known. -/
theorem response_of_resolve (h : r.resolve = .error response) :
    response.status ∈ [200, 400, 404, 405] ∨
      response = .stranger ∧ r.IsToPay ∧ ∀ user, ¬ r.Names user := by
  by_cases hto : r.IsToPay
  · rw [resolve_of_isToPay hto] at h
    cases hcommand : r.command with
    | ok c => rw [hcommand] at h; cases h
    | error e =>
      rw [hcommand] at h
      cases h
      obtain ⟨why, rfl⟩ | ⟨⟨detail, rfl⟩, hunknown⟩ := error_of_command hcommand
      · exact .inl (List.mem_cons_of_mem _ (List.mem_cons_self ..))
      · exact .inr ⟨rfl, hto, hunknown⟩
  · obtain ⟨other, hother, hstatus⟩ := status_of_not_isToPay hto
    cases h.symm.trans hother
    have hmore : [200, 404, 405] ⊆ [200, 400, 404, 405] := by decide
    exact .inl (hmore hstatus)

end Request

end PaymentRelay
