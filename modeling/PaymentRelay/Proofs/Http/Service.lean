import PaymentRelay.Proofs.Http.Exchange
import PaymentRelay.Scenario.Session

/-!
# The service of requests

A session serves a request by running its command as far as it goes, settling what is left to be done, and running
it again. Where nothing else is at work (`Session.Idles`), what is settled is no more than the commit the command
waits for, so that all that happens is an exchange (`Session.exchange_of_serve`).

With that, the contract of payment requests (`Request.answer_tells`) holds of exchanges and of sessions.
-/

namespace PaymentRelay.Scenario

open Job

variable {c : PaymentCommand} {token id : Uuid} {s s₁ s₂ : System} {p p' : Progress} {m : Move} {ms : List Move}
  {f : Faults}

/-- A write that a session makes, or makes fail. -/
theorem writeMove_cases {site : Site} {write : Move} (h : writeMove? f site write = some m) :
    m = write ∨ m = .writeFails site.error ∨ m = .writePanics true := by
  rw [writeMove?] at h
  split at h
  · exact .inr (.inl (Option.some.inj h).symm)
  · cases h
  · exact .inr (.inr (Option.some.inj h).symm)
  · exact .inl (Option.some.inj h).symm

/-- The faults of a session are among those a command can meet. -/
theorem meets_of_jobMove (h : jobMove? f id ⟨c, token, p⟩ s = some m) : Meets p m := by
  cases p with
  | reserving decision =>
    cases decision with
    | none =>
      simp only [jobMove?, reserveMove, Option.some.injEq] at h
      subst h
      split
      · rfl
      · split <;> trivial
    | some granted =>
      simp only [jobMove?] at h
      split at h <;> cases h
      trivial
  | writingPayment | writingEvent =>
    obtain rfl | rfl | rfl := writeMove_cases h
    · trivial
    · rfl
    · trivial
  | committing =>
    simp only [jobMove?] at h
    split at h <;> cases h
    · exact ⟨rfl, rfl⟩
    · trivial
    · trivial
  | awaitingCommit =>
    cases h
    trivial
  | releasing =>
    simp only [jobMove?, Option.some.injEq] at h
    subst h
    split <;> trivial
  | ended => cases h

/-- A command that is run takes steps. -/
theorem alone_runJob (h : Alone c token s ms p s₁) (f : Faults) (id : Uuid) (fuel : Nat) :
    ∃ rest p' s₂, Session.runJob f id fuel ⟨c, token, p⟩ s₁ = (⟨c, token, p'⟩, s₂) ∧
      Alone c token s (ms ++ rest) p' s₂ := by
  induction fuel generalizing ms p s₁ with
  | zero => exact ⟨[], p, s₁, rfl, by rwa [List.append_nil]⟩
  | succ fuel ih =>
    rw [Session.runJob]
    cases hm : jobMove? f id ⟨c, token, p⟩ s₁ with
    | none => exact ⟨[], p, s₁, rfl, by rwa [List.append_nil]⟩
    | some m =>
      cases hstep : Job.step ⟨c, token, p⟩ m s₁ with
      | none =>
        refine ⟨[], p, s₁, ?_, by rwa [List.append_nil]⟩
        simp only [Option.bind_some, hstep]
      | some next =>
        obtain ⟨p', hp', -⟩ := transition_of_step hstep
        obtain ⟨j, s₂⟩ := next
        cases hp'
        obtain ⟨rest, p'', s₃, hrun, hend⟩ := ih (h.step (meets_of_jobMove hm) hstep)
        refine ⟨m :: rest, p'', s₃, ?_, by rwa [List.append_cons]⟩
        simp only [Option.bind_some, hstep, hrun]

/-- What a command that is waited for leaves to the system: nothing, or the commit it waits for. -/
structure Leaves (token : Uuid) (s : System) (p : Progress) (s₁ : System) : Prop where
  orphans : p ≠ .ended .panicked → s₁.orphans = s.orphans
  detached : s₁.detached = s.detached ∨
    ∃ id t, p = .awaitingCommit id ∧ s₁.detached = s.detached ++ [⟨token, t⟩]

theorem Leaves.step (h : Leaves token s p s₁) (hm : Meets p m) (ht : Transition c token s₁ p m p' s₂) :
    Leaves token s p' s₂ := by
  have horphans : s₁.orphans = s.orphans := h.orphans fun hended => by
    subst hended
    cases ht with
    | writeFails _ hp | panics _ hp | dropped _ hp | droppedLate _ hp => exact hp.elim
  have hdetached : s₁.detached = s.detached := by
    refine h.detached.resolve_right ?_
    rintro ⟨id, t, rfl, hwaits⟩
    exact not_step_of_waiting hwaits hm ht
  cases ht with
  | overflows | panics => exact ⟨fun hno => absurd rfl hno, .inl (leaveKey_detached.trans hdetached)⟩
  | detaches id t =>
    refine ⟨fun _ => horphans, .inr ⟨id, t, rfl, ?_⟩⟩
    show s₁.detached ++ _ = _
    rw [hdetached]
  | dropped _ hp =>
    cases p with
    | reserving | writingPayment | writingEvent => exact hm.elim
    | _ => exact hp.elim
  | droppedLate _ hp =>
    cases p with
    | committing | awaitingCommit => exact hm.elim
    | _ => exact hp.elim
  | droppedReleasing => exact hm.elim
  | commitFails _ _ _ isDurable => cases isDurable <;> exact ⟨fun _ => horphans, .inl hdetached⟩
  | _ => exact ⟨fun _ => horphans, .inl hdetached⟩

theorem leaves_of_alone (hfresh : s.isDetached token = false) (h : Alone c token s ms p s₁) :
    Leaves token s p s₁ := by
  induction h with
  | start => exact ⟨fun _ => rfl, .inl rfl⟩
  | step _ hm hstep ih =>
    obtain ⟨_, hp', ht⟩ := transition_of_step hstep
    cases hp'
    exact ih.step hm ht
  | wait _ _ _ ih => exact ⟨ih.orphans, ih.detached⟩
  | finish _ hplace ih =>
    obtain hsame | ⟨id, t, -, hwaits⟩ := ih.detached
    · exact absurd hplace (not_mem_of_fresh hfresh hsame)
    · rw [finishCommit_of_waiting hfresh hwaits hplace]
      exact ⟨fun _ => ih.orphans nofun, .inl rfl⟩

namespace Session

variable {w : Session}

/-- Nothing else is at work in a session than what came after `s`: no tick is due, and no commit that the gate
would let through and no orphan is left from before. -/
structure Idles (w : Session) (s : System) : Prop where
  poller : ∀ due, w.poller.bind Poller.due? = some due → w.timer < due
  gate : w.isGateOpen = true → s.detached = []
  orphans : s.orphans = []

/-- What a session settles while a command is at work that is waited for: nothing, or the commit it waits for. -/
theorem Idles.settle (h : w.Idles s) (hl : Leaves token s p w.system) (hp : p ≠ .ended .panicked) :
    w.settle = w ∨ ∃ id t, p = .awaitingCommit id ∧ w.system.detached[0]? = some ⟨token, t⟩ ∧
      w.settle = { w with isGateOpen := false, system := w.system.finishCommit 0 } := by
  have hpoller : w.settlePoller = w := by
    rw [settlePoller]
    cases hdue : w.poller.bind Poller.due? with
    | none => rfl
    | some due => exact if_neg (Nat.not_le.mpr (h.poller due hdue))
  have horphans : ∀ {v : Session}, v.system.orphans = [] → v.settleOrphans = v := by
    intro v hnone
    rw [settleOrphans, hnone]
    rfl
  have hnone : w.system.orphans = [] := (hl.orphans hp).trans h.orphans
  rw [Session.settle, hpoller, settleGate]
  split
  next hgate =>
    obtain ⟨hopen, hsome⟩ := Bool.and_eq_true_iff.mp hgate
    rw [Bool.not_eq_true'] at hsome
    obtain hsame | ⟨id, t, rfl, hwaits⟩ := hl.detached
    · rw [hsame, h.gate hopen] at hsome
      cases hsome
    · rw [h.gate hopen] at hwaits
      have hplace : w.system.detached[0]? = some ⟨token, t⟩ := by rw [hwaits]; rfl
      refine .inr ⟨id, t, rfl, hplace, horphans ?_⟩
      rw [System.finishCommit, hplace]
      exact hnone
  next => exact .inl (horphans hnone)

/-- A command is run, in a session and in the system alike. -/
theorem runEntrant_alone (w : Session) (h : Alone c token s ms p w.system) (id : Uuid) :
    ∃ rest p' s₂, w.runEntrant ⟨⟨c, token, p⟩, id⟩ = (⟨⟨c, token, p'⟩, id⟩, { w with system := s₂ }) ∧
      Alone c token s (ms ++ rest) p' s₂ := by
  obtain ⟨rest, p', s₂, hrun, hend⟩ := alone_runJob h w.faults id jobSteps
  refine ⟨rest, p', s₂, ?_, hend⟩
  rw [runEntrant, hrun]

/-- What a session settles is no more than happens to the command. -/
theorem Idles.settle_alone (h : w.Idles s) (hfresh : s.isDetached token = false) (halone : Alone c token s ms p w.system)
    (hp : p ≠ .ended .panicked) :
    w.settle.Idles s ∧ Alone c token s ms p w.settle.system := by
  obtain hsame | ⟨id, t, rfl, hplace, hsettle⟩ := h.settle (leaves_of_alone hfresh halone) hp
  · rw [hsame]
    exact ⟨h, halone⟩
  · rw [hsettle]
    exact ⟨⟨h.poller, nofun, h.orphans⟩, halone.finish hplace⟩

/-- A session in which a command has ended has nothing more to settle. -/
theorem Idles.settle_of_ended {outcome : Outcome} (h : w.Idles s) (hfresh : s.isDetached token = false)
    (halone : Alone c token s ms (.ended outcome) w.system) (hp : outcome ≠ .panicked) : w.settle = w := by
  obtain hsame | ⟨id, t, hawaits, -⟩ :=
    h.settle (leaves_of_alone hfresh halone) fun heq => hp (Progress.ended.inj heq)
  · exact hsame
  · cases hawaits

/-- A command that has ended when all is done that can be done without waiting. -/
theorem process_of_ended {e e' : Entrant} {w₁ w₂ : Session} (henter : w.enter c = (e, w₁))
    (hrun : w₁.settle.runEntrant e = (e', w₂)) (hended : e'.job.outcome?.isSome = true) :
    w.process [c] requestPatience = ([e'.outcome], w₂.settle) := by
  have hpatience : requestPatience ≠ 0 := by decide
  simp only [process, each, henter, resume, hrun, if_neg hpatience, List.all_cons, List.all_nil, Bool.and_true,
    hended, if_true, List.map_cons, List.map_nil]

theorem leave_outcome (w : Session) {e : Entrant} (h : e.job.outcome?.isSome = false) :
    (w.leave e).1.outcome = .cancelled := by
  obtain ⟨⟨c, token, p⟩, id⟩ := e
  rw [leave]
  cases hstep : Job.step ⟨c, token, p⟩ (.drop true) w.system with
  | none =>
    cases hnone : Job.outcome? ⟨c, token, p⟩ with
    | none => exact congrArg (·.getD .cancelled) hnone
    | some outcome =>
      rw [hnone] at h
      cases h
  | some next =>
    obtain ⟨job, system⟩ := next
    obtain ⟨p', hjob, ht⟩ := transition_of_step hstep
    dsimp only at hjob ht ⊢
    subst hjob
    cases ht <;> rfl

/-- A command that has not ended by then is dropped. -/
theorem process_of_waiting {e e' : Entrant} {w₁ w₂ : Session} (henter : w.enter c = (e, w₁))
    (hrun : w₁.settle.runEntrant e = (e', w₂)) (hended : e'.job.outcome?.isSome = false) :
    (w.process [c] requestPatience).1 = [.cancelled] := by
  have hpatience : requestPatience ≠ 0 := by decide
  have hleaves : ∀ v : Session, (v.leave e').1.outcome = .cancelled := fun v => v.leave_outcome hended
  simp only [process, each, henter, resume, hrun, if_neg hpatience, List.all_cons, List.all_nil, Bool.and_true,
    hended, Bool.false_eq_true, if_false, List.map_cons, List.map_nil, hleaves]

/-- A command that has ended is not run any more. -/
theorem runEntrant_of_ended (w : Session) (outcome : Outcome) :
    w.runEntrant ⟨⟨c, token, .ended outcome⟩, id⟩ = (⟨⟨c, token, .ended outcome⟩, id⟩, w) := rfl

/-- The outcome a session has for a command, with the system it leaves. A command that was dropped or broke down
is passed over. -/
theorem served_of_process (w : Session) (c : PaymentCommand) (h : w.Idles w.system)
    (hfresh : w.system.isDetached w.draw.1 = false) :
    (w.process [c] requestPatience).1 = [.cancelled] ∨ (w.process [c] requestPatience).1 = [.panicked] ∨
      ∃ ms outcome, (w.process [c] requestPatience).1 = [outcome] ∧
        Alone c w.draw.1 w.system ms (.ended outcome) (w.process [c] requestPatience).2.system := by
  have hidles : ∀ s₁, ({ w.draw.2.draw.2 with system := s₁ } : Session).Idles w.system :=
    fun _ => ⟨h.poller, h.gate, h.orphans⟩
  have hstart : Alone c w.draw.1 w.system [] (.reserving none) w.draw.2.draw.2.system := .start
  obtain ⟨ms, p, s₁, henter, halone⟩ := runEntrant_alone w.draw.2.draw.2 hstart w.draw.2.draw.1
  by_cases hpanicked : p = .ended .panicked
  · subst hpanicked
    have hprocess := process_of_ended henter (runEntrant_of_ended ..) rfl
    exact .inr (.inl (congrArg Prod.fst hprocess))
  · obtain ⟨hidle, hsettled⟩ := (hidles s₁).settle_alone hfresh halone hpanicked
    obtain ⟨rest, p', s₂, hrun, hend⟩ := runEntrant_alone _ hsettled w.draw.2.draw.1
    cases hended : Job.outcome? ⟨c, w.draw.1, p'⟩ with
    | none =>
      exact .inl (process_of_waiting henter hrun (by rw [hended]; rfl))
    | some outcome =>
      obtain rfl : p' = .ended outcome := by
        unfold Job.outcome? at hended
        split at hended
        next heq => exact heq.trans (congrArg _ (Option.some.inj hended))
        next => cases hended
      have hprocess := process_of_ended henter hrun rfl
      by_cases hbroke : outcome = .panicked
      · subst hbroke
        exact .inr (.inl (congrArg Prod.fst hprocess))
      · have hquiet : ({ (settle { w.draw.2.draw.2 with system := s₁ }) with system := s₂ } : Session).Idles
            w.system := ⟨hidle.poller, hidle.gate, hidle.orphans⟩
        rw [hquiet.settle_of_ended hfresh hend hbroke] at hprocess
        refine .inr (.inr ⟨[] ++ ms ++ rest, outcome, congrArg Prod.fst hprocess, ?_⟩)
        rw [hprocess]
        exact hend

/-- A session reports what an exchange reports. -/
theorem reportOutcome_system (w : Session) (outcome : Outcome) :
    (w.reportOutcome outcome).system = w.system.noted outcome := by
  cases outcome with
  | failed e => cases e <;> rfl
  | _ => rfl

/-- **What a session serves is an exchange.** A request that is sent to a session in which nothing else is at work,
and is answered before it takes too long, is answered as by itself, and the system is left as by that. -/
theorem exchange_of_serve (w : Session) (r : Request) (h : w.Idles w.system)
    (hfresh : w.system.isDetached w.draw.1 = false) {response : Response} (hanswer : (w.serve r).1 = some response)
    (hintime : response.status ≠ 408) :
    ∃ ms, r.Exchange w.draw.1 w.system ms (some response) (w.serve r).2.system := by
  cases hresolve : r.resolve with
  | error other =>
    rw [serve, hresolve] at hanswer ⊢
    cases hanswer
    exact ⟨[], .atOnce hresolve⟩
  | ok c =>
    simp only [serve, hresolve] at hanswer ⊢
    obtain hdropped | hbroke | ⟨ms, outcome, houtcome, hserved⟩ := w.served_of_process c h hfresh
    · rw [hdropped] at hanswer
      cases hanswer
      exact absurd rfl hintime
    · rw [hbroke] at hanswer
      cases hanswer
    · rw [houtcome] at hanswer ⊢
      have hexchange := Request.Exchange.afterwards hresolve hserved
      rw [show Response.ofOutcome? outcome = some response from hanswer] at hexchange
      refine ⟨ms, ?_⟩
      rwa [reportOutcome_system]

end Session

end PaymentRelay.Scenario

namespace PaymentRelay

/-- **The contract of payment requests.** Whatever the system is like when the key store is asked, the service of
a request comes to an end once nothing fails any more. There is then an answer, unless a store panicked or the
clock does not reach to the end of the reservation, and

* it is 202 exactly if the request is the request of a command whose key is free, and no store has failed;
* if it is 202, one payment by the user of the command was appended, for its order and of its amount, and the row
  of the pending event that announces that payment, and nothing else; and the key is held under the token for the
  lifetime of keys;
* if it is 400, 401, 404, 405 or 409, the tables and the keys are as they were;
* if it is 500, the tables are as they were, and the answer does not tell which error it was;
* if it is 401, it is always the same answer, and a caller nobody knows gets no other where payments are taken.

A session that serves the request while nothing else is at work does nothing else. -/
theorem Request.answer_tells (r : Request) (token : Uuid) (s : System) (hfresh : s.isDetached token = false) :
    (∀ c ms p s₁ id, r.resolve = .ok c → Job.Alone c token s ms p s₁ →
      ∃ rest outcome s', r.Exchange token s (ms ++ rest) (Response.ofOutcome? outcome) s' ∧
        ∀ m ∈ rest, m.isFault = false ∧ ∀ other, m = .reply other → other = id) ∧
    (∀ ms answer s', r.Exchange token s ms answer s' →
      (answer = none → (∃ hasRuntime, .writePanics hasRuntime ∈ ms) ∨
        KeyStore.clockBound ≤ s.elapsed + s.keys.lifetime.toNanos) ∧
      ∀ response, answer = some response →
        response.status ∈ [200, 202, 400, 401, 404, 405, 409, 500] ∧
        (response.status = 202 ↔
          ∃ c, r.Pays c ∧ s.keys.contains c.key s.elapsed = false ∧ Job.Faultless s ms) ∧
        (response.status = 202 → ∃ c id p row, r.Pays c ∧
          s'.database = { s.database with
            payments := s.database.payments ++ [p]
            outbox := s.database.outbox ++ [row] } ∧
          (p.user = c.user ∧ p.order = c.order ∧ p.amount = c.amount) ∧
          (row = .ofEvent (.record ⟨p.order, p.user, p.amount⟩ id p.createdAt) ∧ row.event.isPending = true) ∧
          s'.keys.held? c.key = some ⟨token, s.elapsed + s.keys.lifetime.toNanos⟩) ∧
        (response.status ∈ [400, 401, 404, 405, 409] → s'.database = s.database ∧ s'.keys = s.keys) ∧
        (response.status = 500 → s'.database = s.database ∧ response = .outOfOrder) ∧
        (response.status = 401 → response = .stranger) ∧
        (r.IsToPay → (∀ user, ¬ r.Names user) → response = .stranger)) ∧
    ∀ w : Scenario.Session, w.system = s → w.draw.1 = token → w.Idles s → ∀ response,
      (w.serve r).1 = some response → response.status ≠ 408 →
        ∃ ms, r.Exchange token s ms (some response) (w.serve r).2.system := by
  refine ⟨fun c ms p s₁ id hresolve h => ?_, fun ms answer s' h => ⟨fun hnone => ?_, ?_⟩, ?_⟩
  · obtain ⟨rest, outcome, s₂, hend, hrest⟩ := Job.ends_of_alone hfresh id h
    exact ⟨rest, outcome, _, .afterwards hresolve hend, hrest⟩
  · cases hnone
    cases answered_of_exchange hfresh h with
    | brokeDown h => exact h
  · rintro response rfl
    have hanswered := answered_of_exchange hfresh h
    refine ⟨hanswered.status, hanswered.status_eq_accepted_iff, fun hstatus => ?_, fun hstatus => ?_,
      fun hstatus => ?_, fun hstatus => ?_, fun hto hunknown => ?_⟩
    · obtain ⟨c, id, now, hpays, hwritten⟩ := hanswered.written hstatus
      obtain ⟨horder, huser, hamount, -⟩ := Payment.ofCommand_fields c now
      exact ⟨c, id, .ofCommand c now, _, hpays, hwritten.database, ⟨huser, horder, hamount⟩, ⟨rfl, rfl⟩,
        hwritten.held⟩
    · have hother : ∀ status ∈ [400, 401, 404, 405, 409], status ∉ [202, 500] := by decide
      exact hanswered.unchanged (hother _ hstatus)
    · exact hanswered.outOfOrder hstatus
    · exact hanswered.stranger hstatus
    · exact Option.some.inj (answer_of_unknown h hto hunknown)
  · rintro w rfl rfl hidle response hanswer hintime
    exact w.exchange_of_serve r hidle hfresh hanswer hintime

/-- A request of user 7 to pay 12.50, with blanks wherever there may be some. -/
def sampleRequest : Request where
  method := "POST"
  target := "/api/v1/payments/pay?from=shop"
  headers := [("X-User-Id", " 7 "), ("Content-Type", "application/json; charset=utf-8")]
  body := ("\x7b\"order_reference\": \"00000000-0000-0000-0000-000000000005\", \"amount\": 12.50," ++
    " \"idempotency_key\": \" k \"\x7d").toUTF8.toList

/-- A request that is sent to a system in which nothing has happened is answered with 202 if nothing fails, and
leaves its payment, the event of it and its key. -/
theorem Request.answer_tells_of_sample : sampleSystem.isDetached (.ofNat 1) = false ∧
    ∃ ms response s', sampleRequest.Exchange (.ofNat 1) sampleSystem ms (some response) s' ∧
      response.status = 202 ∧
      (∃ p, s'.database.payments = [p] ∧ p.user = ⟨7⟩ ∧ p.order = ⟨.ofNat 5⟩ ∧ p.amount.cents = 1250 ∧
        s'.database.outbox.map (·.event.payload) = [PaymentSucceeded.payload ⟨p.order, p.user, p.amount⟩]) ∧
      s'.keys.contains ⟨"k"⟩ 0 = true := by
  refine ⟨rfl, ?_⟩
  obtain ⟨hends, htells, -⟩ := sampleRequest.answer_tells (.ofNat 1) sampleSystem rfl
  have hresolve : sampleRequest.resolve = .ok (sampleCommand "k") := by
    have hsome : sampleRequest.resolve.toOption = some (sampleCommand "k") := by decide +kernel
    cases hr : sampleRequest.resolve with
    | ok c => rw [hr] at hsome; rw [Option.some.inj hsome]
    | error response => rw [hr] at hsome; cases hsome
  obtain ⟨ms, outcome, s', hexchange, hquiet⟩ := hends _ [] _ _ (.ofNat 9) hresolve .start
  obtain ⟨hnone, hsome⟩ := htells _ _ _ hexchange
  have hms : Job.Faultless sampleSystem ([] ++ ms) := ⟨fun m hm => (hquiet m hm).1, fun _ _ => rfl⟩
  cases hanswer : Response.ofOutcome? outcome with
  | none =>
    obtain ⟨_, hpanic⟩ | hclock := hnone hanswer
    · cases (hquiet _ hpanic).1
    · exact absurd hclock (by decide +kernel)
  | some response =>
    rw [hanswer] at hexchange
    obtain ⟨-, hiff, hrows, -⟩ := hsome response hanswer
    have hstatus := hiff.mpr ⟨_, resolve_eq_ok_iff.mp hresolve, rfl, hms⟩
    obtain ⟨c, id, p, row, hpays, hdb, ⟨huser, horder, hamount⟩, ⟨hrow, -⟩, hheld⟩ := hrows hstatus
    cases (resolve_eq_ok_iff.mp hresolve).unique hpays
    refine ⟨_, response, s', hexchange, hstatus, ⟨p, by rw [hdb]; rfl, huser, horder, ?_, ?_⟩, ?_⟩
    · rw [hamount]
      decide
    · rw [hdb, hrow]
      rfl
    rw [KeyStore.contains]
    exact hheld ▸ by decide +kernel

end PaymentRelay
