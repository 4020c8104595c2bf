import PaymentRelay.Proofs.Command.Rows

/-!
# What the outcome of a command tells

A command that is at work alone, from its first call to its end, while its stores fail or do not. A
`Course` says which of the four calls fail and how, and how much time passes before each step; a
reservation that fails may have been made all the same. `Completes` follows the command through
`Job.step` to its end.

The outcome tells what has happened (`Told`): an accepted command has left its two rows and holds its key;
one that was told that the key is taken has left nothing and touched nothing; and one that failed has left
no rows, failed with the first fault it met, and does not hold its key unless the release failed too.
-/

namespace PaymentRelay

namespace Job

/-- What a command meets with that is at work alone. -/
structure Course where
  /-- The id that is drawn for the event. -/
  eventId : Uuid
  /-- The error of the reservation, if it fails, and whether the key store has decided all the same. -/
  reserveFault : Option (PaymentError × Bool)
  /-- The error of the ledger, if it fails. -/
  paymentFault : Option PaymentError
  /-- The error of the outbox, if it fails. -/
  eventFault : Option PaymentError
  /-- Whether a release succeeds. -/
  isReleased : Bool
  /-- How much time passes before the step that is taken at some progress. -/
  wait : Progress → Nat

namespace Course

/-- What happens to the command at some progress. -/
def move? (k : Course) : Progress → Option Move
  | .reserving none => some (match k.reserveFault with
    | some (error, false) => .reserveFails error
    | _ => .reserve)
  | .reserving (some _) => some (match k.reserveFault with
    | some (error, _) => .reserveFails error
    | none => .reply k.eventId)
  | .writingPayment .. => some (match k.paymentFault with
    | some error => .writeFails error
    | none => .writePayment)
  | .writingEvent .. => some (match k.eventFault with
    | some error => .writeFails error
    | none => .writeEvent)
  | .committing .. => some .commit
  | .releasing _ => some (if k.isReleased then .release else .releaseFails)
  | .awaitingCommit _ | .ended _ => none

/-- The command goes on to its end. Where it calls the key store, that may panic. -/
inductive Completes (k : Course) (c : PaymentCommand) (token : Uuid) :
    Progress → System → Outcome → System → Prop
  | done (outcome : Outcome) (s : System) : Completes k c token (.ended outcome) s outcome s
  | panics {p' : Progress} {s s' s'' : System} {outcome : Outcome} (hasRuntime : Bool)
      (hm : k.move? (.reserving none) = some .reserve)
      (hstep : step ⟨c, token, .reserving none⟩ (.reservePanics hasRuntime)
        (s.advance (k.wait (.reserving none))) = some (⟨c, token, p'⟩, s'))
      (rest : Completes k c token p' s' outcome s'') :
      Completes k c token (.reserving none) s outcome s''
  | goesOn {p p' : Progress} {m : Move} {s s' s'' : System} {outcome : Outcome}
      (hm : k.move? p = some m)
      (hstep : step ⟨c, token, p⟩ m (s.advance (k.wait p)) = some (⟨c, token, p'⟩, s'))
      (rest : Completes k c token p' s' outcome s'') : Completes k c token p s outcome s''

/-- The first fault a command with rows to write meets, if it meets one. The outbox refuses an event whose
id it has already. -/
def faultAt (k : Course) (db : Database) : Progress → Option PaymentError
  | .writingPayment .. => k.paymentFault.or (k.eventFault.or refusal)
  | .writingEvent .. => k.eventFault.or refusal
  | _ => none
where
  /-- The error with which the outbox refuses the event. -/
  refusal := if db.hasEvent k.eventId then some (.infrastructure (.duplicateEvent k.eventId)) else none

/-- The first fault a command meets, if it meets one. -/
def fault? (k : Course) (db : Database) : Option PaymentError :=
  (k.reserveFault.map (·.1)).or (k.paymentFault.or (k.eventFault.or (faultAt.refusal k db)))

/-- The key store reports that the key is taken. -/
def ReportsTaken (k : Course) (c : PaymentCommand) (s : System) : Prop :=
  k.reserveFault = none ∧ s.keys.contains c.key (s.elapsed + k.wait (.reserving none)) = true

variable {k : Course} {c : PaymentCommand} {token : Uuid} {p : Progress} {s s' : System}
  {outcome : Outcome}

/-! ## Every call ends -/

/-- What happens to a command on its course is a step of it, and not to a commit that goes on by itself,
unless the end of the reservation is beyond the clock. -/
theorem exists_step (k : Course) (c : PaymentCommand) (token : Uuid) (s : System)
    (hopen : ∀ outcome, p ≠ .ended outcome) (hinline : ∀ id, p ≠ .awaitingCommit id)
    (hclock : p = .reserving none → k.move? p = some .reserve →
      (s.keys.reserve c.key token s.elapsed).1 ≠ .overflow) :
    ∃ m p' s', k.move? p = some m ∧ Transition c token s p m p' s' ∧
      (∀ error isDurable, m ≠ .commitFails error isDurable) ∧ ∀ id, p' ≠ .awaitingCommit id := by
  have reserves (hp : p = .reserving none) (hm : k.move? p = some .reserve) :
      ∃ p' s', Transition c token s (.reserving none) .reserve p' s' ∧ ∀ id, p' ≠ .awaitingCommit id := by
    cases h : (s.keys.reserve c.key token s.elapsed).1 with
    | granted => exact ⟨_, _, .granted h, nofun⟩
    | taken => exact ⟨_, _, .taken h, nofun⟩
    | overflow => exact absurd h (hclock hp hm)
  cases p with
  | reserving decision =>
    cases decision with
    | none =>
      rcases h : k.reserveFault with _ | ⟨error, _ | _⟩
      · have hm : k.move? (.reserving none) = some .reserve := by rw [move?, h]
        obtain ⟨p', s', ht, hp'⟩ := reserves rfl hm
        exact ⟨_, p', s', hm, ht, nofun, hp'⟩
      · exact ⟨_, _, _, by rw [move?, h], .reserveFails none error, nofun, nofun⟩
      · have hm : k.move? (.reserving none) = some .reserve := by rw [move?, h]
        obtain ⟨p', s', ht, hp'⟩ := reserves rfl hm
        exact ⟨_, p', s', hm, ht, nofun, hp'⟩
    | some isGranted =>
      rcases h : k.reserveFault with _ | ⟨error, _⟩
      · cases isGranted with
        | true => exact ⟨_, _, _, by rw [move?, h], .accepts k.eventId, nofun, nofun⟩
        | false => exact ⟨_, _, _, by rw [move?, h], .rejects k.eventId, nofun, nofun⟩
      · exact ⟨_, _, _, by rw [move?, h], .reserveFails _ error, nofun, nofun⟩
  | writingPayment payment event =>
    cases h : k.paymentFault with
    | none => exact ⟨_, _, _, by rw [move?, h], .writesPayment payment event, nofun, nofun⟩
    | some error =>
      exact ⟨_, _, _, by rw [move?, h], .writeFails (.writingPayment payment event) trivial error,
        nofun, nofun⟩
  | writingEvent event t =>
    cases h : k.eventFault with
    | none =>
      cases hi : s.database.insertEvent t event with
      | ok t' => exact ⟨_, _, _, by rw [move?, h], .writesEvent event t t' hi, nofun, nofun⟩
      | error error => exact ⟨_, _, _, by rw [move?, h], .eventRefused event t error hi, nofun, nofun⟩
    | some error =>
      exact ⟨_, _, _, by rw [move?, h], .writeFails (.writingEvent event t) trivial error, nofun, nofun⟩
  | committing id t => exact ⟨_, _, _, rfl, .commits id t, nofun, nofun⟩
  | awaitingCommit id => exact absurd rfl (hinline id)
  | releasing cause =>
    cases h : k.isReleased with
    | true => exact ⟨_, _, _, by rw [move?, h]; rfl, .releases cause, nofun, nofun⟩
    | false => exact ⟨_, _, _, by rw [move?, h]; rfl, .releaseFails cause, nofun, nofun⟩
  | ended outcome => exact absurd rfl (hopen outcome)

/-- **Every command comes to an end**, whatever fails. -/
theorem completes (k : Course) (c : PaymentCommand) (token : Uuid) (p : Progress) (s : System)
    (hinline : ∀ id, p ≠ .awaitingCommit id) : ∃ outcome s', k.Completes c token p s outcome s' := by
  by_cases hopen : ∃ outcome, p = .ended outcome
  · obtain ⟨outcome, rfl⟩ := hopen
    exact ⟨outcome, s, .done outcome s⟩
  by_cases hpanics : p = .reserving none ∧ k.move? p = some .reserve ∧
      (s.keys.reserve c.key token (s.elapsed + k.wait p)).1 = .overflow
  · obtain ⟨rfl, hm, ho⟩ := hpanics
    exact ⟨.panicked, _, .panics true hm (step_of_transition (.overflows ho true)) (.done ..)⟩
  · obtain ⟨m, p', s₁, hm, ht, hcommit, hinline'⟩ :=
      k.exists_step c token (s.advance (k.wait p)) (fun o h => hopen ⟨o, h⟩) hinline
        fun hp hm ho => hpanics ⟨hp, hm, ho⟩
    have hlt : p'.left < p.left := ht.left_lt hcommit
    obtain ⟨outcome, s', hrest⟩ := completes k c token p' s₁ hinline'
    exact ⟨outcome, s', .goesOn hm (step_of_transition ht) hrest⟩
termination_by p.left

/-! ## What is left at the end -/

theorem completes_ended {first : Outcome} (h : k.Completes c token (.ended first) s outcome s') :
    outcome = first ∧ s' = s := by
  cases h with
  | done => exact ⟨rfl, rfl⟩
  | goesOn hm => cases hm

/-- A command was given up: it fails with its cause, leaves the tables alone, and does not hold its key
unless the release failed. -/
structure GaveUp (k : Course) (c : PaymentCommand) (token : Uuid) (cause : PaymentError) (s : System)
    (outcome : Outcome) (s' : System) : Prop where
  outcome : outcome = .failed cause
  database : s'.database = s.database
  released : k.isReleased = true → ∀ held, s'.keys.held? c.key = some held → held.token ≠ token

/-- **A release that fails does not hide the cause.** -/
theorem completes_releasing {cause : PaymentError}
    (h : k.Completes c token (.releasing cause) s outcome s') :
    k.GaveUp c token cause s outcome s' := by
  cases h with
  | goesOn hm hstep rest =>
    obtain ⟨p', hp', ht⟩ := transition_of_step hstep
    cases hp'
    cases hr : k.isReleased with
    | true =>
      simp only [move?, hr, if_true, Option.some.injEq] at hm
      subst hm
      cases ht with
      | releases =>
        obtain ⟨rfl, rfl⟩ := completes_ended rest
        refine ⟨rfl, rfl, fun _ held hheld => ?_⟩
        rw [KeyStore.held?_release, if_pos rfl] at hheld
        exact of_decide_eq_true (Option.filter_eq_some_iff.mp hheld).2
    | false =>
      simp only [move?, hr, Bool.false_eq_true, if_false, Option.some.injEq] at hm
      subst hm
      cases ht with
      | releaseFails =>
        obtain ⟨rfl, rfl⟩ := completes_ended rest
        exact ⟨rfl, rfl, fun hyes => absurd (hr.symm.trans hyes) Bool.false_ne_true⟩

/-- A command was accepted: its rows are in the tables, and the keys are as they were. -/
structure WentIn (k : Course) (c : PaymentCommand) (now : Instant) (s : System) (outcome : Outcome)
    (s' : System) : Prop where
  outcome : outcome = .accepted k.eventId
  database : s'.database = s.database.commit (.ofCommand c k.eventId now)
  keys : s'.keys = s.keys
  elapsed : s.elapsed ≤ s'.elapsed

/-- What happens next to a command with its rows in hand: it keeps them and is still to meet the same
fault, or meets the fault now, or commits. -/
inductive Writes (k : Course) (c : PaymentCommand) (now : Instant) (p : Progress) (s : System) :
    Progress → System → Prop
  | goesOn {p' : Progress} (hp : p'.InHand c k.eventId now)
      (hfault : k.faultAt s.database p' = k.faultAt s.database p) : Writes k c now p s p' s
  | fails {cause : PaymentError} {s' : System} (hfault : k.faultAt s.database p = some cause)
      (hdb : s'.database = s.database) : Writes k c now p s (.releasing cause) s'
  | commits (hfault : k.faultAt s.database p = none) :
      Writes k c now p s (.ended (.accepted k.eventId))
        (reported (s.commit (.ofCommand c k.eventId now)))

/-- A command with its rows in hand writes, meets a fault or commits. -/
theorem writes_of_step {now : Instant} {p' : Progress} {m : Move} (hp : p.InHand c k.eventId now)
    (hm : k.move? p = some m) (ht : Transition c token s p m p' s') : k.Writes c now p s p' s' := by
  cases p with
  | writingPayment payment event =>
    cases hf : k.paymentFault with
    | none =>
      simp only [move?, hf, Option.some.injEq] at hm
      subst hm
      cases ht with
      | writesPayment =>
        refine .goesOn ⟨hp.2, by rw [hp.1]⟩ ?_
        rw [faultAt, faultAt, hf, Option.none_or]
    | some error =>
      simp only [move?, hf, Option.some.injEq] at hm
      subst hm
      cases ht with
      | writeFails => exact .fails (by rw [faultAt, hf]; rfl) rfl
  | writingEvent event t =>
    obtain ⟨rfl, rfl⟩ := hp
    cases hf : k.eventFault with
    | none =>
      simp only [move?, hf, Option.some.injEq] at hm
      subst hm
      cases ht with
      | writesEvent _ _ t' hok =>
        obtain ⟨rfl, hnew⟩ := Database.insertEvent_eq_ok hok
        refine .goesOn ⟨rfl, rfl⟩ ?_
        show none = k.eventFault.or (faultAt.refusal k s.database)
        rw [hf, Option.none_or]
        exact (if_neg (Bool.eq_false_iff.mp hnew)).symm
      | eventRefused _ _ error herror =>
        -- the transaction holds no event yet, so the id is in the table
        obtain ⟨rfl, hold | hold⟩ := Database.insertEvent_eq_error herror
        · cases hold
        · refine .fails ?_ rfl
          rw [faultAt, hf, Option.none_or]
          exact if_pos hold
    | some error =>
      simp only [move?, hf, Option.some.injEq] at hm
      subst hm
      cases ht with
      | writeFails => exact .fails (by rw [faultAt, hf]; rfl) rfl
  | committing id t =>
    obtain ⟨rfl, rfl⟩ := hp
    cases hm
    cases ht with
    | commits => exact .commits rfl
  | _ => exact hp.elim

/-- **Both rows or the first fault.** A command with its rows in hand fails with the first fault it meets,
and is accepted if it meets none. -/
theorem completes_writing {now : Instant} (h : k.Completes c token p s outcome s')
    (hp : p.InHand c k.eventId now) :
    (∀ cause, k.faultAt s.database p = some cause → k.GaveUp c token cause s outcome s') ∧
      (k.faultAt s.database p = none → k.WentIn c now s outcome s') := by
  -- along the run: as long as the rows are in hand, the fault that is still to come stays the same
  induction h with
  | done | panics => exact hp.elim
  | @goesOn p p' m s s₁ s' outcome hm hstep rest ih =>
    obtain ⟨_, hp', ht⟩ := transition_of_step hstep
    cases hp'
    cases writes_of_step hp hm ht with
    | goesOn hp' hfault =>
      obtain ⟨hfails, hgoes⟩ := ih hp'
      refine ⟨fun cause hc => ?_, fun hno => ?_⟩
      · obtain ⟨ho, hdb, hr⟩ := hfails cause (hfault.trans hc)
        exact ⟨ho, hdb, hr⟩
      · obtain ⟨ho, hdb, hkeys, he⟩ := hgoes (hfault.trans hno)
        exact ⟨ho, hdb, hkeys, Nat.le_trans (Nat.le_add_right ..) he⟩
    | fails hfault hdb =>
      obtain ⟨ho, hdb', hr⟩ := completes_releasing rest
      refine ⟨fun cause hc => ?_, fun hno => ?_⟩
      · cases hfault.symm.trans hc
        exact ⟨ho, hdb'.trans hdb, hr⟩
      · cases hfault.symm.trans hno
    | commits hfault =>
      obtain ⟨rfl, rfl⟩ := completes_ended rest
      refine ⟨fun cause hc => ?_, fun _ => ⟨rfl, rfl, rfl, Nat.le_add_right ..⟩⟩
      cases hfault.symm.trans hc

/-! ## The reservation -/

/-- How the call of a command ends, with what is left of it in the system. -/
inductive Told (k : Course) (c : PaymentCommand) (token : Uuid) (s : System) : Outcome → System → Prop
  | accepted {s' : System} (now : Instant) (since : Nat) (hfault : k.fault? s.database = none)
      (hfree : ¬ k.ReportsTaken c s)
      (hdb : s'.database = s.database.commit (.ofCommand c k.eventId now))
      (hkeys : s'.keys.held? c.key = some ⟨token, since + s.keys.lifetime.toNanos⟩)
      (hsince : s.elapsed ≤ since ∧ since ≤ s'.elapsed) : Told k c token s (.accepted k.eventId) s'
  | rejected {s' : System} (htaken : k.ReportsTaken c s) (hdb : s'.database = s.database)
      (hkeys : s'.keys = s.keys) : Told k c token s (.failed .duplicatePayment) s'
  | failed {outcome : Outcome} {s' : System} (cause : PaymentError) (hfree : ¬ k.ReportsTaken c s)
      (hfault : k.fault? s.database = some cause) (h : k.GaveUp c token cause s outcome s') :
      Told k c token s outcome s'
  | panicked {s' : System} (hfree : ¬ k.ReportsTaken c s)
      (hclock : KeyStore.clockBound ≤
        s.elapsed + k.wait (.reserving none) + s.keys.lifetime.toNanos) : Told k c token s .panicked s'

/-- A reservation that fails, made or not, fails the command with its error. -/
theorem told_of_reserveFault {decision : Option Bool} {error : PaymentError} {b : Bool}
    (hf : k.reserveFault = some (error, b)) (hb : decision = none → b = false) {s₁ : System}
    (hdb : s₁.database = s.database)
    (h : k.Completes c token (.reserving decision) s₁ outcome s') : k.Told c token s outcome s' := by
  have hfault : k.fault? s.database = some error := by rw [fault?, hf]; rfl
  have hfree : ¬ k.ReportsTaken c s := fun hr => by cases hf.symm.trans hr.1
  have hmove : k.move? (.reserving decision) = some (.reserveFails error) := by
    cases decision with
    | none =>
      cases hb rfl
      rw [move?, hf]
    | some => rw [move?, hf]
  cases h with
  | panics _ hm => cases hm.symm.trans hmove
  | goesOn hm hstep rest =>
    obtain ⟨_, hp', ht⟩ := transition_of_step hstep
    cases hp'
    cases hm.symm.trans hmove
    cases ht with
    | reserveFails =>
      obtain ⟨ho, hdb', hr⟩ := completes_releasing rest
      exact .failed error hfree hfault ⟨ho, hdb'.trans hdb, hr⟩

/-- A key that is granted or beyond the clock was not reported taken. -/
theorem not_reportsTaken {answer : Reservation}
    (h : (s.keys.reserve c.key token (s.elapsed + k.wait (.reserving none))).1 = answer)
    (hne : answer ≠ .taken) : ¬ k.ReportsTaken c s := by
  rintro ⟨-, hlive⟩
  exact hne (h.symm.trans ((KeyStore.reserve_taken_iff ..).mpr hlive))

/-- A command that was granted its key writes its rows, or fails with the first fault. -/
theorem told_of_granted (hf : k.reserveFault = none)
    (hg : (s.keys.reserve c.key token (s.elapsed + k.wait (.reserving none))).1 = .granted)
    (h : k.Completes c token (.reserving (some true))
      (decided c token (s.advance (k.wait (.reserving none)))) outcome s') :
    k.Told c token s outcome s' := by
  have hfree := not_reportsTaken hg nofun
  cases h with
  | goesOn hm hstep rest =>
    obtain ⟨_, hp', ht⟩ := transition_of_step hstep
    cases hp'
    rw [move?, hf] at hm
    cases hm
    cases ht with
    | accepts =>
      obtain ⟨hfails, hgoes⟩ := completes_writing rest ⟨rfl, rfl⟩
      have hfault : ∀ payment event,
          k.fault? s.database = k.faultAt s.database (.writingPayment payment event) := by
        intro payment event
        rw [fault?, hf, faultAt]
        rfl
      cases hc : k.fault? s.database with
      | some cause =>
        obtain ⟨ho, hdb, hr⟩ := hfails cause ((hfault ..).symm.trans hc)
        exact .failed cause hfree hc ⟨ho, hdb, hr⟩
      | none =>
        obtain ⟨rfl, hdb, hkeys, helapsed⟩ := hgoes ((hfault ..).symm.trans hc)
        refine .accepted _ (s.elapsed + k.wait (.reserving none)) hc hfree hdb ?_ ⟨Nat.le_add_right .., ?_⟩
        · rw [hkeys]
          exact (KeyStore.held?_reserve hg c.key).trans (if_pos rfl)
        · exact Nat.le_trans (Nat.le_add_right ..) helapsed

/-- A command that is told that its key is taken has touched nothing. -/
theorem told_of_taken (hf : k.reserveFault = none)
    (hlive : s.keys.contains c.key (s.elapsed + k.wait (.reserving none)) = true)
    (h : k.Completes c token (.reserving (some false))
      (decided c token (s.advance (k.wait (.reserving none)))) outcome s') :
    k.Told c token s outcome s' := by
  cases h with
  | goesOn hm hstep rest =>
    obtain ⟨_, hp', ht⟩ := transition_of_step hstep
    cases hp'
    rw [move?, hf] at hm
    cases hm
    cases ht with
    | rejects =>
      obtain ⟨rfl, rfl⟩ := completes_ended rest
      refine .rejected ⟨hf, hlive⟩ rfl ?_
      show (s.keys.reserve c.key token (s.elapsed + k.wait (.reserving none))).2 = s.keys
      simp only [KeyStore.reserve, hlive, if_true]

/-- **The outcome tells what has happened.** -/
theorem told_of_completes (h : k.Completes c token (.reserving none) s outcome s') :
    k.Told c token s outcome s' := by
  by_cases hearly : ∃ error, k.reserveFault = some (error, false)
  · obtain ⟨error, hf⟩ := hearly
    exact told_of_reserveFault hf (fun _ => rfl) rfl h
  · -- the key store decides, whether or not its answer arrives
    have hmove : k.move? (.reserving none) = some .reserve := by
      rw [move?]
      split
      next error hf => exact absurd ⟨error, hf⟩ hearly
      next => rfl
    have hfails : ∀ decision s₁ error b, k.reserveFault = some (error, b) →
        k.Completes c token (.reserving (some decision)) s₁ outcome s' →
        s₁.database = s.database → k.Told c token s outcome s' :=
      fun decision s₁ error b hf h hdb => told_of_reserveFault hf (fun hno => by cases hno) hdb h
    cases h with
    | panics _ _ hstep rest =>
      obtain ⟨_, hp', ht⟩ := transition_of_step hstep
      cases hp'
      cases ht with
      | overflows ho =>
        obtain ⟨rfl, rfl⟩ := completes_ended rest
        refine .panicked (not_reportsTaken ho nofun) (Nat.le_of_not_lt fun hlt => ?_)
        exact KeyStore.reserve_ne_overflow hlt c.key token ho
    | goesOn hm hstep rest =>
      cases hm.symm.trans hmove
      obtain ⟨_, hp', ht⟩ := transition_of_step hstep
      cases hp'
      cases ht with
      | granted hg =>
        rcases hf : k.reserveFault with _ | ⟨error, b⟩
        · exact told_of_granted hf hg rest
        · exact hfails true _ error b hf rest rfl
      | taken htaken =>
        rcases hf : k.reserveFault with _ | ⟨error, b⟩
        · exact told_of_taken hf ((KeyStore.reserve_taken_iff ..).mp htaken) rest
        · exact hfails false _ error b hf rest rfl

/-! ## Other keys -/

end Course

/-- A step of a command changes no answer about the key of another. -/
theorem Transition.contains_of_ne {c : PaymentCommand} {token : Uuid} {s s' : System}
    {p p' : Progress} {m : Move} (h : Transition c token s p m p' s') {other : IdempotencyKey}
    (hne : other ≠ c.key) {later : Nat} (hl : s.elapsed ≤ later) :
    s'.keys.contains other later = s.keys.contains other later ∧ s'.elapsed = s.elapsed := by
  cases h with
  | granted | taken => exact ⟨s.keys.contains_reserve_of_ne hne token hl, rfl⟩
  | overflows =>
    rw [leaveKey_keys]
    exact ⟨s.keys.contains_reserve_of_ne hne token hl, leaveKey_elapsed⟩
  | panics | dropped =>
    rw [leaveKey_keys]
    exact ⟨rfl, leaveKey_elapsed⟩
  | releases => exact ⟨s.keys.contains_release_of_ne hne token later, rfl⟩
  | commitFails _ _ _ isDurable => cases isDurable <;> exact ⟨rfl, rfl⟩
  | _ => exact ⟨rfl, rfl⟩

/-- A wait and a step before a run change no answer about the key of another either, if what is asked is
asked after the run. -/
theorem Transition.contains_before_run {c : PaymentCommand} {token : Uuid} {nanos : Nat} {s s₁ s' : System}
    {p p' : Progress} {m : Move} (h : Transition c token (s.advance nanos) p m p' s₁)
    {other : IdempotencyKey} (hne : other ≠ c.key) (hle : s₁.elapsed ≤ s'.elapsed)
    (hsame : ∀ later, s'.elapsed ≤ later → s'.keys.contains other later = s₁.keys.contains other later) :
    s.elapsed ≤ s'.elapsed ∧ ∀ later, s'.elapsed ≤ later →
      s'.keys.contains other later = s.keys.contains other later := by
  have helapsed : s₁.elapsed = s.elapsed + nanos := (h.contains_of_ne hne (Nat.le_refl _)).2
  have hfirst : s.elapsed + nanos ≤ s'.elapsed := helapsed ▸ hle
  refine ⟨Nat.le_trans (Nat.le_add_right ..) hfirst, fun later hl => ?_⟩
  exact (hsame later hl).trans (h.contains_of_ne hne (Nat.le_trans hfirst hl)).1

namespace Course

/-- The whole call changes no answer about the key of another. -/
theorem completes_contains {k : Course} {c : PaymentCommand} {token : Uuid} {p : Progress}
    {s s' : System} {outcome : Outcome} (h : k.Completes c token p s outcome s')
    {other : IdempotencyKey} (hne : other ≠ c.key) :
    s.elapsed ≤ s'.elapsed ∧ ∀ later, s'.elapsed ≤ later →
      s'.keys.contains other later = s.keys.contains other later := by
  induction h with
  | done => exact ⟨Nat.le_refl _, fun _ _ => rfl⟩
  | panics _ _ hstep rest ih | goesOn _ hstep rest ih =>
    obtain ⟨_, hp', ht⟩ := transition_of_step hstep
    exact ht.contains_before_run hne ih.1 ih.2

/-! ## The law -/

/-- **The outcome of a completed command tells exactly what happened.** Whatever fails, a command that is
at work alone comes to an end, and

* if it was accepted, it met no fault; one payment of its order, its user and its amount was appended, and
  the row of a pending event with the id it was told, which announces that payment, and nothing else; and the
  key is held under its token;
* it was told that the key is taken if the key store reported so, and only then, unless that was the error
  of a fault; tables and keys are then as they were;
* if it failed otherwise, the tables are as they were, its error is that of the first fault, and it does
  not hold its key, unless the release failed too;
* it cannot end in another way, unless the clock does not reach to the end of the reservation;
* and in no case is the answer about another key any different. -/
theorem outcome_tells (k : Course) (c : PaymentCommand) (token : Uuid) (s : System) :
    (∃ outcome s', k.Completes c token (.reserving none) s outcome s') ∧
    ∀ outcome s', k.Completes c token (.reserving none) s outcome s' →
      (∀ id, outcome = .accepted id → k.fault? s.database = none ∧ ∃ p r since,
        s'.database = { s.database with
          payments := s.database.payments ++ [p]
          outbox := s.database.outbox ++ [r] } ∧
        (p.order = c.order ∧ p.user = c.user ∧ p.amount = c.amount) ∧
        (r = .ofEvent (.record ⟨p.order, p.user, p.amount⟩ id p.createdAt) ∧ r.event.id = id ∧
          r.event.isPending = true) ∧
        s'.keys.held? c.key = some ⟨token, since + s.keys.lifetime.toNanos⟩ ∧
        s.elapsed ≤ since ∧ since ≤ s'.elapsed) ∧
      (k.ReportsTaken c s → outcome = .failed .duplicatePayment) ∧
      (outcome = .failed .duplicatePayment →
        k.ReportsTaken c s ∨ k.fault? s.database = some .duplicatePayment) ∧
      (k.ReportsTaken c s → s'.database = s.database ∧ s'.keys = s.keys) ∧
      (∀ cause, outcome = .failed cause → ¬ k.ReportsTaken c s →
        s'.database = s.database ∧ k.fault? s.database = some cause ∧
        (k.isReleased = true → ∀ held, s'.keys.held? c.key = some held → held.token ≠ token)) ∧
      outcome ≠ .cancelled ∧
      (outcome = .panicked → KeyStore.clockBound ≤
        s.elapsed + k.wait (.reserving none) + s.keys.lifetime.toNanos) ∧
      ∀ other, other ≠ c.key → ∀ later, s'.elapsed ≤ later →
        s'.keys.contains other later = s.keys.contains other later := by
  refine ⟨k.completes c token (.reserving none) s nofun, fun outcome s' h => ?_⟩
  have hothers : ∀ other, other ≠ c.key → ∀ later, s'.elapsed ≤ later →
      s'.keys.contains other later = s.keys.contains other later :=
    fun other hne => (completes_contains h hne).2
  cases told_of_completes h with
  | accepted now since hfault hfree hdb hkeys hsince =>
    refine ⟨fun id hid => ?_, fun hr => absurd hr hfree, nofun, fun hr => absurd hr hfree, nofun, nofun,
      nofun, hothers⟩
    cases hid
    obtain ⟨horder, huser, hamount, -⟩ := Payment.ofCommand_fields c now
    exact ⟨hfault, .ofCommand c now, _, since, hdb, ⟨horder, huser, hamount⟩, ⟨rfl, rfl, rfl⟩, hkeys, hsince⟩
  | rejected htaken hdb hkeys =>
    exact ⟨nofun, fun _ => rfl, fun _ => .inl htaken, fun _ => ⟨hdb, hkeys⟩,
      fun _ _ hfree => absurd htaken hfree, nofun, nofun, hothers⟩
  | failed cause hfree hfault hgave =>
    obtain ⟨rfl, hdb, hreleased⟩ := hgave
    refine ⟨nofun, fun hr => absurd hr hfree, fun ho => ?_, fun hr => absurd hr hfree, fun e he _ => ?_,
      nofun, nofun, hothers⟩
    · cases ho
      exact .inr hfault
    · cases he
      exact ⟨hdb, hfault, hreleased⟩
  | panicked hfree hclock =>
    exact ⟨nofun, fun hr => absurd hr hfree, nofun, fun hr => absurd hr hfree, nofun, nofun,
      fun _ => hclock, hothers⟩

/-- A course on which nothing fails unless it is the outbox. -/
def outboxMayFail (eventFault : Option PaymentError) : Course where
  eventId := .ofNat 11
  reserveFault := none
  paymentFault := none
  eventFault := eventFault
  isReleased := true
  wait _ := 1

/-- A command for which the outbox is out of order fails with that error, leaves no payment behind, and
lets its key go. Where nothing fails, it leaves the payment of 12.50 by user 7 for order 5 and the event of
that payment, and holds its key. -/
theorem outcome_tells_of_outboxMayFail :
    (∃ s', (outboxMayFail (some (.unavailable "outbox"))).Completes (sampleCommand "k") (.ofNat 1)
        (.reserving none) sampleSystem (.failed (.unavailable "outbox")) s' ∧
      s'.database.payments = [] ∧ ∀ held, s'.keys.held? ⟨"k"⟩ = some held → held.token ≠ .ofNat 1) ∧
    ∃ s' id p r since, (outboxMayFail none).Completes (sampleCommand "k") (.ofNat 1) (.reserving none)
        sampleSystem (.accepted id) s' ∧
      s'.database.payments = [p] ∧ p.order = ⟨.ofNat 5⟩ ∧ p.user = ⟨7⟩ ∧ p.amount.cents = 1250 ∧
      s'.database.outbox = [r] ∧ r.event.id = id ∧
      r.event.payload = PaymentSucceeded.payload ⟨p.order, p.user, p.amount⟩ ∧
      s'.keys.held? ⟨"k"⟩ = some ⟨.ofNat 1, since + sampleSystem.keys.lifetime.toNanos⟩ := by
  have hfree : ∀ fault, ¬ (outboxMayFail fault).ReportsTaken (sampleCommand "k") sampleSystem :=
    fun fault hr => by cases hr.2
  refine ⟨?_, ?_⟩
  · obtain ⟨⟨outcome, s', h⟩, hall⟩ :=
      outcome_tells (outboxMayFail (some (.unavailable "outbox"))) (sampleCommand "k") (.ofNat 1) sampleSystem
    obtain ⟨haccepted, -, -, -, hfailed, hcancelled, hpanicked, -⟩ := hall outcome s' h
    cases outcome with
    | accepted id => cases (haccepted id rfl).1
    | failed cause =>
      obtain ⟨hdb, hfault, hreleased⟩ := hfailed cause rfl (hfree _)
      cases hfault
      exact ⟨s', h, by rw [hdb]; rfl, hreleased rfl⟩
    | cancelled => exact absurd rfl hcancelled
    | panicked => exact absurd (hpanicked rfl) (by decide +kernel)
  · obtain ⟨⟨outcome, s', h⟩, hall⟩ :=
      outcome_tells (outboxMayFail none) (sampleCommand "k") (.ofNat 1) sampleSystem
    obtain ⟨haccepted, -, -, -, hfailed, hcancelled, hpanicked, -⟩ := hall outcome s' h
    cases outcome with
    | accepted id =>
      obtain ⟨-, p, r, since, hdb, ⟨horder, huser, hamount⟩, ⟨hr, hid, -⟩, hheld, -⟩ := haccepted id rfl
      exact ⟨s', id, p, r, since, h, by rw [hdb]; rfl, horder, huser, by rw [hamount]; decide, by rw [hdb]; rfl,
        hid, by rw [hr]; rfl, hheld⟩
    | failed cause => cases (hfailed cause rfl (hfree _)).2.1
    | cancelled => exact absurd rfl hcancelled
    | panicked => exact absurd (hpanicked rfl) (by decide +kernel)

end Course

end Job

end PaymentRelay
