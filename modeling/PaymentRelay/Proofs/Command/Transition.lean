import PaymentRelay.Payment.Processing

/-!
# What one step of a command does

`Job.step` is a function of the command's progress and of the move. Here it is read as a relation:
`Transition` has one constructor for each way a command goes on, with the condition under which it
goes that way and the shared state it leaves. `step_eq_some_iff` says that the two are the same, so
that every later law splits on `Transition` and none opens `step` again.

The constructors come in three groups: the way to a committed payment, the ways in which a command
fails and lets its key go, and the ways in which it ends without an answer. A command that ends
without an answer leaves its key behind (`leaveKey`) as long as the body of its transaction is not
finished, and keeps it from then on.
-/

namespace PaymentRelay

namespace Progress

/-- Progress inside the body of the transaction, where a write can fail or panic. -/
def IsWriting : Progress → Prop
  | .writingPayment .. | .writingEvent .. => True
  | _ => False

/-- Progress before the end of the transaction's body, where a command that is dropped leaves its
key behind. -/
def IsEarly : Progress → Prop
  | .reserving _ | .writingPayment .. | .writingEvent .. => True
  | _ => False

/-- Progress between the end of the transaction's body and the answer to the commit. -/
def IsLate : Progress → Prop
  | .committing .. | .awaitingCommit _ => True
  | _ => False

/-- The number of steps a command takes at most before it ends. -/
def left : Progress → Nat
  | .reserving none => 6
  | .reserving (some _) => 5
  | .writingPayment .. => 4
  | .writingEvent .. => 3
  | .committing .. => 2
  | .awaitingCommit _ | .releasing _ => 1
  | .ended _ => 0

end Progress

namespace Job

/-- The system in which a command was given up, which is reported and nothing else. -/
def givenUp (stage : Stage) (s : System) : System :=
  (s.log (.stage stage .failed)).log .commandFailed

section LeaveKey

variable {hasRuntime : Bool} {key : IdempotencyKey} {token : Uuid} {s : System}

@[simp] theorem leaveKey_start : (leaveKey hasRuntime key token s).start = s.start := by
  cases hasRuntime <;> rfl

@[simp] theorem leaveKey_elapsed : (leaveKey hasRuntime key token s).elapsed = s.elapsed := by
  cases hasRuntime <;> rfl

@[simp] theorem leaveKey_keys : (leaveKey hasRuntime key token s).keys = s.keys := by
  cases hasRuntime <;> rfl

@[simp] theorem leaveKey_database : (leaveKey hasRuntime key token s).database = s.database := by
  cases hasRuntime <;> rfl

@[simp] theorem leaveKey_detached : (leaveKey hasRuntime key token s).detached = s.detached := by
  cases hasRuntime <;> rfl

/-- With a runtime the key comes to the orphans, without one they stay as they are. -/
theorem mem_orphans_leaveKey {o : Orphan} : o ∈ (leaveKey hasRuntime key token s).orphans ↔
    o ∈ s.orphans ∨ hasRuntime = true ∧ o = ⟨key, token⟩ := by
  cases hasRuntime with
  | true =>
    show o ∈ s.orphans ++ [⟨key, token⟩] ↔ _
    rw [List.mem_append, List.mem_singleton, and_iff_right rfl]
  | false => exact ⟨.inl, fun h => h.resolve_right (Bool.false_ne_true ·.1)⟩

end LeaveKey

/-- The system in which a command was accepted, which is reported and nothing else. -/
def reported (s : System) : System :=
  ((s.log (.stage .guardChecked .committed)).log (.stage .committed .done)).log .paymentAccepted

/-- The system after the key store decided on a reservation. -/
def decided (c : PaymentCommand) (token : Uuid) (s : System) : System :=
  { s with keys := (s.keys.reserve c.key token s.elapsed).2 }

/-- The transitions of the command `c` that holds its key under `token`, from the system `s`. -/
inductive Transition (c : PaymentCommand) (token : Uuid) (s : System) :
    Progress → Move → Progress → System → Prop
  -- the way to a committed payment
  | granted (h : (s.keys.reserve c.key token s.elapsed).1 = .granted) :
      Transition c token s (.reserving none) .reserve (.reserving (some true)) (decided c token s)
  | accepts (id : Uuid) :
      Transition c token s (.reserving (some true)) (.reply id)
        (.writingPayment (.ofCommand c s.now)
          (.record (Payment.ofCommand c s.now).succeeded id s.now))
        (s.log (.stage .start .guardChecked))
  | writesPayment (p : Payment) (e : OutboxEvent) :
      Transition c token s (.writingPayment p e) .writePayment
        (.writingEvent e (Transaction.empty.insertPayment p)) s
  | writesEvent (e : OutboxEvent) (t t' : Transaction) (h : s.database.insertEvent t e = .ok t') :
      Transition c token s (.writingEvent e t) .writeEvent (.committing e.id t') s
  | commits (id : Uuid) (t : Transaction) :
      Transition c token s (.committing id t) .commit (.ended (.accepted id)) (reported (s.commit t))
  | detaches (id : Uuid) (t : Transaction) :
      Transition c token s (.committing id t) .detach (.awaitingCommit id) (s.detach token t)
  | acknowledged (id : Uuid) (h : s.isDetached token = false) :
      Transition c token s (.awaitingCommit id) .acknowledge (.ended (.accepted id)) (reported s)
  -- the ways in which a command fails
  | taken (h : (s.keys.reserve c.key token s.elapsed).1 = .taken) :
      Transition c token s (.reserving none) .reserve (.reserving (some false)) (decided c token s)
  | rejects (id : Uuid) :
      Transition c token s (.reserving (some false)) (.reply id)
        (.ended (.failed .duplicatePayment))
        ((s.log (.stage .start .rejected)).log .duplicateRejected)
  | reserveFails (decision : Option Bool) (error : PaymentError) :
      Transition c token s (.reserving decision) (.reserveFails error) (.releasing error)
        (givenUp .start s)
  | writeFails (before : Progress) (h : before.IsWriting) (error : PaymentError) :
      Transition c token s before (.writeFails error) (.releasing error) (givenUp .guardChecked s)
  | eventRefused (e : OutboxEvent) (t : Transaction) (error : PaymentError)
      (h : s.database.insertEvent t e = .error error) :
      Transition c token s (.writingEvent e t) .writeEvent (.releasing error)
        (givenUp .guardChecked s)
  | commitFails (id : Uuid) (t : Transaction) (error : PaymentError) (isDurable : Bool) :
      Transition c token s (.committing id t) (.commitFails error isDurable) (.releasing error)
        (givenUp .guardChecked (if isDurable then s.commit t else s))
  | commitLost (id : Uuid) (error : PaymentError) (isDurable : Bool) :
      Transition c token s (.awaitingCommit id) (.commitFails error isDurable) (.releasing error)
        (givenUp .guardChecked s)
  | releases (cause : PaymentError) :
      Transition c token s (.releasing cause) .release (.ended (.failed cause))
        { s with keys := s.keys.release c.key token }
  | releaseFails (cause : PaymentError) :
      Transition c token s (.releasing cause) .releaseFails (.ended (.failed cause))
        (s.log .keyNotReleased)
  -- the ways in which a command ends without an answer
  | overflows (h : (s.keys.reserve c.key token s.elapsed).1 = .overflow) (hasRuntime : Bool) :
      Transition c token s (.reserving none) (.reservePanics hasRuntime) (.ended .panicked)
        (leaveKey hasRuntime c.key token (decided c token s))
  | panics (before : Progress) (h : before.IsWriting) (hasRuntime : Bool) :
      Transition c token s before (.writePanics hasRuntime) (.ended .panicked)
        (leaveKey hasRuntime c.key token s)
  | dropped (before : Progress) (h : before.IsEarly) (hasRuntime : Bool) :
      Transition c token s before (.drop hasRuntime) (.ended .cancelled)
        (leaveKey hasRuntime c.key token s)
  | droppedLate (before : Progress) (h : before.IsLate) (hasRuntime : Bool) :
      Transition c token s before (.drop hasRuntime) (.ended .cancelled) (s.log .keyKept)
  | droppedReleasing (cause : PaymentError) (hasRuntime : Bool) :
      Transition c token s (.releasing cause) (.drop hasRuntime) (.ended .cancelled) s

/-- Every step of a command is one of the transitions, and the command and its token stay. -/
theorem transition_of_step {c : PaymentCommand} {token : Uuid} {p : Progress} {m : Move}
    {s : System} {next : Job × System} (h : step ⟨c, token, p⟩ m s = some next) :
    ∃ p', next.1 = ⟨c, token, p'⟩ ∧ Transition c token s p m p' next.2 := by
  unfold step at h
  dsimp only at h
  split at h
  next =>
    split at h
    next hg => cases h; exact ⟨_, rfl, .granted hg⟩
    next ht => cases h; exact ⟨_, rfl, .taken ht⟩
    next => cases h
  next hasRuntime =>
    split at h
    next ho => cases h; exact ⟨_, rfl, .overflows ho hasRuntime⟩
    next => cases h
  next granted id =>
    cases granted with
    | true => cases h; exact ⟨_, rfl, .accepts id⟩
    | false => cases h; exact ⟨_, rfl, .rejects id⟩
  next decision error => cases h; exact ⟨_, rfl, .reserveFails decision error⟩
  next payment event => cases h; exact ⟨_, rfl, .writesPayment payment event⟩
  next event transaction =>
    split at h
    next hok => cases h; exact ⟨_, rfl, .writesEvent event transaction _ hok⟩
    next hno => cases h; exact ⟨_, rfl, .eventRefused event transaction _ hno⟩
  next payment event error =>
    cases h
    exact ⟨_, rfl, .writeFails (.writingPayment payment event) trivial error⟩
  next event transaction error =>
    cases h
    exact ⟨_, rfl, .writeFails (.writingEvent event transaction) trivial error⟩
  next payment event hasRuntime =>
    cases h
    exact ⟨_, rfl, .panics (.writingPayment payment event) trivial hasRuntime⟩
  next event transaction hasRuntime =>
    cases h
    exact ⟨_, rfl, .panics (.writingEvent event transaction) trivial hasRuntime⟩
  next id transaction => cases h; exact ⟨_, rfl, .commits id transaction⟩
  next id transaction => cases h; exact ⟨_, rfl, .detaches id transaction⟩
  next id transaction error isDurable =>
    cases h
    exact ⟨_, rfl, .commitFails id transaction error isDurable⟩
  next id =>
    split at h
    next => cases h
    next hd => cases h; exact ⟨_, rfl, .acknowledged id (Bool.not_eq_true _ ▸ hd)⟩
  next id error isDurable => cases h; exact ⟨_, rfl, .commitLost id error isDurable⟩
  next cause => cases h; exact ⟨_, rfl, .releases cause⟩
  next cause => cases h; exact ⟨_, rfl, .releaseFails cause⟩
  next => cases h
  next hasRuntime hp =>
    cases p with
    | reserving decision => cases h; exact ⟨_, rfl, .dropped (.reserving decision) trivial hasRuntime⟩
    | writingPayment p e => cases h; exact ⟨_, rfl, .dropped (.writingPayment p e) trivial hasRuntime⟩
    | writingEvent e t => cases h; exact ⟨_, rfl, .dropped (.writingEvent e t) trivial hasRuntime⟩
    | committing id t => cases h; exact ⟨_, rfl, .droppedLate (.committing id t) trivial hasRuntime⟩
    | awaitingCommit id => cases h; exact ⟨_, rfl, .droppedLate (.awaitingCommit id) trivial hasRuntime⟩
    | releasing cause => cases h; exact ⟨_, rfl, .droppedReleasing cause hasRuntime⟩
    | ended outcome => exact absurd rfl (hp outcome)
  next => cases h

/-- Every transition is a step of the command. -/
theorem step_of_transition {c : PaymentCommand} {token : Uuid} {p p' : Progress} {m : Move}
    {s s' : System} (h : Transition c token s p m p' s') :
    step ⟨c, token, p⟩ m s = some (⟨c, token, p'⟩, s') := by
  cases h with
  | granted h => simp only [step, h]; rfl
  | taken h => simp only [step, h]; rfl
  | overflows h hasRuntime => simp only [step, h, if_true]; rfl
  | writesEvent e t t' h => simp only [step, h]; rfl
  | eventRefused e t error h => simp only [step, h]; rfl
  | acknowledged id h => simp only [step, h]; rfl
  | reserveFails decision error => cases decision <;> rfl
  | writeFails _ h error =>
    cases p with
    | writingPayment => rfl
    | writingEvent => rfl
    | _ => exact h.elim
  | panics _ h =>
    cases p with
    | writingPayment => rfl
    | writingEvent => rfl
    | _ => exact h.elim
  | dropped _ h =>
    cases p with
    | reserving decision => cases decision <;> rfl
    | writingPayment => rfl
    | writingEvent => rfl
    | _ => exact h.elim
  | droppedLate _ h =>
    cases p with
    | committing => rfl
    | awaitingCommit => rfl
    | _ => exact h.elim
  | _ => rfl

/-! ## Steps left -/

/-- Every step brings a command nearer to its end, unless it tells that a commit failed. -/
theorem Transition.left_lt {c : PaymentCommand} {token : Uuid} {s s' : System} {p p' : Progress}
    {m : Move} (h : Transition c token s p m p' s')
    (hm : ∀ error isDurable, m ≠ .commitFails error isDurable) : p'.left < p.left := by
  cases h with
  | writeFails _ hp | panics _ hp =>
    cases p with
    | writingPayment | writingEvent => exact Nat.lt_of_sub_pos (Nat.succ_pos _)
    | _ => exact hp.elim
  | dropped _ hp =>
    cases p with
    | reserving decision => cases decision <;> exact Nat.lt_of_sub_pos (Nat.succ_pos _)
    | writingPayment | writingEvent => exact Nat.lt_of_sub_pos (Nat.succ_pos _)
    | _ => exact hp.elim
  | droppedLate _ hp =>
    cases p with
    | committing | awaitingCommit => exact Nat.lt_of_sub_pos (Nat.succ_pos _)
    | _ => exact hp.elim
  | reserveFails decision => cases decision <;> exact Nat.lt_of_sub_pos (Nat.succ_pos _)
  | commitFails _ _ error isDurable | commitLost _ error isDurable => exact absurd rfl (hm error isDurable)
  | _ => exact Nat.lt_of_sub_pos (Nat.succ_pos _)

end Job

end PaymentRelay
