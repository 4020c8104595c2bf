import PaymentRelay.Proofs.World.Lease

/-!
# A contest for a key

Several commands with one key, none of which fails or is dropped, and less time than the key is held
for: one of them is accepted, the others are told that the key is taken, and one payment is made.

A contest is undecided as long as no command was granted the key, and all of them are still to call the
key store. The first call decides it: from then on the winner's reservation is live, so every other call
is turned away, and the winner goes straight to its commit (`Won`).

That the commands do end is shown apart: a command that has not ended can always go on
(`goes_on`), and takes six steps at most (`moves_le`).
-/

namespace PaymentRelay

namespace Job

/-- Whether a move belongs to a command for which nothing fails and which nobody drops. A key store whose
clock does not reach to the end of a reservation has not failed. -/
def Move.isSmooth : Move → Bool
  | .reserve | .reservePanics _ | .reply _ | .writePayment | .writeEvent | .commit | .detach
  | .acknowledge => true
  | _ => false

/-- No commit is reported to have failed by a smooth move. -/
theorem Move.ne_commitFails {m : Move} (h : m.isSmooth = true) (error : PaymentError)
    (isDurable : Bool) : m ≠ .commitFails error isDurable := by
  rintro rfl
  cases h

end Job

namespace Progress

/-- The progress of a command that does not get the key. -/
def IsLosing : Progress → Prop
  | .reserving none | .reserving (some false) | .ended (.failed .duplicatePayment) => True
  | _ => False

end Progress

namespace World

/-! ## The winner -/

/-- A system whose tables are those of `s`, with no commit on its way. -/
structure IsIdle (s sys : System) : Prop where
  payments : sys.database.payments = s.database.payments
  written : sys.database.written = s.database.written
  detached : sys.detached = []

/-- The winner of a contest and what it has added to the tables of `s`. -/
inductive Won (s : System) (winner : Uuid) (c : PaymentCommand) : Progress → System → Prop
  | granted {sys : System} (h : IsIdle s sys) : Won s winner c (.reserving (some true)) sys
  | writes {sys : System} {p : Progress} (id : Uuid) (now : Instant) (hp : p.InHand c id now)
      (hnew : s.database.hasEvent id = false) (h : IsIdle s sys) : Won s winner c p sys
  | sends {sys : System} (id : Uuid) (now : Instant)
      (hpayments : sys.database.payments = s.database.payments)
      (hwritten : sys.database.written = s.database.written)
      (hdetached : sys.detached = [⟨winner, .ofCommand c id now⟩]) :
      Won s winner c (.awaitingCommit id) sys
  | paid {sys : System} {p : Progress} (id : Uuid) (now : Instant)
      (hp : p = .awaitingCommit id ∨ p = .ended (.accepted id))
      (hpayments : sys.database.payments = s.database.payments ++ [.ofCommand c now])
      (hwritten : sys.database.written = s.database.written ++
        [.record (Payment.ofCommand c now).succeeded id now])
      (hdetached : sys.detached = []) : Won s winner c p sys

/-- Two systems agree on what a contest is about. -/
structure SameRows (sys sys' : System) : Prop where
  payments : sys'.database.payments = sys.database.payments
  written : sys'.database.written = sys.database.written
  detached : sys'.detached = sys.detached

variable {s sys sys' : System} {w w' : World} {winner token : Uuid} {c : PaymentCommand}
  {p p' : Progress} {m : Job.Move}

/-- What leaves rows and commits alone leaves a system idle. -/
theorem IsIdle.of_same (h : IsIdle s sys) (hsame : SameRows sys sys') : IsIdle s sys' :=
  ⟨hsame.payments.trans h.payments, hsame.written.trans h.written, hsame.detached.trans h.detached⟩

/-- An idle system knows the events `s` knows. -/
theorem IsIdle.hasEvent (h : IsIdle s sys) (id : Uuid) :
    sys.database.hasEvent id = s.database.hasEvent id := by
  rw [Database.hasEvent_eq_any, Database.hasEvent_eq_any, h.written]

/-- The rows of a command are in the tables once its transaction is committed. -/
theorem IsIdle.commit (h : IsIdle s sys) (id : Uuid) (now : Instant) :
    (sys.database.commit (.ofCommand c id now)).payments = s.database.payments ++ [.ofCommand c now] ∧
      (sys.database.commit (.ofCommand c id now)).written = s.database.written ++
        [.record (Payment.ofCommand c now).succeeded id now] := by
  refine ⟨?_, ?_⟩
  · show sys.database.payments ++ _ = _
    rw [h.payments]
    rfl
  · rw [Database.written_commit, h.written]
    rfl

/-- What leaves rows and commits alone leaves the winner where it is. -/
theorem Won.of_same (h : Won s winner c p sys) (hsame : SameRows sys sys') : Won s winner c p sys' := by
  cases h with
  | granted h => exact .granted (h.of_same hsame)
  | writes id now hp hnew h => exact .writes id now hp hnew (h.of_same hsame)
  | sends id now hpayments hwritten hdetached =>
    exact .sends id now (hsame.payments.trans hpayments) (hsame.written.trans hwritten)
      (hsame.detached.trans hdetached)
  | paid id now hp hpayments hwritten hdetached =>
    exact .paid id now hp (hsame.payments.trans hpayments) (hsame.written.trans hwritten)
      (hsame.detached.trans hdetached)

/-- **The winner goes straight to its commit.** A smooth step of the winner writes its rows, and nothing
stands in the way if the id of the event is new. The keys stay as they are. -/
theorem Won.moved (h : Won s winner c p sys) (ht : Job.Transition c winner sys p m p' sys')
    (hm : m.isSmooth = true) (hnew : ∀ id ∈ p.drawn p', s.database.hasEvent id = false) :
    Won s winner c p' sys' ∧ sys'.keys = sys.keys ∧ sys'.orphans = sys.orphans := by
  cases h with
  | granted hidle =>
    cases ht with
    | accepts id =>
      have hsame : SameRows sys (sys.log (.stage .start .guardChecked)) := ⟨rfl, rfl, rfl⟩
      exact ⟨.writes id sys.now ⟨rfl, rfl⟩ (hnew id List.mem_cons_self) (hidle.of_same hsame), rfl, rfl⟩
    | reserveFails | writeFails | panics | dropped | droppedLate => cases hm
  | writes id now hp hfresh hidle =>
    cases ht with
    | writesPayment payment event => exact ⟨.writes id now ⟨hp.2, by rw [hp.1]⟩ hfresh hidle, rfl, rfl⟩
    | writesEvent event t t' hok =>
      obtain ⟨hevent, ht⟩ := hp
      refine ⟨.writes id now ⟨by rw [hevent]; rfl, ?_⟩ hfresh hidle, rfl, rfl⟩
      rw [(Database.insertEvent_eq_ok hok).1, ht, hevent]
      rfl
    | eventRefused event t error herror =>
      obtain ⟨hevent, ht⟩ := hp
      subst hevent ht
      -- the id is new in the transaction, which is empty, and in the table, which is that of `s`
      rcases (Database.insertEvent_eq_error herror).2 with hold | hold
      · cases hold
      · rw [hidle.hasEvent] at hold
        exact absurd (hfresh.symm.trans hold) Bool.false_ne_true
    | commits id' t =>
      obtain ⟨rfl, rfl⟩ := hp
      obtain ⟨hpayments, hwritten⟩ := hidle.commit (c := c) id' now
      exact ⟨.paid id' now (.inr rfl) hpayments hwritten hidle.detached, rfl, rfl⟩
    | detaches id' t =>
      obtain ⟨rfl, rfl⟩ := hp
      refine ⟨.sends id' now hidle.payments hidle.written ?_, rfl, rfl⟩
      show sys.detached ++ _ = _
      rw [hidle.detached]
      rfl
    | writeFails | commitFails | panics | dropped | droppedLate => cases hm
    | _ => exact hp.elim
  | sends id now hpayments hwritten hdetached =>
    cases ht with
    | acknowledged id h =>
      -- the commit is still on its way, so nothing can be acknowledged
      rw [System.isDetached, hdetached, List.any_cons, beq_self_eq_true] at h
      cases h
    | commitLost | writeFails | panics | dropped | droppedLate => cases hm
  | paid id now hp hpayments hwritten hdetached =>
    rcases hp with rfl | rfl
    · cases ht with
      | acknowledged id h => exact ⟨.paid id now (.inr rfl) hpayments hwritten hdetached, rfl, rfl⟩
      | commitLost | writeFails | panics | dropped | droppedLate => cases hm
    · cases ht with
      | writeFails | panics | dropped | droppedLate => cases hm

/-- A winner that has ended was accepted, and its rows are in the tables. -/
theorem Won.ended {outcome : Outcome} (h : Won s winner c (.ended outcome) sys) :
    ∃ id now, outcome = .accepted id ∧ sys.database.payments = s.database.payments ++ [.ofCommand c now] ∧
      sys.database.written = s.database.written ++
        [.record (Payment.ofCommand c now).succeeded id now] := by
  cases h with
  | writes _ _ hp => exact hp.elim
  | paid id now hp hpayments hwritten _ =>
    rcases hp with hp | hp
    · cases hp
    · cases hp
      exact ⟨id, now, rfl, hpayments, hwritten⟩

/-- A winner never fails. -/
theorem Won.not_releasing {cause : PaymentError} : ¬ Won s winner c (.releasing cause) sys := by
  intro h
  cases h with
  | writes _ _ hp => exact hp
  | paid _ _ hp => rcases hp with hp | hp <;> cases hp

/-! ## The others -/

/-- A command that finds its key live is on the losing side, and a smooth step keeps it there and
changes nothing the others share. -/
theorem losing_moved (hp : p.IsLosing) (ht : Job.Transition c token sys p m p' sys')
    (hm : m.isSmooth = true) (hlive : sys.keys.contains c.key sys.elapsed = true) :
    p'.IsLosing ∧ SameRows sys sys' ∧ sys'.keys = sys.keys ∧ sys'.orphans = sys.orphans := by
  have htaken := (KeyStore.reserve_taken_iff sys.keys c.key token sys.elapsed).mpr hlive
  cases ht with
  | granted h | overflows h =>
    rw [htaken] at h
    cases h
  | taken =>
    have hkeys : (Job.decided c token sys).keys = sys.keys := by
      simp only [Job.decided, KeyStore.reserve, hlive, reduceIte]
    exact ⟨trivial, ⟨rfl, rfl, rfl⟩, hkeys, rfl⟩
  | rejects => exact ⟨trivial, ⟨rfl, rfl, rfl⟩, rfl, rfl⟩
  | reserveFails | writeFails | commitFails | commitLost | releases | releaseFails | panics | dropped
  | droppedLate | droppedReleasing => cases hm
  | _ => exact hp.elim

/-- A command that has lost and ended was told that its key is taken. -/
theorem losing_ended {outcome : Outcome} (h : (Progress.ended outcome).IsLosing) :
    outcome = .failed .duplicatePayment := by
  unfold Progress.IsLosing at h
  split at h
  next => contradiction
  next => contradiction
  next heq => exact Progress.ended.inj heq
  next => exact h.elim

/-! ## The contest -/

/-- How a contest for a key stands. -/
inductive Standing (s : System) (key : IdempotencyKey) (w : World) : Prop
  | undecided (hidle : IsIdle s w.system)
      (hparties : ∀ token p, w.parties.find? token = some p → p.progress = .reserving none)
      (hfree : w.system.keys.contains key w.system.elapsed = false)
  | won (winner : Uuid) (p : Party) (since : Nat) (hp : w.parties.find? winner = some p)
      (hwon : Won s winner p.command p.progress w.system)
      (hothers : ∀ token q, token ≠ winner → w.parties.find? token = some q → q.progress.IsLosing)
      (hsince : s.elapsed ≤ since)
      (hcovers : w.system.keys.Covers w.system.elapsed key winner since)

/-- A contest for a key that began in `s`. -/
structure Contest (s : System) (key : IdempotencyKey) (w : World) : Prop where
  elapsed : s.elapsed ≤ w.system.elapsed
  lifetime : w.system.keys.lifetime = s.keys.lifetime
  keyed : ∀ token p, w.parties.find? token = some p → p.command.key = key
  kept : ∀ token p, w.parties.find? token = some p → ¬ w.IsOrphan token
  standing : Standing s key w

/-- Whether an action belongs to a contest for a key: the commands that enter have that key, and their
moves are smooth. -/
def Action.isContest (key : IdempotencyKey) : Action → Bool
  | .enter c _ => c.key == key
  | .move _ m => m.isSmooth
  | _ => true

variable {key : IdempotencyKey}

/-- What a contest has shown stays true of a world in which the parties, their keys and their rows are the
same and the orphans have not grown. -/
theorem Contest.of_same (h : Contest s key w) (hparties : w'.parties = w.parties)
    (helapsed : w.system.elapsed ≤ w'.system.elapsed) (hrows : SameRows w.system w'.system)
    (horphans : ∀ token, w'.IsOrphan token → w.IsOrphan token)
    (hlifetime : w'.system.keys.lifetime = w.system.keys.lifetime)
    (hfree : w'.system.keys.contains key w'.system.elapsed = true →
      w.system.keys.contains key w.system.elapsed = true)
    (hcovers : ∀ token p since, w.parties.find? token = some p →
      w.system.keys.Covers w.system.elapsed key token since →
      w'.system.keys.Covers w'.system.elapsed key token since) : Contest s key w' where
  elapsed := Nat.le_trans h.elapsed helapsed
  lifetime := hlifetime.trans h.lifetime
  keyed token p hp := h.keyed token p (hparties ▸ hp)
  kept token p hp ho := h.kept token p (hparties ▸ hp) (horphans token ho)
  standing := by
    cases h.standing with
    | undecided hidle hall hno =>
      refine .undecided (hidle.of_same hrows) (hparties ▸ hall) (Bool.eq_false_iff.mpr fun hyes => ?_)
      rw [hfree hyes] at hno
      cases hno
    | won winner p since hp hwon hothers hsince hc =>
      exact .won winner p since (hparties ▸ hp) (hwon.of_same hrows) (hparties ▸ hothers) hsince
        (hcovers winner p since hp hc)

/-- Another command enters a contest. -/
theorem Contest.entered (h : Contest s key w) (hc : c.key = key) (hnew : token ∉ w.tokens) :
    Contest s key (w.entered c token) where
  elapsed := h.elapsed
  lifetime := h.lifetime
  keyed t q hq := by
    rcases find?_entered hq with ⟨-, rfl⟩ | ⟨-, hold⟩
    · exact hc
    · exact h.keyed t q hold
  kept t q hq := by
    rcases find?_entered hq with ⟨rfl, -⟩ | ⟨-, hold⟩
    · intro ho
      simp only [tokens, List.mem_append, not_or] at hnew
      exact hnew.2 ho
    · exact h.kept t q hold
  standing := by
    cases h.standing with
    | undecided hidle hall hfree =>
      refine .undecided hidle (fun t q hq => ?_) hfree
      rcases find?_entered hq with ⟨-, rfl⟩ | ⟨-, hold⟩
      · rfl
      · exact hall t q hold
    | won winner p since hp hwon hothers hsince hcovers =>
      refine .won winner p since ?_ hwon (fun t q ht hq => ?_) hsince hcovers
      · rw [World.entered, Register.find?_put, if_neg (ne_of_new hnew hp)]
        exact hp
      · rcases find?_entered hq with ⟨-, rfl⟩ | ⟨-, hold⟩
        · trivial
        · exact hothers t q ht hold

/-- What is left to show of a contest in which a command took a step is how it stands. -/
theorem Contest.of_standing (h : Contest s key w) {party : Party}
    (hp : w.parties.find? token = some party)
    (helapsed : sys'.elapsed = w.system.elapsed) (hlifetime : sys'.keys.lifetime = w.system.keys.lifetime)
    (horphans : sys'.orphans = w.system.orphans)
    (hstanding : Standing s key (w.moved token party p' sys')) :
    Contest s key (w.moved token party p' sys') := by
  constructor
  case elapsed =>
    show s.elapsed ≤ sys'.elapsed
    rw [helapsed]
    exact h.elapsed
  case lifetime => exact hlifetime.trans h.lifetime
  case keyed =>
    intro t q hq
    rcases find?_moved hq with ⟨-, rfl⟩ | ⟨-, hold⟩
    · exact h.keyed token party hp
    · exact h.keyed t q hold
  case standing => exact hstanding
  case kept =>
    intro t q hq ho
    have ho' : w.IsOrphan t := by rwa [IsOrphan, ← horphans]
    rcases find?_moved hq with ⟨rfl, -⟩ | ⟨-, hold⟩
    · exact h.kept t party hp ho'
    · exact h.kept t q hold ho'

/-- **The first call decides.** In an undecided contest the key is free, so the command that calls the key
store is granted it. -/
theorem Contest.decided (h : Contest s key w) {party : Party} (hidle : IsIdle s w.system)
    (hall : ∀ token p, w.parties.find? token = some p → p.progress = .reserving none)
    (hfree : w.system.keys.contains key w.system.elapsed = false)
    (hp : w.parties.find? token = some party)
    (ht : Job.Transition party.command token w.system party.progress m p' sys')
    (hm : m.isSmooth = true)
    (hclock : w.system.elapsed + s.keys.lifetime.toNanos < KeyStore.clockBound) :
    Contest s key (w.moved token party p' sys') := by
  obtain ⟨command, progress, reservedAt⟩ := party
  have hkey : command.key = key := h.keyed token _ hp
  cases (hall token _ hp : progress = _)
  cases ht with
  | granted hg =>
    have hwon : Won s token command (.reserving (some true)) (Job.decided command token w.system) :=
      .granted (hidle.of_same ⟨rfl, rfl, rfl⟩)
    refine h.of_standing hp rfl (KeyStore.reserve_lifetime ..) rfl ?_
    refine .won token _ w.system.elapsed (find?_moved_self ..) hwon (fun t q hne hq => ?_) h.elapsed
      (hkey ▸ KeyStore.covers_of_granted hg)
    rcases find?_moved hq with ⟨heq, -⟩ | ⟨-, hold⟩
    · exact absurd heq hne
    · rw [hall t q hold]
      trivial
  | taken htaken =>
    -- the key is free, so nobody is turned away
    have hyes := (KeyStore.reserve_taken_iff _ _ _ _).mp htaken
    rw [hkey, hfree] at hyes
    cases hyes
  | overflows ho => exact absurd ho (KeyStore.reserve_ne_overflow (h.lifetime ▸ hclock) _ _)
  | reserveFails | writeFails | panics | dropped | droppedLate => cases hm

/-- **A contest goes on.** The winner moves towards its commit, and everybody else is turned away as long
as the winner's reservation is live. -/
theorem Contest.moved (h : Contest s key w) {party : Party}
    (hp : w.parties.find? token = some party)
    (ht : Job.Transition party.command token w.system party.progress m p' sys')
    (hm : m.isSmooth = true)
    (hnew : ∀ id ∈ party.progress.drawn p', s.database.hasEvent id = false)
    (hlive : w.system.elapsed < s.elapsed + s.keys.lifetime.toNanos)
    (hclock : w.system.elapsed + s.keys.lifetime.toNanos < KeyStore.clockBound) :
    Contest s key (w.moved token party p' sys') := by
  have helapsed := ht.touches.elapsed
  have hlifetime := ht.touches.keys.lifetime
  cases h.standing with
  | undecided hidle hall hfree => exact h.decided hidle hall hfree hp ht hm hclock
  | won winner q since hq hwon hothers hsince hcovers =>
    have hlive' : w.system.keys.contains key w.system.elapsed = true := by
      refine hcovers.contains ?_
      rw [h.lifetime]
      exact Nat.lt_of_lt_of_le hlive (Nat.add_le_add_right hsince _)
    by_cases hw : token = winner
    · -- the winner: its own progress decides, and nobody else is concerned
      subst hw
      cases hp.symm.trans hq
      obtain ⟨hwon', hkeys, horphans⟩ := hwon.moved ht hm hnew
      refine h.of_standing hp helapsed hlifetime horphans ?_
      refine .won token (party.advanced p' w.system.elapsed) since (find?_moved_self ..) hwon'
        (fun t q hne hq => ?_) hsince ?_
      · rcases find?_moved hq with ⟨heq, -⟩ | ⟨-, hold⟩
        · exact absurd heq hne
        · exact hothers t q hne hold
      · show sys'.keys.Covers sys'.elapsed key token since
        rw [hkeys, helapsed]
        exact hcovers
    · -- anybody else: the key is live, so the step changes nothing that is shared
      obtain ⟨hlosing, hrows, hkeys, horphans⟩ :=
        losing_moved (hothers token party hw hp) ht hm (h.keyed token party hp ▸ hlive')
      refine h.of_standing hp helapsed hlifetime horphans ?_
      refine .won winner q since ?_ (hwon.of_same hrows) (fun t r hne hr => ?_) hsince ?_
      · exact (find?_moved_of_ne w (Ne.symm hw) ..).trans hq
      · rcases find?_moved hr with ⟨-, rfl⟩ | ⟨-, hold⟩
        · exact hlosing
        · exact hothers t r hne hold
      · show sys'.keys.Covers sys'.elapsed key winner since
        rw [hkeys, helapsed]
        exact hcovers

/-- A commit on its way is the winner's, and brings its rows in. -/
theorem Won.finishCommit (h : Won s winner c p sys) {place : Nat} {d : Detached}
    (hd : sys.detached[place]? = some d) : Won s winner c p (sys.finishCommit place) := by
  have nothing : sys.detached ≠ [] := fun hno => by
    rw [hno] at hd
    cases hd
  cases h with
  | granted h => exact absurd h.detached nothing
  | writes _ _ _ _ h => exact absurd h.detached nothing
  | paid _ _ _ _ _ hdetached => exact absurd hdetached nothing
  | sends id now hpayments hwritten hdetached =>
    -- only the winner's commit is on its way
    obtain rfl : place = 0 := by
      have hlt := (List.getElem?_eq_some_iff.mp hd).1
      rw [hdetached] at hlt
      exact Nat.lt_one_iff.mp hlt
    rw [hdetached] at hd
    cases hd
    simp only [System.finishCommit, hdetached, List.getElem?_cons_zero]
    refine .paid id now (.inl rfl) ?_ ?_ rfl
    · show sys.database.payments ++ _ = _
      rw [hpayments]
      rfl
    · show (sys.database.commit _).written = _
      rw [Database.written_commit, hwritten]
      rfl

/-- A contest goes on while the winner's commit is done without it. -/
theorem Contest.finishCommit (h : Contest s key w) {place : Nat} {d : Detached}
    (hd : w.system.detached[place]? = some d) :
    Contest s key (w.commitAs d.owner (w.system.finishCommit place)) := by
  have hsame : (w.system.finishCommit place).keys = w.system.keys ∧
      (w.system.finishCommit place).elapsed = w.system.elapsed ∧
      (w.system.finishCommit place).orphans = w.system.orphans := by
    simp only [System.finishCommit, hd]
    exact ⟨rfl, rfl, rfl⟩
  obtain ⟨hkeys, helapsed, horphans⟩ := hsame
  refine ⟨?_, ?_, h.keyed, fun t q hq ho => h.kept t q hq (by rwa [IsOrphan, ← horphans]), ?_⟩
  · show s.elapsed ≤ (w.system.finishCommit place).elapsed
    rw [helapsed]
    exact h.elapsed
  · show (w.system.finishCommit place).keys.lifetime = _
    rw [hkeys]
    exact h.lifetime
  · cases h.standing with
    | undecided hidle =>
      rw [hidle.detached] at hd
      cases hd
    | won winner p since hp hwon hothers hsince hcovers =>
      refine .won winner p since hp (hwon.finishCommit hd) hothers hsince ?_
      show (w.system.finishCommit place).keys.Covers (w.system.finishCommit place).elapsed key winner since
      rw [hkeys, helapsed]
      exact hcovers

/-- A contest goes on while an orphan is released: nobody who takes part has left a key behind. -/
theorem Contest.finishOrphan (h : Contest s key w) {place : Nat} {o : Orphan}
    (ho : w.system.orphans[place]? = some o) (isReleased : Bool) :
    Contest s key { w with system := w.system.finishOrphan place isReleased } := by
  have htouch := System.touches_finishOrphan ho isReleased
  have hmem : o ∈ w.system.orphans := List.mem_of_getElem? ho
  have hsame : SameRows w.system (w.system.finishOrphan place isReleased) ∧
      (w.system.finishOrphan place isReleased).orphans = w.system.orphans.eraseIdx place ∧
      ((w.system.finishOrphan place isReleased).keys = w.system.keys ∨
        (w.system.finishOrphan place isReleased).keys = w.system.keys.release o.key o.token) := by
    simp only [System.finishOrphan, ho]
    cases isReleased with
    | true => exact ⟨⟨rfl, rfl, rfl⟩, rfl, .inr rfl⟩
    | false => exact ⟨⟨rfl, rfl, rfl⟩, rfl, .inl rfl⟩
  obtain ⟨hrows, horphans, hkeys⟩ := hsame
  refine h.of_same rfl (Nat.le_of_eq htouch.elapsed.symm) hrows (fun t ht => ?_) htouch.keys.lifetime
    (fun hyes => ?_) (fun t p since hp hcovers => ?_)
  · rw [IsOrphan, horphans] at ht
    exact ((List.eraseIdx_sublist _ _).map _).subset ht
  · replace hyes : (w.system.finishOrphan place isReleased).keys.contains key w.system.elapsed = true :=
      htouch.elapsed ▸ hyes
    rcases hkeys with hkept | hreleased
    · rwa [hkept] at hyes
    · rw [hreleased] at hyes
      exact KeyStore.contains_of_release hyes
  · have hne : o.token ≠ t := fun heq => h.kept t p hp (heq ▸ List.mem_map_of_mem hmem)
    show (w.system.finishOrphan place isReleased).keys.Covers
      (w.system.finishOrphan place isReleased).elapsed key t since
    rw [htouch.elapsed]
    exact hcovers.touched htouch.keys hne

/-- **A contest holds step by step**, as long as the keys reserved in it are live and the clock reaches
to their end. -/
theorem Contest.step {a : Action} (h : Contest s key w) (ha : a.isContest key = true)
    (hstep : w.step a = some w') (hnew : ∀ id ∈ w'.drawn, s.database.hasEvent id = false)
    (hlive : w.system.elapsed < s.elapsed + s.keys.lifetime.toNanos)
    (hclock : w.system.elapsed + s.keys.lifetime.toNanos < KeyStore.clockBound) :
    Contest s key w' := by
  cases change_of_step hstep with
  | advance nanos =>
    exact h.of_same rfl (Nat.le_add_right ..) ⟨rfl, rfl, rfl⟩ (fun _ => id) rfl
      (KeyStore.contains_of_later (Nat.le_add_right ..))
      fun _ _ _ _ hcovers => hcovers.later (Nat.le_add_right ..)
  | enter c token htoken => exact h.entered (beq_iff_eq.mp ha) htoken
  | move token m p progress sys hp ht =>
    exact h.moved hp ht ha (fun id hid => hnew id (List.mem_append_right _ hid)) hlive hclock
  | finishCommit place d hd => exact h.finishCommit hd
  | finishOrphan place isReleased o ho => exact h.finishOrphan ho isReleased
  | elsewhere a w' _ hparties hauthors _ hsystem =>
    have hkeys := hsystem.keys
    have helapsed := hsystem.elapsed
    refine h.of_same hparties (Nat.le_of_eq helapsed.symm)
      ⟨hsystem.payments, hsystem.written, hsystem.detached⟩ (fun t ht => ?_) (by rw [hkeys])
      (fun hyes => ?_) (fun _ _ _ _ hcovers => ?_)
    · rwa [IsOrphan, hsystem.orphans] at ht
    · rwa [hkeys, helapsed] at hyes
    · rwa [hkeys, helapsed]

/-- An id that was drawn stays drawn. -/
theorem drawn_subset_of_step {a : Action} (hstep : w.step a = some w') : w.drawn ⊆ w'.drawn := by
  cases change_of_step hstep with
  | move => exact List.subset_append_left ..
  | elsewhere a w' _ _ _ hdrawn => exact hdrawn ▸ List.Subset.refl _
  | _ => exact List.Subset.refl _

/-- A contest holds throughout a run that ends while the keys reserved in it are live. -/
theorem contest_run {as : List Action} (hfree : s.keys.contains key s.elapsed = false)
    (hdetached : s.detached = []) (has : ∀ a ∈ as, a.isContest key = true)
    (hrun : (opening s).run as = some w) (hnew : ∀ id ∈ w.drawn, s.database.hasEvent id = false)
    (hlive : w.system.elapsed < s.elapsed + s.keys.lifetime.toNanos)
    (hclock : w.system.elapsed + s.keys.lifetime.toNanos < KeyStore.clockBound) :
    Contest s key w := by
  have hopening : Contest s key (opening s) :=
    ⟨Nat.le_refl _, rfl, fun _ _ hp => absurd hp find?_opening, fun _ _ hp => absurd hp find?_opening,
      .undecided ⟨rfl, rfl, hdetached⟩ (fun _ _ hp => absurd hp find?_opening) hfree⟩
  -- a world is in the contest if it is early enough, and what comes later was earlier before
  refine (run_keeps (P := fun w rest => ((∀ id ∈ w.drawn, s.database.hasEvent id = false) →
      w.system.elapsed < s.elapsed + s.keys.lifetime.toNanos →
      w.system.elapsed + s.keys.lifetime.toNanos < KeyStore.clockBound → Contest s key w) ∧
      ∀ a ∈ rest, a.isContest key = true)
    (fun w a rest w' hw hstep => ?_) ⟨fun _ _ _ => hopening, has⟩ hrun).1 hnew hlive hclock
  obtain ⟨hcontest, hcalm⟩ := hw
  have hle := elapsed_le_of_step hstep
  refine ⟨fun hn hl hc => ?_, fun b hb => hcalm b (List.mem_cons_of_mem a hb)⟩
  have hl' := Nat.lt_of_le_of_lt hle hl
  have hc' := Nat.lt_of_le_of_lt (Nat.add_le_add_right hle _) hc
  have hn' := fun id hid => hn id (drawn_subset_of_step hstep hid)
  exact (hcontest hn' hl' hc').step (hcalm a List.mem_cons_self) hstep hn hl' hc'

end World

end PaymentRelay
