import PaymentRelay.Proofs.Command.Completion
import PaymentRelay.Proofs.Http.Resolution

/-!
# Requests and their answers

A request is answered at once, or a command is served for it and the outcome of the command is the answer.
`Job.Alone` follows a command while nothing else is at work on the system: the command takes steps, time passes,
and a commit that goes on without the command is finished. The stores may fail at every call and with every
error (`Job.Meets`). Only two things are left out: the command is not dropped, as it is when a request takes too
long, and a commit that is reported to have failed has failed.

`Job.Along` tells for every point on the way what has happened so far and what the command has left in the
system. It is kept by every step (`Along.step`), so it holds wherever a command has got to (`along_of_alone`),
and the laws of the exchange are read off its last four cases.
-/

namespace PaymentRelay

/-- Whether an error is a verdict on a request. The errors of stores are none. -/
def PaymentError.isVerdict : PaymentError → Bool
  | .refused _ | .duplicatePayment | .unauthenticated _ => true
  | _ => false

namespace Job

/-- Whether a store fails, or the command is dropped. -/
def Move.isFault : Move → Bool
  | .reserveFails _ | .writeFails _ | .writePanics _ | .commitFails .. | .releaseFails | .drop _ => true
  | _ => false

/-- What can happen to a command that is waited for and whose stores report no failure of a commit that has
taken place. -/
def Meets : Progress → Move → Prop
  | _, .drop _ | .awaitingCommit _, .commitFails .. => False
  | _, .commitFails error isDurable => error.isVerdict = false ∧ isDurable = false
  | _, .reserveFails error | _, .writeFails error => error.isVerdict = false
  | _, _ => True

/-- No store has failed a command, and the id that was drawn for its event was new to the outbox. -/
structure Faultless (s : System) (ms : List Move) : Prop where
  noFault : ∀ m ∈ ms, m.isFault = false
  new : ∀ id, .reply id ∈ ms → s.database.hasEvent id = false

/-- A command is served while nothing else is at work on the system, which is `s` when the key store is first
asked. The list has all that has happened to the command. -/
inductive Alone (c : PaymentCommand) (token : Uuid) (s : System) : List Move → Progress → System → Prop
  | start : Alone c token s [] (.reserving none) s
  | step {ms : List Move} {m : Move} {p p' : Progress} {s₁ s₂ : System} (h : Alone c token s ms p s₁)
      (hm : Meets p m) (hstep : Job.step ⟨c, token, p⟩ m s₁ = some (⟨c, token, p'⟩, s₂)) :
      Alone c token s (ms ++ [m]) p' s₂
  | wait {ms : List Move} {p : Progress} {s₁ : System} (h : Alone c token s ms p s₁)
      (hasked : p ≠ .reserving none) (nanos : Nat) : Alone c token s ms p (s₁.advance nanos)
  | finish {ms : List Move} {id : Uuid} {s₁ : System} {t : Transaction} {place : Nat}
      (h : Alone c token s ms (.awaitingCommit id) s₁) (hplace : s₁.detached[place]? = some ⟨token, t⟩) :
      Alone c token s ms (.awaitingCommit id) (s₁.finishCommit place)

variable {c : PaymentCommand} {token id : Uuid} {now : Instant} {s s₁ s₂ : System} {p p' : Progress} {m : Move}
  {ms : List Move} {error : PaymentError} {outcome : Outcome}

/-! ## How far a command has come -/

/-- The key was granted to the command and is held by it. -/
structure Holding (c : PaymentCommand) (token : Uuid) (s s₁ : System) : Prop where
  granted : (s.keys.reserve c.key token s.elapsed).1 = .granted
  keys : s₁.keys = (s.keys.reserve c.key token s.elapsed).2

/-- The key was granted to the command and nothing else has been done. -/
structure Ready (c : PaymentCommand) (token : Uuid) (s s₁ : System) : Prop extends Holding c token s s₁ where
  database : s₁.database = s.database
  detached : s₁.detached = s.detached

/-- The key was taken and nothing has been done. -/
structure Turned (c : PaymentCommand) (s s₁ : System) : Prop where
  live : s.keys.contains c.key s.elapsed = true
  keys : s₁.keys = s.keys
  database : s₁.database = s.database

/-- A store has failed the command, which has written nothing. -/
structure Fails (s : System) (ms : List Move) (error : PaymentError) (s₁ : System) : Prop where
  fault : ¬ Faultless s ms
  error : error.isVerdict = false
  database : s₁.database = s.database

/-- The rows of the command are in the database. -/
structure Written (c : PaymentCommand) (token id : Uuid) (now : Instant) (s : System) (ms : List Move)
    (s₁ : System) : Prop extends Holding c token s s₁ where
  faultless : Faultless s ms
  database : s₁.database = s.database.commit (.ofCommand c id now)

/-- What has happened to a command up to some progress, and what it has left in the system. -/
inductive Along (c : PaymentCommand) (token : Uuid) (s : System) : List Move → Progress → System → Prop
  | asking : Along c token s [] (.reserving none) s
  | granted {s₁ : System} (h : Ready c token s s₁) : Along c token s [.reserve] (.reserving (some true)) s₁
  | taken {s₁ : System} (h : Turned c s s₁) : Along c token s [.reserve] (.reserving (some false)) s₁
  | writing {ms : List Move} {p : Progress} {s₁ : System} {id : Uuid} {now : Instant} (h : Ready c token s s₁)
      (hp : p.IsWriting) (hrows : p.InHand c id now) (hfault : ∀ m ∈ ms, m.isFault = false)
      (hid : ∀ other, .reply other ∈ ms ↔ other = id) : Along c token s ms p s₁
  | committing {ms : List Move} {s₁ : System} {id : Uuid} {now : Instant} (h : Ready c token s s₁)
      (hms : Faultless s ms) : Along c token s ms (.committing id (.ofCommand c id now)) s₁
  | waiting {ms : List Move} {s₁ : System} {id : Uuid} {now : Instant} (h : Holding c token s s₁)
      (hms : Faultless s ms) (hdb : s₁.database = s.database)
      (hdetached : s₁.detached = s.detached ++ [⟨token, .ofCommand c id now⟩]) :
      Along c token s ms (.awaitingCommit id) s₁
  | finished {ms : List Move} {s₁ : System} {id : Uuid} {now : Instant} (h : Written c token id now s ms s₁)
      (hdetached : s₁.detached = s.detached) : Along c token s ms (.awaitingCommit id) s₁
  | failing {ms : List Move} {s₁ : System} {error : PaymentError} (h : Fails s ms error s₁) :
      Along c token s ms (.releasing error) s₁
  | accepted {ms : List Move} {s₁ : System} {id : Uuid} {now : Instant} (h : Written c token id now s ms s₁) :
      Along c token s ms (.ended (.accepted id)) s₁
  | rejected {ms : List Move} {s₁ : System} (h : Turned c s s₁) :
      Along c token s ms (.ended (.failed .duplicatePayment)) s₁
  | failed {ms : List Move} {s₁ : System} {error : PaymentError} (h : Fails s ms error s₁) :
      Along c token s ms (.ended (.failed error)) s₁
  | brokeDown {ms : List Move} {s₁ : System}
      (h : (∃ hasRuntime, .writePanics hasRuntime ∈ ms) ∨
        KeyStore.clockBound ≤ s.elapsed + s.keys.lifetime.toNanos) :
      Along c token s ms (.ended .panicked) s₁

/-! ## What has happened so far -/

/-- One thing more that is neither a fault nor the reply of the key store. -/
theorem Faultless.append (h : Faultless s ms) (hm : m.isFault = false) (hreply : ∀ id, m ≠ .reply id) :
    Faultless s (ms ++ [m]) := by
  refine ⟨fun other hother => ?_, fun id hid => ?_⟩
  · obtain hother | rfl := List.mem_append.mp hother |>.imp_right List.mem_singleton.mp
    · exact h.noFault other hother
    · exact hm
  · obtain hid | hid := List.mem_append.mp hid |>.imp_right List.mem_singleton.mp
    · exact h.new id hid
    · exact absurd hid.symm (hreply id)

theorem not_faultless_of_fault (hm : m.isFault = true) : ¬ Faultless s (ms ++ [m]) := fun h => by
  have hno := h.noFault m (List.mem_append_right _ (List.mem_singleton_self m))
  rw [hm] at hno
  cases hno

theorem not_faultless_append (h : ¬ Faultless s ms) : ¬ Faultless s (ms ++ [m]) := fun hall =>
  h ⟨fun other hother => hall.noFault other (List.mem_append_left _ hother),
    fun id hid => hall.new id (List.mem_append_left _ hid)⟩

/-- A store that refuses an event has its id already. -/
theorem not_faultless_of_old (hid : .reply id ∈ ms) (hold : s.database.hasEvent id = true) :
    ¬ Faultless s (ms ++ [m]) := fun h => by
  have hnew := h.new id (List.mem_append_left _ hid)
  rw [hold] at hnew
  cases hnew

/-! ## One step -/

theorem Along.step_asking (hm : Meets (.reserving none) m) (ht : Transition c token s (.reserving none) m p' s₁) :
    Along c token s [m] p' s₁ := by
  cases ht with
  | granted hg => exact .granted ⟨⟨hg, rfl⟩, rfl, rfl⟩
  | taken htaken =>
    have hlive := (KeyStore.reserve_taken_iff ..).mp htaken
    refine .taken ⟨hlive, ?_, rfl⟩
    show (s.keys.reserve c.key token s.elapsed).2 = s.keys
    simp only [KeyStore.reserve, hlive, if_true]
  | overflows ho =>
    refine .brokeDown (.inr (Nat.le_of_not_lt fun hlt => ?_))
    exact KeyStore.reserve_ne_overflow hlt c.key token ho
  | reserveFails decision error =>
    have hfault : ¬ Faultless s ([] ++ [.reserveFails error]) := not_faultless_of_fault rfl
    exact .failing ⟨hfault, hm, rfl⟩
  | writeFails _ hp | panics _ hp | droppedLate _ hp => exact hp.elim
  | dropped => exact hm.elim

theorem Along.step_granted (h : Ready c token s s₁) (hm : Meets (.reserving (some true)) m)
    (ht : Transition c token s₁ (.reserving (some true)) m p' s₂) : Along c token s ([.reserve] ++ [m]) p' s₂ := by
  cases ht with
  | accepts id =>
    have hrows : Progress.InHand c id s₁.now (.writingPayment (.ofCommand c s₁.now)
        (.record (Payment.ofCommand c s₁.now).succeeded id s₁.now)) := ⟨rfl, rfl⟩
    refine .writing ⟨⟨h.granted, h.keys⟩, h.database, h.detached⟩ trivial hrows ?_ ?_
    · intro m hm
      obtain rfl | hm := List.mem_cons.mp hm
      · rfl
      · cases List.mem_singleton.mp hm
        rfl
    · intro other
      constructor
      · intro hother
        obtain hother | hother := List.mem_cons.mp hother
        · cases hother
        · cases List.mem_singleton.mp hother
          rfl
      · rintro rfl
        exact List.mem_append_right _ (List.mem_singleton_self _)
  | reserveFails decision error => exact .failing ⟨not_faultless_of_fault rfl, hm, h.database⟩
  | writeFails _ hp | panics _ hp | droppedLate _ hp => exact hp.elim
  | dropped => exact hm.elim

theorem Along.step_taken (h : Turned c s s₁) (hm : Meets (.reserving (some false)) m)
    (ht : Transition c token s₁ (.reserving (some false)) m p' s₂) :
    Along c token s ([.reserve] ++ [m]) p' s₂ := by
  cases ht with
  | rejects id => exact .rejected ⟨h.live, h.keys, h.database⟩
  | reserveFails decision error => exact .failing ⟨not_faultless_of_fault rfl, hm, h.database⟩
  | writeFails _ hp | panics _ hp | droppedLate _ hp => exact hp.elim
  | dropped => exact hm.elim

theorem Along.step_writing (h : Ready c token s s₁) (hp : p.IsWriting) (hrows : p.InHand c id now)
    (hfault : ∀ m ∈ ms, m.isFault = false) (hid : ∀ other, .reply other ∈ ms ↔ other = id) (hm : Meets p m)
    (ht : Transition c token s₁ p m p' s₂) : Along c token s (ms ++ [m]) p' s₂ := by
  cases ht with
  | writesPayment payment event =>
    refine .writing h trivial ⟨hrows.2, by rw [hrows.1]⟩ (fun m hm => ?_) fun other => ?_
    · obtain hm | hm := List.mem_append.mp hm
      · exact hfault m hm
      · cases List.mem_singleton.mp hm
        rfl
    · rw [List.mem_append, List.mem_singleton, hid]
      exact ⟨fun hother => hother.resolve_right nofun, .inl⟩
  | writesEvent event t t' hok =>
    obtain ⟨rfl, rfl⟩ := hrows
    obtain ⟨rfl, hnew⟩ := Database.insertEvent_eq_ok hok
    rw [h.database] at hnew
    have hms : Faultless s ms := ⟨hfault, fun other hother => (hid other).mp hother ▸ hnew⟩
    exact .committing h (hms.append rfl nofun)
  | eventRefused event t error herror =>
    obtain ⟨rfl, rfl⟩ := hrows
    -- the transaction holds no event yet, so the id is in the table
    obtain ⟨rfl, hold | hold⟩ := Database.insertEvent_eq_error herror
    · cases hold
    · rw [h.database] at hold
      exact .failing ⟨not_faultless_of_old ((hid id).mpr rfl) hold, rfl, h.database⟩
  | writeFails _ _ error =>
    refine .failing ⟨not_faultless_of_fault rfl, ?_, h.database⟩
    cases p <;> exact hm
  | panics _ _ hasRuntime =>
    exact .brokeDown (.inl ⟨hasRuntime, List.mem_append_right _ (List.mem_singleton_self _)⟩)
  | dropped => cases p <;> exact hm.elim
  | droppedLate _ hlate => cases p <;> first | exact hp.elim | exact hlate.elim
  | _ => exact hp.elim

theorem Along.step_committing (h : Ready c token s s₁) (hms : Faultless s ms)
    (hm : Meets (.committing id (.ofCommand c id now)) m)
    (ht : Transition c token s₁ (.committing id (.ofCommand c id now)) m p' s₂) :
    Along c token s (ms ++ [m]) p' s₂ := by
  cases ht with
  | commits =>
    have hdb : s₁.database.commit (.ofCommand c id now) = s.database.commit (.ofCommand c id now) :=
      congrArg (Database.commit · _) h.database
    exact .accepted ⟨⟨h.granted, h.keys⟩, hms.append rfl nofun, hdb⟩
  | detaches =>
    exact .waiting ⟨h.granted, h.keys⟩ (hms.append rfl nofun) h.database (congrArg (· ++ _) h.detached)
  | commitFails _ _ error isDurable =>
    obtain ⟨herror, rfl⟩ := hm
    exact .failing ⟨not_faultless_of_fault rfl, herror, h.database⟩
  | writeFails _ hp | panics _ hp | dropped _ hp => exact hp.elim
  | droppedLate => exact hm.elim

/-- A command that waits for its commit can only wait. -/
theorem not_step_of_waiting {t : Transaction} (hdetached : s₁.detached = s.detached ++ [⟨token, t⟩])
    (hm : Meets (.awaitingCommit id) m) : ¬ Transition c token s₁ (.awaitingCommit id) m p' s₂ := by
  intro ht
  cases ht with
  | acknowledged _ hnone =>
    simp only [System.isDetached, hdetached, List.any_append, List.any_cons, beq_self_eq_true, Bool.true_or,
      Bool.or_true, reduceCtorEq] at hnone
  | commitLost => exact hm
  | writeFails _ hp | panics _ hp | dropped _ hp => exact hp.elim
  | droppedLate => exact hm.elim

/-- **Every step keeps account.** -/
theorem Along.step (h : Along c token s ms p s₁) (hm : Meets p m)
    (ht : Transition c token s₁ p m p' s₂) : Along c token s (ms ++ [m]) p' s₂ := by
  cases h with
  | asking => exact step_asking hm ht
  | granted h => exact step_granted h hm ht
  | taken h => exact step_taken h hm ht
  | writing h hp hrows hfault hid => exact step_writing h hp hrows hfault hid hm ht
  | committing h hms => exact step_committing h hms hm ht
  | waiting h hms hdb hdetached => exact absurd ht (not_step_of_waiting hdetached hm)
  | finished h =>
    cases ht with
    | acknowledged =>
      exact .accepted ⟨⟨h.granted, h.keys⟩, h.faultless.append rfl nofun, h.database⟩
    | commitLost => exact hm.elim
    | writeFails _ hp | panics _ hp | dropped _ hp => exact hp.elim
    | droppedLate => exact hm.elim
  | failing h =>
    cases ht with
    | releases => exact .failed ⟨not_faultless_append h.fault, h.error, h.database⟩
    | releaseFails => exact .failed ⟨not_faultless_append h.fault, h.error, h.database⟩
    | writeFails _ hp | panics _ hp | dropped _ hp | droppedLate _ hp => exact hp.elim
    | droppedReleasing => exact hm.elim
  | accepted | rejected | failed | brokeDown =>
    cases ht with
    | writeFails _ hp | panics _ hp | dropped _ hp | droppedLate _ hp => exact hp.elim

/-- Time that passes changes nothing but the time. -/
theorem Along.wait (h : Along c token s ms p s₁) (hasked : p ≠ .reserving none) (nanos : Nat) :
    Along c token s ms p (s₁.advance nanos) := by
  cases h with
  | asking => exact absurd rfl hasked
  | granted h => exact .granted ⟨⟨h.granted, h.keys⟩, h.database, h.detached⟩
  | taken h => exact .taken ⟨h.live, h.keys, h.database⟩
  | writing h hp hrows hfault hid =>
    exact .writing ⟨⟨h.granted, h.keys⟩, h.database, h.detached⟩ hp hrows hfault hid
  | committing h hms => exact .committing ⟨⟨h.granted, h.keys⟩, h.database, h.detached⟩ hms
  | waiting h hms hdb hdetached => exact .waiting ⟨h.granted, h.keys⟩ hms hdb hdetached
  | finished h hdetached => exact .finished ⟨⟨h.granted, h.keys⟩, h.faultless, h.database⟩ hdetached
  | failing h => exact .failing ⟨h.fault, h.error, h.database⟩
  | accepted h => exact .accepted ⟨⟨h.granted, h.keys⟩, h.faultless, h.database⟩
  | rejected h => exact .rejected ⟨h.live, h.keys, h.database⟩
  | failed h => exact .failed ⟨h.fault, h.error, h.database⟩
  | brokeDown h => exact .brokeDown h

/-- A commit on its way with the token of the command is the one the command has begun. -/
theorem place_of_waiting {t t' : Transaction} {place : Nat} (hfresh : s.isDetached token = false)
    (hplace : (s.detached ++ [⟨token, t⟩])[place]? = some ⟨token, t'⟩) : t' = t ∧ place = s.detached.length := by
  by_cases hlt : place < s.detached.length
  · rw [List.getElem?_append_left hlt] at hplace
    have howned : s.isDetached token = true :=
      List.any_eq_true.mpr ⟨_, List.mem_of_getElem? hplace, beq_self_eq_true token⟩
    rw [hfresh] at howned
    cases howned
  · rw [List.getElem?_append_right (Nat.le_of_not_lt hlt)] at hplace
    have hzero : place - s.detached.length < 1 := (List.getElem?_eq_some_iff.mp hplace).1
    cases List.mem_singleton.mp (List.mem_of_getElem? hplace)
    exact ⟨rfl, by omega⟩

/-- Once it is finished, the commits on their way are those that were there before. -/
theorem finishCommit_of_waiting {t t' : Transaction} {place : Nat} (hfresh : s.isDetached token = false)
    (hdetached : s₁.detached = s.detached ++ [⟨token, t⟩]) (hplace : s₁.detached[place]? = some ⟨token, t'⟩) :
    s₁.finishCommit place = { s₁.commit t with detached := s.detached } := by
  rw [hdetached] at hplace
  obtain ⟨rfl, rfl⟩ := place_of_waiting hfresh hplace
  have herase : s₁.detached.eraseIdx s.detached.length = s.detached := by
    rw [hdetached, List.eraseIdx_append_of_length_le (Nat.le_refl _), Nat.sub_self]
    exact List.append_nil _
  rw [← hdetached] at hplace
  rw [System.finishCommit, hplace]
  simp only [herase]

/-- A command has no commit on its way where the commits on their way are those that were there before. -/
theorem not_mem_of_fresh {t : Transaction} {place : Nat} (hfresh : s.isDetached token = false)
    (hdetached : s₁.detached = s.detached) : s₁.detached[place]? ≠ some ⟨token, t⟩ := fun hplace => by
  have howned : s.isDetached token = true :=
    List.any_eq_true.mpr ⟨_, hdetached ▸ List.mem_of_getElem? hplace, beq_self_eq_true token⟩
  rw [hfresh] at howned
  cases howned

/-- The commit that went on by itself is finished. -/
theorem Along.finish {t : Transaction} {place : Nat} (hfresh : s.isDetached token = false)
    (h : Along c token s ms (.awaitingCommit id) s₁) (hplace : s₁.detached[place]? = some ⟨token, t⟩) :
    Along c token s ms (.awaitingCommit id) (s₁.finishCommit place) := by
  cases h with
  | writing _ hp => exact hp.elim
  | waiting h hms hdb hdetached =>
    rw [finishCommit_of_waiting hfresh hdetached hplace]
    exact .finished ⟨⟨h.granted, h.keys⟩, hms, congrArg (Database.commit · _) hdb⟩ rfl
  | finished h hdetached => exact absurd hplace (not_mem_of_fresh hfresh hdetached)

/-- **Wherever a command has got to**, account is kept. -/
theorem along_of_alone (hfresh : s.isDetached token = false) (h : Alone c token s ms p s₁) :
    Along c token s ms p s₁ := by
  induction h with
  | start => exact .asking
  | step _ hm hstep ih =>
    obtain ⟨_, hp', ht⟩ := transition_of_step hstep
    cases hp'
    exact ih.step hm ht
  | wait _ hasked nanos ih => exact ih.wait hasked nanos
  | finish _ hplace ih => exact ih.finish hfresh hplace

/-! ## Every command comes to its end -/

/-- The course on which nothing fails. -/
def Course.smooth (id : Uuid) : Course := ⟨id, none, none, none, true, fun _ => 0⟩

/-- What happens to a command on that course is no fault. -/
theorem Course.smooth_move (h : (Course.smooth id).move? p = some m) :
    Meets p m ∧ m.isFault = false ∧ ∀ other, m = .reply other → other = id := by
  cases p with
  | reserving decision =>
    cases decision with
    | none => cases h; exact ⟨trivial, rfl, nofun⟩
    | some => cases h; exact ⟨trivial, rfl, fun other hother => (Move.reply.inj hother).symm⟩
  | awaitingCommit => cases h
  | ended => cases h
  | _ => cases h; exact ⟨trivial, rfl, nofun⟩

/-- A command whose commit goes on by itself is accepted in the end. -/
theorem accepted_of_awaiting (hfresh : s.isDetached token = false)
    (h : Alone c token s ms (.awaitingCommit id) s₁) :
    ∃ s₂, Alone c token s (ms ++ [.acknowledge]) (.ended (.accepted id)) s₂ := by
  have hends : ∀ s₂, s₂.isDetached token = false → Alone c token s ms (.awaitingCommit id) s₂ →
      ∃ s₃, Alone c token s (ms ++ [.acknowledge]) (.ended (.accepted id)) s₃ :=
    fun s₂ hnone h => ⟨_, h.step trivial (step_of_transition (.acknowledged id hnone))⟩
  cases along_of_alone hfresh h with
  | writing _ hp => exact hp.elim
  | finished _ hdetached => exact hends s₁ (by rwa [System.isDetached, hdetached]) h
  | @waiting _ _ _ now hkey hms hdb hdetached =>
    have hplace : s₁.detached[s.detached.length]? = some ⟨token, .ofCommand c id now⟩ := by
      rw [hdetached, List.getElem?_append_right (Nat.le_refl _), Nat.sub_self]
      rfl
    refine hends _ ?_ (h.finish hplace)
    rw [finishCommit_of_waiting hfresh hdetached hplace]
    exact hfresh

/-- **Every command comes to its end**, whatever has happened to it, once nothing fails any more. -/
theorem ends_of_alone (hfresh : s.isDetached token = false) (id : Uuid) {ms : List Move} {p : Progress} {s₁ : System}
    (h : Alone c token s ms p s₁) :
    ∃ rest outcome s₂, Alone c token s (ms ++ rest) (.ended outcome) s₂ ∧
      ∀ m ∈ rest, m.isFault = false ∧ ∀ other, m = .reply other → other = id := by
  by_cases hawaits : ∃ other, p = .awaitingCommit other
  · obtain ⟨other, rfl⟩ := hawaits
    obtain ⟨s₂, hend⟩ := accepted_of_awaiting hfresh h
    refine ⟨_, _, s₂, hend, fun m hm => ?_⟩
    cases List.mem_singleton.mp hm
    exact ⟨rfl, nofun⟩
  · by_cases hopen : ∃ outcome, p = .ended outcome
    · obtain ⟨outcome, rfl⟩ := hopen
      exact ⟨[], outcome, s₁, by rwa [List.append_nil], nofun⟩
    · by_cases hpanics : p = .reserving none ∧ (s₁.keys.reserve c.key token s₁.elapsed).1 = .overflow
      · obtain ⟨rfl, ho⟩ := hpanics
        have hmeets : Meets (.reserving none) (.reservePanics true) := trivial
        refine ⟨_, .panicked, _, h.step hmeets (step_of_transition (.overflows ho true)), fun m hm => ?_⟩
        cases List.mem_singleton.mp hm
        exact ⟨rfl, nofun⟩
      obtain ⟨m, p', s₂, hm, ht, hcommit, -⟩ := (Course.smooth id).exists_step c token s₁
        (fun o ho => hopen ⟨o, ho⟩) (fun o ho => hawaits ⟨o, ho⟩) fun hp _ ho => hpanics ⟨hp, ho⟩
      obtain ⟨hmeets, hquiet⟩ := Course.smooth_move hm
      have hlt : p'.left < p.left := ht.left_lt hcommit
      obtain ⟨rest, outcome, s₃, hend, hrest⟩ :=
        ends_of_alone hfresh id (h.step hmeets (step_of_transition ht))
      refine ⟨m :: rest, outcome, s₃, by rwa [List.append_cons], fun other hother => ?_⟩
      obtain rfl | hother := List.mem_cons.mp hother
      · exact hquiet
      · exact hrest other hother
termination_by p.left

end Job

/-! ## Requests -/

/-- The system in which a failure was reported that is answered without its wording. -/
def System.noted (s : System) : Outcome → System
  | .failed e => match Response.report? e with
    | some entry => s.log entry
    | none => s
  | _ => s

/-- A request is sent to the system `s` and answered, or the service of it breaks down and leaves it without an
answer. The list has all that has happened to its command, which goes by the token. -/
inductive Request.Exchange (r : Request) (token : Uuid) (s : System) :
    List Job.Move → Option Response → System → Prop
  | atOnce {response : Response} (h : r.resolve = .error response) : Exchange r token s [] (some response) s
  | afterwards {c : PaymentCommand} {ms : List Job.Move} {outcome : Outcome} {s' : System}
      (h : r.resolve = .ok c) (hserved : Job.Alone c token s ms (.ended outcome) s') :
      Exchange r token s ms (Response.ofOutcome? outcome) (s'.noted outcome)

/-! ## The law -/

section

variable {r : Request} {c : PaymentCommand} {token : Uuid} {s s' : System} {ms : List Job.Move}
  {answer : Option Response} {response : Response} {outcome : Outcome} {e : PaymentError}

/-- The answer to a request for which a store has failed. -/
def Response.outOfOrder : Response := .error 500 "internal_error" "failed to process payment"

theorem Response.ofError_of_not_verdict (h : e.isVerdict = false) : ofError e = outOfOrder := by
  cases e with
  | refused | duplicatePayment | unauthenticated => cases h
  | _ => rfl

theorem System.noted_database (s : System) (outcome : Outcome) : (s.noted outcome).database = s.database := by
  cases outcome with
  | failed e => cases e <;> rfl
  | _ => rfl

/-- How a request can be answered. -/
inductive Request.Answered (r : Request) (token : Uuid) (s : System) (ms : List Job.Move) :
    Option Response → System → Prop
  | atOnce {response : Response} (hnone : ∀ c, ¬ r.Pays c)
      (h : response.status ∈ [200, 400, 404, 405] ∨ response = .stranger) : Answered r token s ms (some response) s
  | accepted {c : PaymentCommand} {id : Uuid} {now : Instant} {s' : System} (hpays : r.Pays c)
      (h : Job.Written c token id now s ms s') : Answered r token s ms (some .accepted) s'
  | rejected {c : PaymentCommand} {s' : System} (hpays : r.Pays c) (h : Job.Turned c s s') :
      Answered r token s ms (some (.ofError .duplicatePayment)) s'
  | failed {s' : System} (hfault : ¬ Job.Faultless s ms) (hdb : s'.database = s.database) :
      Answered r token s ms (some .outOfOrder) s'
  | brokeDown {s' : System}
      (h : (∃ hasRuntime, .writePanics hasRuntime ∈ ms) ∨
        KeyStore.clockBound ≤ s.elapsed + s.keys.lifetime.toNanos) :
      Answered r token s ms none s'

/-- Every answer is one of these. -/
theorem Request.answered_of_exchange (hfresh : s.isDetached token = false)
    (h : r.Exchange token s ms answer s') : r.Answered token s ms answer s' := by
  cases h with
  | atOnce h =>
    refine .atOnce (fun c hpays => ?_) ((response_of_resolve h).imp_right And.left)
    cases h.symm.trans (resolve_eq_ok_iff.mpr hpays)
  | @afterwards c _ outcome s₁ h hserved =>
    have hpays := resolve_eq_ok_iff.mp h
    cases Job.along_of_alone hfresh hserved with
    | writing _ hp => exact hp.elim
    | accepted h => exact .accepted hpays h
    | rejected h => exact .rejected hpays h
    | @failed _ _ e h =>
      rw [Response.ofOutcome?, Response.ofError_of_not_verdict h.error]
      exact .failed h.fault ((s₁.noted_database _).trans h.database)
    | brokeDown h => exact .brokeDown h

/-- A payment that was written is held by its key. -/
theorem Job.Written.held {id : Uuid} {now : Instant} (h : Job.Written c token id now s ms s') :
    s'.keys.held? c.key = some ⟨token, s.elapsed + s.keys.lifetime.toNanos⟩ := by
  rw [h.keys, KeyStore.held?_reserve h.granted, if_pos rfl]

/-- A payment that was written found its key free. -/
theorem Job.Written.free {id : Uuid} {now : Instant} (h : Job.Written c token id now s ms s') :
    s.keys.contains c.key s.elapsed = false := by
  refine Bool.eq_false_iff.mpr fun hlive => ?_
  cases h.granted.symm.trans ((KeyStore.reserve_taken_iff ..).mpr hlive)

/-- A request is the request of one command. -/
theorem Request.Pays.unique {c' : PaymentCommand} (h : r.Pays c) (h' : r.Pays c') : c' = c := by
  have heq := (resolve_eq_ok_iff.mpr h').symm.trans (resolve_eq_ok_iff.mpr h)
  exact Except.ok.inj heq

theorem Request.Answered.status (h : r.Answered token s ms (some response) s') :
    response.status ∈ [200, 202, 400, 401, 404, 405, 409, 500] := by
  cases h with
  | atOnce _ h =>
    obtain h | rfl := h
    · have hmore : [200, 400, 404, 405] ⊆ [200, 202, 400, 401, 404, 405, 409, 500] := by decide
      exact hmore h
    · exact by decide
  | accepted | rejected | failed => exact by decide

/-- **Accepted or not.** -/
theorem Request.Answered.status_eq_accepted_iff (h : r.Answered token s ms (some response) s') :
    response.status = 202 ↔
      ∃ c, r.Pays c ∧ s.keys.contains c.key s.elapsed = false ∧ Job.Faultless s ms := by
  cases h with
  | atOnce hnone h =>
    refine ⟨fun hstatus => ?_, fun ⟨c, hpays, _⟩ => absurd hpays (hnone c)⟩
    obtain h | rfl := h
    · rw [hstatus] at h
      exact absurd h (by decide)
    · exact absurd hstatus (by decide)
  | accepted hpays h => exact ⟨fun _ => ⟨_, hpays, h.free, h.faultless⟩, fun _ => rfl⟩
  | rejected hpays h =>
    refine ⟨nofun, fun ⟨c, hother, hfree, _⟩ => ?_⟩
    cases hpays.unique hother
    rw [h.live] at hfree
    cases hfree
  | failed hfault => exact ⟨nofun, fun ⟨_, _, _, hnone⟩ => absurd hnone hfault⟩

/-- **What an answer leaves.** Only an accepted payment and a failure leave anything at all. -/
theorem Request.Answered.unchanged (h : r.Answered token s ms (some response) s')
    (hstatus : response.status ∉ [202, 500]) : s'.database = s.database ∧ s'.keys = s.keys := by
  cases h with
  | atOnce => exact ⟨rfl, rfl⟩
  | accepted | failed => exact absurd (by decide) hstatus
  | rejected _ h => exact ⟨h.database, h.keys⟩

/-- A payment that is answered as accepted was written. -/
theorem Request.Answered.written (h : r.Answered token s ms (some response) s') (hstatus : response.status = 202) :
    ∃ c id now, r.Pays c ∧ Job.Written c token id now s ms s' := by
  obtain ⟨c, hpays, -⟩ := h.status_eq_accepted_iff.mp hstatus
  cases h with
  | atOnce hnone => exact absurd hpays (hnone c)
  | accepted hpays h => exact ⟨_, _, _, hpays, h⟩
  | rejected | failed => cases hstatus

/-- A failure leaves the tables alone, and its answer does not tell what it was. -/
theorem Request.Answered.outOfOrder (h : r.Answered token s ms (some response) s')
    (hstatus : response.status = 500) : s'.database = s.database ∧ response = .outOfOrder := by
  cases h with
  | atOnce _ h =>
    obtain h | rfl := h
    · rw [hstatus] at h
      exact absurd h (by decide)
    · cases hstatus
  | accepted | rejected => cases hstatus
  | failed _ hdb => exact ⟨hdb, rfl⟩

/-- There is one answer to callers nobody knows. -/
theorem Request.Answered.stranger (h : r.Answered token s ms (some response) s') (hstatus : response.status = 401) :
    response = .stranger := by
  cases h with
  | atOnce _ h =>
    obtain h | h := h
    · rw [hstatus] at h
      exact absurd h (by decide)
    · exact h
  | accepted | rejected | failed => cases hstatus

/-- A request whose caller is not known gets it, whatever else it says. -/
theorem Request.answer_of_unknown (h : r.Exchange token s ms answer s') (hto : r.IsToPay)
    (hunknown : ∀ user, ¬ r.Names user) : answer = some .stranger := by
  cases h with
  | atOnce h =>
    cases h.symm.trans (resolve_of_unknown hto hunknown)
    rfl
  | afterwards h => cases h.symm.trans (resolve_of_unknown hto hunknown)

end

end PaymentRelay
