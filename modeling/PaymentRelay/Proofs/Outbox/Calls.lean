import PaymentRelay.Proofs.Outbox.Rows
import PaymentRelay.Proofs.Outbox.Transition

/-!
# The calls of a tick

A tick makes one call after the other and waits for each answer. `Tick.call?` is the call that a step answers; a fetch
for which the calendar does not reach far enough is never answered, and the tick goes down with it.

**Whatever the answers are, the calls of a tick that has ended are a round** (`Round.calls`): one fetch, and then for
each event that it brought, in that order, a publication and the call that goes with how it went. The calls of a tick
under way are the beginning of a round (`Trace`), so this is an induction over its steps (`Trace.step`).

Nothing is said here about the store and the broker. Their answers may be anything, and others may use them.
-/

namespace PaymentRelay

namespace Tick

/-! ## Calls -/

/-- A call that a tick makes of the store or the broker, with its answer. -/
inductive Call where
  /-- A batch is asked for. There are no events if the call fails. -/
  | fetch (events : Option (List OutboxEvent))
  | publish (event : OutboxEvent) (isDone : Bool)
  | mark (id : Uuid) (isDone : Bool)
  /-- The end of a claim. -/
  | release (id : Uuid) (isDone : Bool)
deriving Repr

/-- The call that a step of a tick answers. -/
def call? (t : Tick) (m : Move) (s : System) : Option Call :=
  match t.progress, m with
  | .fetching, .fetch => (s.database.fetch t.batch s.now).map fun answer => .fetch (some answer.1)
  | .fetching, .fetchFails => some (.fetch none)
  | .publishing event _, .publish => some (.publish event true)
  | .publishing event _, .publishFails => some (.publish event false)
  | .marking event _, .mark => some (.mark event.id true)
  | .marking event _, .markFails => some (.mark event.id false)
  | .unclaiming event _, .unclaim => some (.release event.id true)
  | .unclaiming event _, .unclaimFails => some (.release event.id false)
  | _, _ => none

/-- Whether a move is an answer, and not the end of the poller. -/
def Move.isAnswer : Move → Bool
  | .drop => false
  | _ => true

/-- Which calls of a tick fail, those about an event by its id. -/
structure Failures where
  fetch : Bool
  publish : Uuid → Bool
  mark : Uuid → Bool
  release : Uuid → Bool

/-- Whether a call was answered as it has to be under such failures. -/
def Call.Agrees (f : Failures) : Call → Prop
  | .fetch events => events.isNone = f.fetch
  | .publish event isDone => isDone = !f.publish event.id
  | .mark id isDone => isDone = !f.mark id
  | .release id isDone => isDone = !f.release id

/-! ## Rounds -/

/-- How an event went through a tick. -/
structure Passage where
  event : OutboxEvent
  /-- Whether it was published. -/
  isSent : Bool
  /-- Whether the call after that succeeded: the mark if it was published, and else the end of its claim. -/
  isSettled : Bool
  /-- What the clock showed at that call. -/
  settledAt : Instant
deriving Repr

/-- The second call that is made for an event. -/
def Passage.settling (p : Passage) : Call :=
  if p.isSent then .mark p.event.id p.isSettled else .release p.event.id p.isSettled

/-- The calls that are made for an event. -/
def Passage.calls (p : Passage) : List Call :=
  [.publish p.event p.isSent, p.settling]

/-- A whole tick: its batch could not be fetched, or each event of its batch went through it. -/
inductive Round where
  | unfetched
  | fetched (passages : List Passage)
deriving Repr

/-- The calls of a whole tick. -/
def Round.calls : Round → List Call
  | .unfetched => [.fetch none]
  | .fetched ps => .fetch (some (ps.map (·.event))) :: ps.flatMap Passage.calls

/-! ## Rounds under way -/

end Tick

namespace TickProgress

/-- Progress of a tick that has its batch. -/
def HasBatch : TickProgress → Prop
  | .publishing .. | .marking .. | .unclaiming .. | .ended => True
  | .fetching | .broken => False

/-- A tick that has its batch has ended, or waits for something else. -/
theorem HasBatch.ended_or {p : TickProgress} (h : p.HasBatch) : p = .ended ∨ p.IsUnderWay ∧ p ≠ .fetching := by
  cases p with
  | fetching | broken => exact h.elim
  | publishing | marking | unclaiming => exact .inr ⟨trivial, nofun⟩
  | ended => exact .inl rfl

/-- The call that a tick has made for the event which it is at, if it waits for the second one. -/
def halfway : TickProgress → List Tick.Call
  | .marking event _ => [.publish event true]
  | .unclaiming event _ => [.publish event false]
  | _ => []

end TickProgress

namespace Tick

variable {t t' : Tick} {m : Move} {s s' : System} {ps : List Passage} {calls : List Call}

theorem hasBatch_next (t : Tick) (rest : List OutboxEvent) : (t.next rest).progress.HasBatch := by
  cases rest <;> trivial

theorem next_ne_broken (t : Tick) (rest : List OutboxEvent) : (t.next rest).progress ≠ .broken := by
  cases rest <;> nofun

theorem halfway_next (t : Tick) (rest : List OutboxEvent) : (t.next rest).progress.halfway = [] := by
  cases rest <;> rfl

/-- The event that has gone through a tick with a step. -/
def passage? (t : Tick) (m : Move) (s : System) : Option Passage :=
  match t.progress, m with
  | .marking event _, .mark => some ⟨event, true, true, s.now⟩
  | .marking event _, .markFails => some ⟨event, true, false, s.now⟩
  | .unclaiming event _, .unclaim => some ⟨event, false, true, s.now⟩
  | .unclaiming event _, .unclaimFails => some ⟨event, false, false, s.now⟩
  | _, _ => none

/-- It has gone through with its second call, and the clock shows the time of that. -/
theorem call_of_passage {p : Passage} (h : t.passage? m s = some p) :
    t.call? m s = some p.settling ∧ p.settledAt = s.now := by
  obtain ⟨topic, batch, report, progress⟩ := t
  unfold passage? at h
  dsimp only at h
  split at h <;> cases h <;> exact ⟨rfl, rfl⟩

/-- The events of these passages have gone through a tick that has its batch, and these were its calls. -/
structure Passed (ps : List Passage) (t : Tick) (calls : List Call) : Prop where
  hasBatch : t.progress.HasBatch
  calls_eq : calls = .fetch (some (ps.map (·.event) ++ t.progress.events)) ::
    (ps.flatMap Passage.calls ++ t.progress.halfway)

/-- A tick that has fetched has its whole batch before it. -/
theorem passed_of_fetch (t : Tick) (events : List OutboxEvent) :
    (t.next events).Passed [] [.fetch (some events)] where
  hasBatch := hasBatch_next ..
  calls_eq := by
    rw [events_next, halfway_next]
    rfl

/-- An event has gone through when its second call is answered. -/
theorem Passed.next {event : OutboxEvent} {rest : List OutboxEvent} {isSettled : Bool} {time : Instant}
    {t₀ : Tick} (h : t.Passed ps calls) (isSent : Bool) (hevents : t.progress.events = event :: rest)
    (hhalfway : t.progress.halfway = [.publish event isSent]) :
    (t₀.next rest).Passed (ps ++ [⟨event, isSent, isSettled, time⟩])
      (calls ++ [if isSent then .mark event.id isSettled else .release event.id isSettled]) where
  hasBatch := hasBatch_next ..
  calls_eq := by
    rw [h.calls_eq, hevents, hhalfway, events_next, halfway_next]
    simp only [List.map_append, List.map_cons, List.map_nil, List.flatMap_append, List.flatMap_cons, List.flatMap_nil,
      Passage.calls, Passage.settling, List.append_assoc, List.cons_append, List.nil_append, List.append_nil]

/-- **A step takes an event further.** -/
theorem Passed.step (h : t.Passed ps calls) (ht : t.Transition s m t' s') (hm : m.isAnswer = true) :
    t'.Passed (ps ++ (t.passage? m s).toList) (calls ++ (t.call? m s).toList) := by
  cases ht with
  | fetches _ _ hp | overflows hp | fetchFails hp =>
    have hbatch := h.hasBatch
    rw [hp] at hbatch
    exact hbatch.elim
  | publishes event rest hp =>
    refine ⟨trivial, ?_⟩
    rw [h.calls_eq]
    simp only [passage?, call?, hp, Option.toList_none, Option.toList_some, List.append_nil]
    simp only [become, TickProgress.events, TickProgress.halfway, List.append_nil, List.cons_append]
  | publishFails event rest hp =>
    refine ⟨trivial, ?_⟩
    rw [h.calls_eq]
    simp only [passage?, call?, hp, Option.toList_none, Option.toList_some, List.append_nil]
    simp only [become, TickProgress.events, TickProgress.halfway, List.append_nil, List.cons_append]
  | marks event rest hp =>
    simp only [passage?, call?, hp, Option.toList_some]
    exact h.next true (by rw [hp]; rfl) (by rw [hp]; rfl)
  | markFails event rest hp =>
    simp only [passage?, call?, hp, Option.toList_some]
    exact h.next true (by rw [hp]; rfl) (by rw [hp]; rfl)
  | unclaims event rest hp =>
    simp only [passage?, call?, hp, Option.toList_some]
    exact h.next false (by rw [hp]; rfl) (by rw [hp]; rfl)
  | unclaimFails event rest hp =>
    simp only [passage?, call?, hp, Option.toList_some]
    exact h.next false (by rw [hp]; rfl) (by rw [hp]; rfl)
  | dropped => cases hm

/-- The calls of a tick so far. -/
inductive Trace (t : Tick) (calls : List Call) : Prop
  | fetching (hp : t.progress = .fetching) (hcalls : calls = [])
  | unfetched (hp : t.progress = .ended) (hcalls : calls = [.fetch none])
  | passed (ps : List Passage) (h : t.Passed ps calls)
  /-- The fetch was not answered. -/
  | broken (hp : t.progress = .broken) (hcalls : calls = [])

/-- **The calls of a tick are the beginning of a round**, step by step. -/
theorem Trace.step (h : t.Trace calls) (ht : t.Transition s m t' s') (hm : m.isAnswer = true) :
    t'.Trace (calls ++ (t.call? m s).toList) := by
  cases h with
  | fetching hp hcalls =>
    subst hcalls
    cases ht with
    | fetches events db hp hfetch =>
      refine .passed [] ?_
      simp only [call?, hp, hfetch, Option.map_some, Option.toList_some, List.nil_append]
      exact passed_of_fetch _ events
    | overflows hp hfetch =>
      refine .broken rfl ?_
      simp only [call?, hp, hfetch, Option.map_none, Option.toList_none, List.append_nil]
    | fetchFails hp =>
      refine .unfetched rfl ?_
      simp only [call?, hp, Option.toList_some, List.nil_append]
    | dropped => cases hm
    | _ => simp_all
  | passed ps h => exact .passed _ (h.step ht hm)
  | unfetched hp | broken hp =>
    have hunderWay := ht.underWay
    rw [hp] at hunderWay
    exact hunderWay.elim

/-- **The calls of a tick that has ended are a round.** -/
theorem Trace.ended (h : t.Trace calls) (hended : t.progress = .ended) : ∃ round : Round, calls = round.calls := by
  cases h with
  | fetching hp => simp [hended] at hp
  | unfetched _ hcalls => exact ⟨.unfetched, hcalls⟩
  | passed ps h =>
    refine ⟨.fetched ps, ?_⟩
    rw [h.calls_eq, hended]
    simp only [TickProgress.events, TickProgress.halfway, List.append_nil, Round.calls]
  | broken hp => simp [hended] at hp

/-- A tick that broke off without being dropped has made no call. -/
theorem Trace.broken_eq_nil (h : t.Trace calls) (hbroken : t.progress = .broken) : calls = [] := by
  cases h with
  | fetching _ hcalls | broken _ hcalls => exact hcalls
  | unfetched hp => simp [hbroken] at hp
  | passed ps h =>
    have hbatch := h.hasBatch
    rw [hbroken] at hbatch
    exact hbatch.elim

/-- A tick breaks off where the calendar does not reach far enough for its fetch, if it is not dropped. -/
theorem Transition.unreached (ht : t.Transition s m t' s') (hm : m.isAnswer = true) (hbroken : t'.progress = .broken) :
    t.progress = .fetching ∧ s.now.add? s.database.lease = none ∧ t.call? m s = none := by
  cases ht with
  | overflows hp hfetch =>
    refine ⟨hp, Option.map_eq_none_iff.mp hfetch, ?_⟩
    simp only [call?, hp, hfetch, Option.map_none]
  | dropped => cases hm
  | publishes | publishFails | fetchFails => cases hbroken
  | fetches | marks | markFails | unclaims | unclaimFails => exact absurd hbroken (next_ne_broken _ _)

/-! ## Going on -/

/-- How many calls a tick still has to make if its batch has so many events. -/
def callsLeft (size : Nat) : TickProgress → Nat
  | .fetching => 2 * size + 1
  | .publishing _ rest => 2 * rest.length + 2
  | .marking _ rest | .unclaiming _ rest => 2 * rest.length + 1
  | .ended | .broken => 0

theorem callsLeft_next (t : Tick) (size : Nat) (rest : List OutboxEvent) :
    callsLeft size (t.next rest).progress = 2 * rest.length := by
  cases rest <;> rfl

/-- **A tick under way can go on, whichever of its calls fail**, and has fewer calls to make then. Only the calendar can
keep its fetch from being answered. -/
theorem exists_answer (t : Tick) (s : System) (f : Failures) (hunderWay : t.progress.IsUnderWay)
    (hreach : t.progress = .fetching → f.fetch = true ∨ (s.now.add? s.database.lease).isSome = true) :
    ∃ m t' s', m.isAnswer = true ∧ t.step m s = some (t', s') ∧ (∀ c ∈ t.call? m s, c.Agrees f) ∧
      t'.progress.HasBatch ∧
      callsLeft s'.database.outbox.length t'.progress < callsLeft s.database.outbox.length t.progress := by
  cases hp : t.progress with
  | fetching =>
    cases hf : f.fetch with
    | true =>
      refine ⟨.fetchFails, t.become .ended, s.log .fetchFailed, rfl, by simp only [step, hp], ?_, trivial,
        Nat.succ_pos _⟩
      simp only [call?, hp, Option.mem_some, forall_eq', Call.Agrees, Option.isNone_none, hf]
    | false =>
      have hsome := (hreach hp).resolve_left (hf ▸ Bool.false_ne_true)
      obtain ⟨⟨events, db⟩, hfetch⟩ : ∃ answer, s.database.fetch t.batch s.now = some answer := by
        rwa [← Option.isSome_iff_exists, Database.fetch, Option.isSome_map]
      refine ⟨.fetch, (t.countFetched events.length).next events, { s with database := db }, rfl, ?step, ?agrees,
        hasBatch_next .., ?less⟩
      case step =>
        simp only [step, hp, hfetch]
        rfl
      case agrees =>
        simp only [call?, hp, hfetch, Option.map_some, Option.mem_some, forall_eq', Call.Agrees, Option.isNone_some, hf]
      case less =>
        obtain ⟨last, claimed, rest, rfl, hbefore, -⟩ := Database.fetch_perm hfetch
        rw [callsLeft_next, callsLeft, hbefore.length_eq, List.length_append, List.length_map]
        omega
  | publishing event rest =>
    cases hf : f.publish event.id with
    | false =>
      refine ⟨.publish, t.become (.marking event rest), { s with broker := s.broker.publish t.topic event }, rfl,
        by simp only [step, hp], ?_, trivial, Nat.lt_succ_self _⟩
      simp only [call?, hp, Option.mem_some, forall_eq', Call.Agrees, hf, Bool.not_false]
    | true =>
      refine ⟨.publishFails, t.countFailed.become (.unclaiming event rest), s.log .publishFailed, rfl,
        by simp only [step, hp], ?_, trivial, Nat.lt_succ_self _⟩
      simp only [call?, hp, Option.mem_some, forall_eq', Call.Agrees, hf, Bool.not_true]
  | marking event rest =>
    have hless : callsLeft s.database.outbox.length (.marking event rest) = 2 * rest.length + 1 := rfl
    cases hf : f.mark event.id with
    | false =>
      refine ⟨.mark, t.countPublished.next rest, { s with database := s.database.markPublished event.id s.now }, rfl,
        by simp only [step, hp], ?_, hasBatch_next .., by rw [callsLeft_next, hless]; omega⟩
      simp only [call?, hp, Option.mem_some, forall_eq', Call.Agrees, hf, Bool.not_false]
    | true =>
      refine ⟨.markFails, t.countFailed.next rest, s.log .markFailed, rfl, by simp only [step, hp], ?_,
        hasBatch_next .., by rw [callsLeft_next, hless]; omega⟩
      simp only [call?, hp, Option.mem_some, forall_eq', Call.Agrees, hf, Bool.not_true]
  | unclaiming event rest =>
    have hless : callsLeft s.database.outbox.length (.unclaiming event rest) = 2 * rest.length + 1 := rfl
    cases hf : f.release event.id with
    | false =>
      refine ⟨.unclaim, t.next rest, { s with database := s.database.releaseClaim event.id }, rfl,
        by simp only [step, hp], ?_, hasBatch_next .., by rw [callsLeft_next, hless]; omega⟩
      simp only [call?, hp, Option.mem_some, forall_eq', Call.Agrees, hf, Bool.not_false]
    | true =>
      refine ⟨.unclaimFails, t.next rest, s.log .claimNotReleased, rfl, by simp only [step, hp], ?_,
        hasBatch_next .., by rw [callsLeft_next, hless]; omega⟩
      simp only [call?, hp, Option.mem_some, forall_eq', Call.Agrees, hf, Bool.not_true]
  | ended | broken =>
    rw [hp] at hunderWay
    exact hunderWay.elim

end Tick

end PaymentRelay
