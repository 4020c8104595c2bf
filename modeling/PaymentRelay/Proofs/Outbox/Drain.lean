import Mathlib.Data.List.Infix
import PaymentRelay.Outbox.Poller
import PaymentRelay.Proofs.Outbox.Calls
import PaymentRelay.Proofs.Outbox.LifeCycle
import PaymentRelay.Proofs.Outbox.Queue

/-!
# How a poller ends

A poller is told to stop at any time: before its first tick, between two ticks, or while a tick of it waits for an
answer. Whatever the store and the broker answer and whatever others do to them, **it leaves no event half done**. Its
calls are those of whole ticks, one after the other, and of the tick that it is at (`Poller.Trace`); and when it has
ended it is at none.

It ends where it takes notice of having been told, and that is between two ticks. Apart from that it can only break
down, without an interval as it begins, or in a fetch for which the calendar does not reach far enough. In neither case
has it an event in hand (`Transition.ends`). Once it has ended it makes no call.
-/

namespace PaymentRelay

namespace Poller

/-! ## What one step of a poller does -/

/-- The transitions of a poller, from the system `s`. -/
inductive Transition (p : Poller) (s : System) : Move → Poller → System → Prop
  | begins (now : Nat) (hp : p.phase = .fresh) (hinterval : p.interval ≠ 0) :
      Transition p s (.begin now) (p.become (.waiting now)) (s.log .pollerStarted)
  | cannotBegin (now : Nat) (hp : p.phase = .fresh) (hinterval : p.interval = 0) :
      Transition p s (.begin now) (p.become .crashed) (s.log .pollerStarted)
  | wakes (due now : Nat) (hp : p.phase = .waiting due) (hdue : due ≤ now) :
      Transition p s (.wake now) (p.become (.ticking (.start p.topic p.batch) (now + p.interval))) s
  | stops (due : Nat) (hp : p.phase = .waiting due) (hstopping : p.isStopping = true) :
      Transition p s .observe (p.become .stopped) (s.log .pollerStopping)
  | ticks (t t' : Tick) (due : Nat) (m : Tick.Move) (s' : System) (hp : p.phase = .ticking t due)
      (ht : t.Transition s m t' s') :
      Transition p s (.tick m) (p.afterTick t' due s').1 (p.afterTick t' due s').2

/-- Every step of a poller is one of the transitions. -/
theorem transition_of_step {p : Poller} {m : Move} {s : System} {next : Poller × System}
    (h : p.step m s = some next) : Transition p s m next.1 next.2 := by
  unfold step at h
  split at h
  next hp =>
    cases h
    split
    next hinterval => exact .cannotBegin _ hp hinterval
    next hinterval => exact .begins _ hp hinterval
  next hp =>
    split at h
    next hdue => cases h; exact .wakes _ _ hp hdue
    next => cases h
  next hp =>
    split at h
    next hstopping => cases h; exact .stops _ hp hstopping
    next => cases h
  next t due m hp =>
    obtain ⟨⟨t', s'⟩, hstep, heq⟩ := Option.map_eq_some_iff.mp h
    cases heq
    exact .ticks t t' due m s' hp (Tick.transition_of_step hstep)
  next => cases h

/-! ## A poller among others -/

/-- Whether a step of a poller is one of its own. Nobody takes its tick away from it. -/
def Move.isOwn : Move → Bool
  | .tick m => m.isAnswer
  | _ => true

/-- The call that a step of a poller answers. -/
def call? (p : Poller) (m : Move) (s : System) : Option Tick.Call :=
  match p.phase, m with
  | .ticking t _, .tick m => t.call? m s
  | _, _ => none

/-- What happens while a poller runs. -/
inductive Happening where
  | move (m : Move)
  /-- The poller is told to stop, or its handle goes away. -/
  | stop
  /-- Others do something to the system. -/
  | elsewhere (change : System → System)

/-- Lets a poller go through this, and collects its calls. -/
def run (p : Poller) (s : System) : List Happening → Option (List Tick.Call × Poller × System)
  | [] => some ([], p, s)
  | .move m :: rest =>
    if m.isOwn then
      match p.step m s with
      | some (p', s') => (p'.run s' rest).map fun after => ((p.call? m s).toList ++ after.1, after.2)
      | none => none
    else none
  | .stop :: rest => p.stop.run s rest
  | .elsewhere change :: rest => p.run (change s) rest

/-- Whether a poller has ended. -/
def HasEnded (p : Poller) : Prop :=
  p.phase = .stopped ∨ p.phase = .crashed

section

variable {p p' : Poller} {m : Move} {s s' : System} {calls : List Tick.Call} {course rest : List Happening}

theorem run_of_step {p₁ : Poller} {s₁ : System} (hstep : p.step m s = some (p₁, s₁)) (hm : m.isOwn = true)
    (hrest : p₁.run s₁ rest = some (calls, p', s')) :
    p.run s (.move m :: rest) = some ((p.call? m s).toList ++ calls, p', s') := by
  simp only [run, if_pos hm, hstep, hrest, Option.map_some]

/-- The first step of a run. -/
theorem run_move (h : p.run s (.move m :: rest) = some (calls, p', s')) :
    ∃ p₁ s₁ later, p.step m s = some (p₁, s₁) ∧ m.isOwn = true ∧ p₁.run s₁ rest = some (later, p', s') ∧
      calls = (p.call? m s).toList ++ later := by
  rw [run] at h
  split at h
  next hm =>
    split at h
    next p₁ s₁ hstep =>
      obtain ⟨⟨later, last⟩, hrest, heq⟩ := Option.map_eq_some_iff.mp h
      cases heq
      exact ⟨p₁, s₁, later, hstep, hm, hrest, rfl⟩
    next => cases h
  next => cases h

/-- What all that happens keeps holds after a run. -/
theorem run_keeps {P : List Tick.Call → Poller → System → Prop}
    (hmove : ∀ {calls p m s p' s'}, P calls p s → p.Transition s m p' s' → m.isOwn = true →
      P (calls ++ (p.call? m s).toList) p' s')
    (hstop : ∀ {calls p s}, P calls p s → P calls p.stop s)
    (helsewhere : ∀ {calls p s} (change : System → System), P calls p s → P calls p (change s))
    (done : List Tick.Call) (h : P done p s)
    (hrun : p.run s course = some (calls, p', s')) : P (done ++ calls) p' s' := by
  induction course generalizing p s done calls with
  | nil =>
    cases hrun
    rwa [List.append_nil]
  | cons event rest ih =>
    cases event with
    | stop => exact ih _ (hstop h) hrun
    | elsewhere change => exact ih _ (helsewhere change h) hrun
    | move m =>
      obtain ⟨p₁, s₁, later, hstep, hm, hrest, rfl⟩ := run_move hrun
      rw [← List.append_assoc]
      exact ih _ (hmove h (transition_of_step hstep) hm) hrest

/-! ## Whole ticks -/

/-- The calls of a poller so far. -/
inductive Trace (p : Poller) (calls : List Tick.Call) : Prop
  | idle (rounds : List Tick.Round) (hphase : ∀ t due, p.phase ≠ .ticking t due)
      (hcalls : calls = rounds.flatMap Tick.Round.calls)
  | ticking (rounds : List Tick.Round) (t : Tick) (due : Nat) (more : List Tick.Call)
      (hphase : p.phase = .ticking t due) (hunderWay : t.progress.IsUnderWay) (hmore : t.Trace more)
      (hcalls : calls = rounds.flatMap Tick.Round.calls ++ more)

theorem Trace.stop (h : p.Trace calls) : p.stop.Trace calls := by
  cases h with
  | idle rounds hphase hcalls => exact .idle rounds hphase hcalls
  | ticking rounds t due more hphase hunderWay hmore hcalls =>
    exact .ticking rounds t due more hphase hunderWay hmore hcalls

/-- A poller that is at no tick makes no call. -/
theorem call?_of_idle (hphase : ∀ t due, p.phase ≠ .ticking t due) : p.call? m s = none := by
  unfold call?
  split
  next t due m hp => exact absurd hp (hphase t due)
  next => rfl

/-- **A step takes a poller further in a tick**, or from one tick to the next. -/
theorem Trace.step (h : p.Trace calls) (ht : p.Transition s m p' s') (hm : m.isOwn = true) :
    p'.Trace (calls ++ (p.call? m s).toList) := by
  cases h with
  | idle rounds hphase hcalls =>
    rw [call?_of_idle hphase, Option.toList_none, List.append_nil]
    cases ht with
    | begins | cannotBegin | stops => exact .idle rounds nofun hcalls
    | wakes due now => exact .ticking rounds _ _ [] rfl trivial (.fetching rfl rfl) (by rw [hcalls, List.append_nil])
    | ticks t t' due m s' hp => exact absurd hp (hphase t due)
  | ticking rounds t due more hphase hunderWay hmore hcalls =>
    cases ht with
    | begins _ hp | cannotBegin _ hp | wakes _ _ hp | stops _ hp => rw [hphase] at hp; cases hp
    | ticks t₁ t' due₁ m s' hp ht =>
      rw [hphase] at hp
      cases hp
      have hnext := hmore.step ht hm
      have hcall : p.call? (.tick m) s = t.call? m s := by simp only [call?, hphase]
      rw [hcall, hcalls, List.append_assoc]
      cases hprogress : t'.progress with
      | ended =>
        obtain ⟨round, hround⟩ := hnext.ended hprogress
        refine .idle (rounds ++ [round]) ?_ ?_
        · simp only [afterTick, hprogress, become, ne_eq, reduceCtorEq, not_false_iff, implies_true]
        · rw [hround, List.flatMap_append, List.flatMap_singleton]
      | broken =>
        refine .idle rounds ?_ ?_
        · simp only [afterTick, hprogress, become, ne_eq, reduceCtorEq, not_false_iff, implies_true]
        · rw [hnext.broken_eq_nil hprogress, List.append_nil]
      | _ =>
        refine .ticking rounds t' due _ ?_ ?_ hnext rfl
        · simp only [afterTick, hprogress, become]
        · rw [hprogress]; trivial

/-! ## The end -/

/-- **A poller ends between two ticks**, told to stop, or breaks down with no event in hand: without an interval as it
begins, or in a fetch that the calendar does not reach. It makes no call at that. -/
theorem Transition.ends (ht : p.Transition s m p' s') (hm : m.isOwn = true) (hended : p'.HasEnded) :
    p.call? m s = none ∧
      ((∃ due, p.phase = .waiting due ∧ p.isStopping = true ∧ p'.phase = .stopped) ∨
        (p.phase = .fresh ∧ p.interval = 0) ∨
        ∃ t due, p.phase = .ticking t due ∧ t.progress = .fetching ∧ s.now.add? s.database.lease = none) := by
  cases ht with
  | stops due hp hstopping =>
    exact ⟨call?_of_idle (by rw [hp]; nofun), .inl ⟨due, hp, hstopping, rfl⟩⟩
  | cannotBegin now hp hinterval => exact ⟨call?_of_idle (by rw [hp]; nofun), .inr (.inl ⟨hp, hinterval⟩)⟩
  | begins | wakes => rcases hended with h | h <;> cases h
  | ticks t t' due m s₁ hp ht =>
    have hbroken : t'.progress = .broken := by
      unfold afterTick at hended
      split at hended
      next => rcases hended with h | h <;> cases h
      next hbroken => exact hbroken
      next => rcases hended with h | h <;> cases h
    obtain ⟨hfetching, hreach, hcall⟩ := ht.unreached hm hbroken
    refine ⟨?_, .inr (.inr ⟨t, due, hp, hfetching, hreach⟩)⟩
    simp only [call?, hp]
    exact hcall

/-- A poller that has ended takes no step. -/
theorem Transition.not_ended (ht : p.Transition s m p' s') : ¬ p.HasEnded := by
  rintro (h | h) <;> cases ht <;> simp_all

/-- A poller keeps its interval. -/
theorem Transition.interval_eq (ht : p.Transition s m p' s') : p'.interval = p.interval := by
  cases ht with
  | ticks t t' due m s' =>
    unfold afterTick
    split <;> rfl
  | _ => rfl

/-- A poller stays told to stop, and is not told by its own steps. -/
theorem Transition.isStopping_eq (ht : p.Transition s m p' s') : p'.isStopping = p.isStopping := by
  cases ht with
  | ticks t t' due m s' =>
    unfold afterTick
    split <;> rfl
  | _ => rfl

/-- A poller has been told to stop if somebody told it. -/
theorem isStopping_of_run (hrun : p.run s course = some (calls, p', s')) :
    p'.isStopping = true ↔ p.isStopping = true ∨ .stop ∈ course := by
  induction course generalizing p s calls with
  | nil =>
    cases hrun
    exact (or_iff_left List.not_mem_nil).symm
  | cons event rest ih =>
    cases event with
    | stop =>
      exact (ih (p := p.stop) hrun).trans (iff_of_true (.inl rfl) (.inr List.mem_cons_self))
    | elsewhere change =>
      refine (ih hrun).trans (or_congr_right ?_)
      rw [List.mem_cons, or_iff_right Happening.noConfusion]
    | move m =>
      obtain ⟨p₁, s₁, later, hstep, -, hrest, -⟩ := run_move hrun
      refine (ih hrest).trans (or_congr ?_ ?_)
      · rw [(transition_of_step hstep).isStopping_eq]
      · rw [List.mem_cons, or_iff_right Happening.noConfusion]

/-- **A poller that has ended makes no call**, and the system is left to others. -/
theorem run_of_ended (hended : p.HasEnded) (hrun : p.run s course = some (calls, p', s')) :
    calls = [] ∧ p'.phase = p.phase ∧
      ∀ P : System → Prop, (∀ change, .elsewhere change ∈ course → ∀ s, P s → P (change s)) → P s → P s' := by
  induction course generalizing p s with
  | nil =>
    cases hrun
    exact ⟨rfl, rfl, fun P _ h => h⟩
  | cons event rest ih =>
    cases event with
    | stop =>
      obtain ⟨hcalls, hphase, hkeeps⟩ := ih (p := p.stop) hended hrun
      exact ⟨hcalls, hphase, fun P hchanges => hkeeps P fun change hin => hchanges change (List.mem_cons_of_mem _ hin)⟩
    | elsewhere change =>
      obtain ⟨hcalls, hphase, hkeeps⟩ := ih hended hrun
      refine ⟨hcalls, hphase, fun P hchanges h => ?_⟩
      exact hkeeps P (fun change hin => hchanges change (List.mem_cons_of_mem _ hin))
        (hchanges change List.mem_cons_self s h)
    | move m =>
      obtain ⟨p₁, s₁, later, hstep, -⟩ := run_move hrun
      exact absurd hended (transition_of_step hstep).not_ended

/-- **The step at which a poller ended.** -/
theorem exists_end (hrun : p.run s course = some (calls, p', s')) (hbefore : ¬ p.HasEnded) (hended : p'.HasEnded) :
    ∃ before m after q s₁ q' s₂, course = before ++ .move m :: after ∧ p.run s before = some (calls, q, s₁) ∧
      q.Transition s₁ m q' s₂ ∧ m.isOwn = true ∧ q'.HasEnded ∧ q'.phase = p'.phase := by
  induction course generalizing p s calls with
  | nil =>
    cases hrun
    exact absurd hended hbefore
  | cons event rest ih =>
    cases event with
    | stop =>
      obtain ⟨before, m, after, q, s₁, q', s₂, rfl, hq, hlast⟩ := ih (p := p.stop) hrun hbefore
      exact ⟨.stop :: before, m, after, q, s₁, q', s₂, rfl, hq, hlast⟩
    | elsewhere change =>
      obtain ⟨before, m, after, q, s₁, q', s₂, rfl, hq, hlast⟩ := ih hrun hbefore
      exact ⟨.elsewhere change :: before, m, after, q, s₁, q', s₂, rfl, hq, hlast⟩
    | move m =>
      obtain ⟨p₁, s₁, later, hstep, hm, hrest, rfl⟩ := run_move hrun
      have ht := transition_of_step hstep
      by_cases hfirst : p₁.HasEnded
      · obtain ⟨rfl, hphase, -⟩ := run_of_ended hfirst hrest
        refine ⟨[], m, rest, p, s, p₁, s₁, rfl, ?_, ht, hm, hfirst, hphase.symm⟩
        rw [(ht.ends hm hfirst).1]
        rfl
      · obtain ⟨before, m', after, q, s₂, q', s₃, rfl, hq, hlast⟩ := ih hrest hfirst
        exact ⟨.move m :: before, m', after, q, s₂, q', s₃, rfl, run_of_step hstep hm hq, hlast⟩

/-! ## Going on to the end -/

theorem afterTick_of_underWay {t : Tick} {due : Nat} (h : t.progress.IsUnderWay) :
    p.afterTick t due s = (p.become (.ticking t due), s) := by
  cases hp : t.progress with
  | ended | broken =>
    rw [hp] at h
    exact h.elim
  | _ => simp only [afterTick, hp]

theorem run_observe {due : Nat} (hp : p.phase = .waiting due) (hstopping : p.isStopping = true) :
    p.run s [.move .observe] = some ([], p.become .stopped, s.log .pollerStopping) := by
  simp only [run, Move.isOwn, if_true, step, hp, hstopping, call?, Option.map_some, Option.toList_none,
    List.append_nil]

/-- A poller that was told to stop goes on with its tick, and then stops. -/
theorem exists_drain_of_ticking (f : Tick.Failures) (p : Poller) (s : System) {t : Tick} {due : Nat}
    (hp : p.phase = .ticking t due) (hunderWay : t.progress.IsUnderWay) (hstopping : p.isStopping = true) :
    ∃ (moves : List Move) (calls : List Tick.Call) (p' : Poller) (s' : System),
      p.run s (moves.map .move) = some (calls, p', s') ∧ p'.HasEnded ∧ ∀ c ∈ calls, c.Agrees f := by
  have hcall : ∀ m, p.call? (.tick m) s = t.call? m s := fun m => by simp only [call?, hp]
  have hstep : ∀ {m t' s'}, t.step m s = some (t', s') → p.step (.tick m) s = some (p.afterTick t' due s') :=
    fun h => by simp only [step, hp, h, Option.map_some]
  by_cases hreach : t.progress = .fetching → f.fetch = true ∨ (s.now.add? s.database.lease).isSome = true
  · obtain ⟨m, t', s', hm, hanswer, hagrees, hbatch, hless⟩ := t.exists_answer s f hunderWay hreach
    have hafter := hstep hanswer
    have hcalls : ∀ c ∈ (p.call? (.tick m) s).toList, c.Agrees f := by
      rw [hcall]
      exact fun c hc => hagrees c (Option.mem_toList.mp hc)
    rcases hbatch.ended_or with hended | ⟨hnext, -⟩
    · rw [afterTick, hended] at hafter
      refine ⟨[.tick m, .observe], _, _, _, run_of_step hafter hm (run_observe rfl hstopping), .inl rfl, ?_⟩
      rwa [List.append_nil]
    · rw [afterTick_of_underWay hnext] at hafter
      obtain ⟨moves, calls, p', s₂, hrun, hended, hagree⟩ :=
        exists_drain_of_ticking f (p.become (.ticking t' due)) s' rfl hnext hstopping
      refine ⟨.tick m :: moves, _, p', s₂, run_of_step hafter hm hrun, hended, ?_⟩
      exact fun c hc => (List.mem_append.mp hc).elim (hcalls c) (hagree c)
  · -- the fetch is not answered, and the poller goes down with its tick
    obtain ⟨hfetching, hreach⟩ := Classical.not_imp.mp hreach
    have hnone : s.database.fetch t.batch s.now = none := by
      rw [Database.fetch, Option.map_eq_none_iff]
      exact Option.not_isSome_iff_eq_none.mp (not_or.mp hreach).2
    have hbreaks : t.step .fetch s = some (t.become .broken, s) := by simp only [Tick.step, hfetching, hnone]
    have hafter := hstep hbreaks
    have hquiet : p.call? (.tick .fetch) s = none := by
      simp only [hcall, Tick.call?, hfetching, hnone, Option.map_none]
    refine ⟨[.tick .fetch], _, _, _, run_of_step hafter rfl rfl, .inr rfl, fun c hc => ?_⟩
    rw [hquiet] at hc
    cases hc
termination_by Tick.callsLeft s.database.outbox.length t.progress

/-- **A poller that was told to stop can go on to its end**, whichever of its calls fail. -/
theorem exists_drain (f : Tick.Failures) (p : Poller) (s : System) (hstopping : p.isStopping = true)
    (htick : ∀ t due, p.phase = .ticking t due → t.progress.IsUnderWay) :
    ∃ (moves : List Move) (calls : List Tick.Call) (p' : Poller) (s' : System),
      p.run s (moves.map .move) = some (calls, p', s') ∧ p'.HasEnded ∧ ∀ c ∈ calls, c.Agrees f := by
  cases hp : p.phase with
  | stopped => exact ⟨[], [], p, s, rfl, .inl hp, nofun⟩
  | crashed => exact ⟨[], [], p, s, rfl, .inr hp, nofun⟩
  | waiting due => exact ⟨[.observe], [], _, _, run_observe hp hstopping, .inl rfl, nofun⟩
  | fresh =>
    by_cases hinterval : p.interval = 0
    · have hstep : p.step (.begin 0) s = some (p.become .crashed, s.log .pollerStarted) := by
        simp only [step, hp, hinterval, if_true]
      exact ⟨[.begin 0], _, _, _, run_of_step hstep rfl rfl, .inr rfl, by simp [call?, hp]⟩
    · have hstep : p.step (.begin 0) s = some (p.become (.waiting 0), s.log .pollerStarted) := by
        simp only [step, hp, hinterval, if_false]
      exact ⟨[.begin 0, .observe], _, _, _, run_of_step hstep rfl (run_observe rfl hstopping), .inl rfl,
        by simp [call?, hp]⟩
  | ticking t due => exact exists_drain_of_ticking f p s hp (htick t due hp) hstopping

/-! ## The law -/

theorem trace_of_run {topic : String} {batch interval : Nat}
    (hrun : (start topic batch interval).run s course = some (calls, p', s')) : p'.Trace calls :=
  run_keeps (P := fun calls p _ => p.Trace calls) (fun h ht hm => h.step ht hm) (fun h => h.stop) (fun _ h => h)
    [] (.idle [] (fun _ _ h => by cases h) rfl) hrun

theorem interval_of_run (hrun : p.run s course = some (calls, p', s')) : p'.interval = p.interval :=
  run_keeps (P := fun _ q _ => q.interval = p.interval) (fun h ht _ => ht.interval_eq.trans h) id (fun _ h => h)
    [] rfl hrun

/-- **A poller drains before it ends.** Whenever it is told to stop, and whatever the store and the broker answer and
others do meanwhile,

* its calls up to a time at which it is at no tick are those of whole ticks: each event that one of its fetches brought
  has been tried to publish, and then been marked if that succeeded, and else released. So it is when it has ended;
* it ends between two ticks, after it was told to stop, or else it breaks down: as it begins, without an interval, or
  in a fetch for which the calendar does not reach far enough, and which it has no answer of;
* when it has ended it makes no call any more, so an event that is still to be sent then, or later, stays so unless
  others send it;
* when it has been told to stop it can go on to its end, whichever of its calls fail. -/
theorem drains_before_it_ends {topic : String} {batch interval : Nat} {s s' : System} {course : List Happening}
    {calls : List Tick.Call} {p : Poller}
    (hrun : (start topic batch interval).run s course = some (calls, p, s')) :
    ((∀ t due, p.phase ≠ .ticking t due) → ∃ rounds : List Tick.Round, calls = rounds.flatMap Tick.Round.calls) ∧
    (p.HasEnded → ∃ before m after q s₁, course = before ++ .move m :: after ∧
      (start topic batch interval).run s before = some (calls, q, s₁) ∧
      ((∃ due, q.phase = .waiting due ∧ .stop ∈ before ∧ p.phase = .stopped) ∨
        (q.phase = .fresh ∧ interval = 0) ∨
        ∃ t due, q.phase = .ticking t due ∧ t.progress = .fetching ∧ s₁.now.add? s₁.database.lease = none)) ∧
    (p.HasEnded → ∀ rest later p' s'', p.run s' rest = some (later, p', s'') → later = [] ∧ p'.HasEnded ∧
      ∀ e ∈ s'.database.pending,
        (∀ change, .elsewhere change ∈ rest → ∀ s, e ∈ s.database.pending → e ∈ (change s).database.pending) →
          e ∈ s''.database.pending) ∧
    (.stop ∈ course → ∀ f : Tick.Failures, ∃ (moves : List Move) (later : List Tick.Call) (p' : Poller) (s'' : System),
      p.run s' (moves.map .move) = some (later, p', s'') ∧ p'.HasEnded ∧ ∀ c ∈ later, c.Agrees f) := by
  refine ⟨fun hphase => ?rounds, fun hended => ?ending, fun hended => ?silence, fun hstop f => ?drain⟩
  case rounds =>
    cases trace_of_run hrun with
    | idle rounds _ hcalls => exact ⟨rounds, hcalls⟩
    | ticking rounds t due more hp => exact absurd hp (hphase t due)
  case ending =>
    obtain ⟨before, m, after, q, s₁, q', s₂, hcourse, hbefore, ht, hm, hq', hphase⟩ :=
      exists_end hrun (by rintro (h | h) <;> cases h) hended
    refine ⟨before, m, after, q, s₁, hcourse, hbefore, ?_⟩
    rcases (ht.ends hm hq').2 with ⟨due, hwaiting, hstopping, hstopped⟩ | ⟨hfresh, hinterval⟩ | hfetching
    · refine .inl ⟨due, hwaiting, ?_, hphase ▸ hstopped⟩
      exact ((isStopping_of_run hbefore).mp hstopping).resolve_left nofun
    · exact .inr (.inl ⟨hfresh, (interval_of_run hbefore).symm.trans hinterval⟩)
    · exact .inr (.inr hfetching)
  case silence =>
    intro rest later p' s'' hrest
    obtain ⟨hlater, hphase, hkeeps⟩ := run_of_ended hended hrest
    refine ⟨hlater, ?_, fun e he hchanges => hkeeps (e ∈ ·.database.pending) hchanges he⟩
    rwa [HasEnded, hphase]
  case drain =>
    refine exists_drain f p s' ((isStopping_of_run hrun).mpr (.inr hstop)) fun t due hp => ?_
    cases trace_of_run hrun with
    | idle _ hphase => exact absurd hp (hphase t due)
    | ticking rounds t' due' more hp' hunderWay =>
      rw [hp'] at hp
      cases hp
      exact hunderWay

/-- A system whose outbox has two events that nobody has claimed. -/
def waitingSystem : System :=
  { System.fresh ⟨0, 0⟩ (.ofSeconds 30) (.ofSeconds 60) (.ofSeconds 60) with
    database := ⟨.ofSeconds 30, [], [.ofEvent (Database.bareEvent 1 5), .ofEvent (Database.bareEvent 2 3)]⟩ }

/-- A poller is told to stop while it waits for the broker, and a third event is committed before it has its answer. Of
its two events one is sent and marked; the other cannot be sent, and its claim cannot be ended either. -/
def stoppedCourse : List Happening :=
  [.move (.begin 0), .move (.wake 0), .move (.tick .fetch), .stop,
    .elsewhere (·.commit ⟨[], [Database.bareEvent 3 4]⟩), .move (.tick .publish), .move (.tick .mark),
    .move (.tick .publishFails), .move (.tick .unclaimFails), .move .observe]

/-- The poller has made five calls then, those of a whole tick, and makes no other. Two events are still to be sent. -/
theorem drains_before_it_ends_of_stopped :
    ∃ (calls : List Tick.Call) (p : Poller) (s' : System),
      (start "payments" 10 500).run waitingSystem stoppedCourse = some (calls, p, s') ∧ calls.length = 5 ∧
      s'.database.pending.length = 2 ∧ (∃ rounds : List Tick.Round, calls = rounds.flatMap Tick.Round.calls) ∧
      ∀ later p' s'', p.run s' [.elsewhere (·.advance 60000000000), .stop] = some (later, p', s'') →
        later = [] ∧ ∀ e ∈ s'.database.pending, e ∈ s''.database.pending := by
  have hread : ((start "payments" 10 500).run waitingSystem stoppedCourse).map
      (fun last => (last.1.length, last.2.1.phase, last.2.2.database.pending.length)) = some (5, .stopped, 2) := by
    -- the order of the rows that are fetched has to be computed by recursion on lists
    simp only [stoppedCourse, run]
    delta step Tick.step call? Tick.call? Database.fetch
    rw [Database.claimable_eq_insertionSort]
    rfl
  obtain ⟨⟨calls, p, s'⟩, hrun, hlast⟩ := Option.map_eq_some_iff.mp hread
  obtain ⟨hlength, hstopped, hpending⟩ : calls.length = 5 ∧ p.phase = .stopped ∧
      s'.database.pending.length = 2 := by simpa only [Prod.mk.injEq] using hlast
  obtain ⟨hrounds, -, hsilence, -⟩ := drains_before_it_ends hrun
  refine ⟨calls, p, s', hrun, hlength, hpending, hrounds fun t due h => ?ended, fun later p' s'' hlater => ?later⟩
  case ended =>
    rw [hstopped] at h
    cases h
  case later =>
    obtain ⟨hnone, -, hkeeps⟩ := hsilence (.inl hstopped) _ later p' s'' hlater
    refine ⟨hnone, fun e he => hkeeps e he fun change hin s h => ?_⟩
    obtain rfl : change = (·.advance 60000000000) := by simpa using hin
    exact h

end

end Poller

end PaymentRelay
