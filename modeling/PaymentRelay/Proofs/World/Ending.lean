import PaymentRelay.Proofs.World.Contest

/-!
# Commands come to an end

A command nothing fails for and nobody drops never waits for nothing: whatever it is at, it can take a
step, or its commit is on its way and can be done (`goes_on`). And it takes six steps at most
(`countP_move_le`). So it ends in every run that goes on for as long as anything can be done for it.
-/

namespace PaymentRelay.World

variable {s : System} {w w' : World} {token : Uuid} {p : Party} {m : Job.Move}

/-! ## Going on -/

/-- A command takes every step its progress has an answer to. -/
theorem isSome_step_move (hp : w.parties.find? token = some p) {progress : Progress} {s : System}
    (ht : Job.Transition p.command token w.system p.progress m progress s) :
    (w.step (.move token m)).isSome = true := by
  simp only [step, hp, Option.bind_eq_bind, Option.bind_some, Job.step_of_transition ht]
  rfl

/-- Something can be done for a command without anything failing. -/
inductive GoesOn (w : World) (token : Uuid) : Prop
  | moves (m : Job.Move) (hm : m.isSmooth = true) (h : (w.step (.move token m)).isSome = true)
  | commits (place : Nat) (d : Detached) (hd : w.system.detached[place]? = some d)
      (howner : d.owner = token) (h : (w.step (.finishCommit place)).isSome = true)

/-- **No command waits for nothing.** A command that has neither failed nor ended can go on. -/
theorem goes_on (hp : w.parties.find? token = some p) (hopen : p.outcome? = none)
    (hwell : ∀ cause, p.progress ≠ .releasing cause) : w.GoesOn token := by
  obtain ⟨command, progress, reservedAt⟩ := p
  cases progress with
  | reserving decision =>
    cases decision with
    | none =>
      cases h : (w.system.keys.reserve command.key token w.system.elapsed).1 with
      | granted => exact .moves .reserve rfl (isSome_step_move hp (.granted h))
      | taken => exact .moves .reserve rfl (isSome_step_move hp (.taken h))
      | overflow => exact .moves (.reservePanics true) rfl (isSome_step_move hp (.overflows h true))
    | some isGranted =>
      cases isGranted with
      | true => exact .moves (.reply .nil) rfl (isSome_step_move hp (.accepts _))
      | false => exact .moves (.reply .nil) rfl (isSome_step_move hp (.rejects _))
  | writingPayment payment event =>
    exact .moves .writePayment rfl (isSome_step_move hp (.writesPayment payment event))
  | writingEvent event t =>
    cases h : w.system.database.insertEvent t event with
    | ok t' => exact .moves .writeEvent rfl (isSome_step_move hp (.writesEvent event t t' h))
    | error e => exact .moves .writeEvent rfl (isSome_step_move hp (.eventRefused event t e h))
  | committing id t => exact .moves .commit rfl (isSome_step_move hp (.commits id t))
  | awaitingCommit id =>
    cases h : w.system.isDetached token with
    | false => exact .moves .acknowledge rfl (isSome_step_move hp (.acknowledged id h))
    | true =>
      obtain ⟨d, hmem, howner⟩ := List.any_eq_true.mp h
      obtain ⟨place, hd⟩ := List.mem_iff_getElem?.mp hmem
      refine .commits place d hd (beq_iff_eq.mp howner) ?_
      simp only [step, hd]
      rfl
  | releasing cause => exact absurd rfl (hwell cause)
  | ended => cases hopen

/-! ## Counting steps -/

/-- Whether an action is a step of the command of a token. -/
def Action.isMoveOf (token : Uuid) : Action → Bool
  | .move t _ => t == token
  | _ => false

/-- Whether an action lets no command fail and drops none. -/
def Action.isSmooth : Action → Bool
  | .move _ m => m.isSmooth
  | _ => true

/-- The number of steps the command of a token takes at most from now on. -/
def movesLeft (w : World) (token : Uuid) : Nat :=
  match w.parties.find? token with
  | some p => p.progress.left
  | none => (Progress.reserving none).left

/-- A command that entered has all its steps left. -/
theorem movesLeft_entered {c : PaymentCommand} {other : Uuid} (hnew : other ∉ w.tokens) :
    (w.entered c other).movesLeft token = w.movesLeft token := by
  simp only [movesLeft, entered, Register.find?_put]
  by_cases h : token = other
  · subst h
    have hno : w.parties.find? token = none := Option.eq_none_iff_forall_ne_some.mpr fun q hq =>
      ne_of_new hnew hq rfl
    simp only [if_pos, hno]
  · simp only [if_neg h]

/-- A smooth step of a command leaves it with less. -/
theorem movesLeft_step {a : Action} (ha : a.isSmooth = true) (hstep : w.step a = some w') :
    (if a.isMoveOf token then 1 else 0) + w'.movesLeft token ≤ w.movesLeft token := by
  cases change_of_step hstep with
  | advance | finishCommit | finishOrphan =>
    simp only [Action.isMoveOf, Bool.false_eq_true, if_false, Nat.zero_add]
    exact Nat.le_refl _
  | enter c other hnew =>
    simp only [Action.isMoveOf, Bool.false_eq_true, if_false, Nat.zero_add]
    exact Nat.le_of_eq (movesLeft_entered hnew)
  | move other m p progress sys hp ht =>
    have hlt := ht.left_lt (Job.Move.ne_commitFails ha)
    by_cases h : other = token
    · subst h
      simp only [Action.isMoveOf, beq_self_eq_true, if_true, movesLeft, find?_moved_self, hp]
      rw [Nat.add_comm]
      exact hlt
    · simp only [Action.isMoveOf, beq_eq_false_iff_ne.mpr h, Bool.false_eq_true, if_false,
        Nat.zero_add, movesLeft, find?_moved_of_ne w (Ne.symm h)]
      exact Nat.le_refl _
  | elsewhere a w' ha hparties =>
    cases a with
    | advance | enter | move | finishCommit | finishOrphan => cases ha
    | _ =>
      simp only [Action.isMoveOf, Bool.false_eq_true, if_false, Nat.zero_add, movesLeft, hparties]
      exact Nat.le_refl _

/-- **A command takes six steps at most**, in whatever order the steps of all commands come. -/
theorem countP_move_le {as : List Action} (has : ∀ a ∈ as, a.isSmooth = true)
    (hrun : (opening s).run as = some w) (token : Uuid) :
    as.countP (·.isMoveOf token) ≤ (Progress.reserving none).left := by
  -- steps that were taken and steps that are left never come to more than a command begins with
  have hkeeps := run_keeps (P := fun w rest => (∀ a ∈ rest, a.isSmooth = true) ∧
      as.countP (·.isMoveOf token) + w.movesLeft token ≤
        rest.countP (·.isMoveOf token) + (Progress.reserving none).left)
    (fun w a rest w' hw hstep => ?_) ⟨has, Nat.le_refl _⟩ hrun
  · have hcount := hkeeps.2
    rw [List.countP_nil, Nat.zero_add] at hcount
    exact Nat.le_trans (Nat.le_add_right ..) hcount
  · obtain ⟨hsmooth, hcount⟩ := hw
    have hstep' : (if a.isMoveOf token then 1 else 0) + w'.movesLeft token ≤ w.movesLeft token :=
      movesLeft_step (hsmooth a List.mem_cons_self) hstep
    refine ⟨fun b hb => hsmooth b (List.mem_cons_of_mem a hb), ?_⟩
    rw [List.countP_cons] at hcount
    omega

end PaymentRelay.World
