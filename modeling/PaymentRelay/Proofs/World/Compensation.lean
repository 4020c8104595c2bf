import Mathlib.Data.List.Infix
import PaymentRelay.Proofs.World.Acknowledgement

/-!
# Keys that stay blocked

An entry in the key store is there for a reason (`Accounted`): its command is at work, or the key was left to the
system, or the body of the command's transaction was finished, or the command left the key to nobody. The first two
come to an end by themselves where every release succeeds, and the third is how it should be. So a key stays blocked
by a command that wrote nothing exactly if the command left it to nobody (`blocked_iff_left_to_nobody`). There are
two ways to do so: a command that is dropped while it waits for the release no longer counts the key as its own, and
one that is dropped or panics before that where there is no runtime can only report that nobody will release the key.
-/

namespace PaymentRelay

namespace Progress

/-- Progress of a command that waits for the release of its key. -/
def IsReleasing : Progress → Prop
  | .releasing _ => True
  | _ => False

/-- Progress of a command that has its key and has not ended. -/
def IsWorking (p : Progress) : Prop :=
  p.IsHolding ∨ p.IsReleasing

theorem IsWriting.isEarly {p : Progress} (h : p.IsWriting) : p.IsEarly := by
  cases p with
  | writingPayment | writingEvent => trivial
  | _ => exact h.elim

/-- Whether the body of the transaction is still at work can be decided. -/
instance : DecidablePred IsEarly
  | .reserving _ | .writingPayment .. | .writingEvent .. => .isTrue trivial
  | .committing .. | .awaitingCommit _ | .releasing _ | .ended _ => .isFalse id

/-- Whether the body of the transaction is finished can be decided. -/
instance : DecidablePred IsLate
  | .committing .. | .awaitingCommit _ => .isTrue trivial
  | .reserving _ | .writingPayment .. | .writingEvent .. | .releasing _ | .ended _ => .isFalse id

instance : DecidablePred IsReleasing
  | .releasing _ => .isTrue trivial
  | .reserving _ | .writingPayment .. | .writingEvent .. | .committing .. | .awaitingCommit _ | .ended _ =>
    .isFalse id

end Progress

namespace Job

/-- A command is dropped while it waits for the release of its key. -/
def IsDroppedReleasing (p : Progress) (m : Move) : Prop :=
  p.IsReleasing ∧ ∃ hasRuntime, m = .drop hasRuntime

/-- A command is dropped or panics before the body of its transaction is finished, where there is no runtime. -/
def IsLeftWithoutRuntime (p : Progress) (m : Move) : Prop :=
  p.IsEarly ∧ (m = .drop false ∨ m = .writePanics false)

/-- A command ends and leaves its key to nobody. -/
def IsLeftToNobody (p : Progress) (m : Move) : Prop :=
  IsDroppedReleasing p m ∨ IsLeftWithoutRuntime p m

variable {c : PaymentCommand} {token : Uuid} {s s' : System} {p p' : Progress} {m : Move}

/-- A command that leaves its key to nobody ends and leaves it as it was. -/
theorem Transition.left_to_nobody (h : Transition c token s p m p' s') (hm : IsLeftToNobody p m) :
    (∃ outcome, p' = .ended outcome) ∧ s'.keys = s.keys ∧ s'.orphans = s.orphans := by
  rcases hm with ⟨hreleasing, hasRuntime, rfl⟩ | ⟨hearly, rfl | rfl⟩
  · cases h with
    | dropped _ hearly => cases p <;> first | exact hearly.elim | exact hreleasing.elim
    | droppedLate _ hlate => cases p <;> first | exact hlate.elim | exact hreleasing.elim
    | droppedReleasing => exact ⟨⟨_, rfl⟩, rfl, rfl⟩
  · cases h with
    | dropped => exact ⟨⟨_, rfl⟩, rfl, rfl⟩
    | droppedLate _ hlate => cases p <;> first | exact hlate.elim | exact hearly.elim
    | droppedReleasing => exact hearly.elim
  · cases h with
    | panics => exact ⟨⟨_, rfl⟩, rfl, rfl⟩

/-- How a step of a command that has its key goes on: the command is still at work, or it has ended after the
body of its transaction, or it has released its key, or it has failed to, or it has left the key to the system, or
it has left the key to nobody. -/
inductive Leaving (c : PaymentCommand) (token : Uuid) (s : System) (p : Progress) (m : Move)
    (p' : Progress) (s' : System) : Prop
  | works (hp' : p'.IsWorking) (hkeys : s'.keys = s.keys)
  | finishes (hp : p.IsLate) (hkeys : s'.keys = s.keys)
  | releases (hkeys : s'.keys = s.keys.release c.key token)
  | fails (hm : m = .releaseFails)
  | leaves (horphan : ⟨c.key, token⟩ ∈ s'.orphans)
  | slips (hm : IsLeftToNobody p m)

/-- A key that is left behind goes to the system, or to nobody where there is no runtime. -/
theorem leaving_of_leaveKey {hasRuntime : Bool} (hm : hasRuntime = false → IsLeftWithoutRuntime p m) :
    Leaving c token s p m p' (leaveKey hasRuntime c.key token s) := by
  cases hasRuntime with
  | true => exact .leaves (mem_orphans_leaveKey.mpr (.inr ⟨rfl, rfl⟩))
  | false => exact .slips (.inr (hm rfl))

theorem Transition.leaving (h : Transition c token s p m p' s') (hp : p.IsWorking) :
    Leaving c token s p m p' s' := by
  cases h with
  | accepts | writesPayment | writesEvent | detaches => exact .works (.inl trivial) rfl
  | writeFails | eventRefused | reserveFails | commitLost => exact .works (.inr trivial) rfl
  | commitFails id t error isDurable => exact .works (.inr trivial) (by cases isDurable <;> rfl)
  | commits | acknowledged => exact .finishes trivial rfl
  | droppedLate _ h => exact .finishes h rfl
  | releases => exact .releases rfl
  | releaseFails => exact .fails rfl
  | panics _ h => exact leaving_of_leaveKey fun hno => ⟨h.isEarly, .inr (by rw [hno])⟩
  | dropped _ h => exact leaving_of_leaveKey fun hno => ⟨h, .inl (by rw [hno])⟩
  | droppedReleasing cause hasRuntime => exact .slips (.inl ⟨trivial, hasRuntime, rfl⟩)
  | granted | taken | overflows | rejects =>
    exact hp.elim False.elim False.elim

/-- A command puts an entry into the key store only when its key is granted. -/
theorem Transition.entry {key : IdempotencyKey} {held : Held} (h : Transition c token s p m p' s')
    (hheld : s'.keys.held? key = some held) : s.keys.held? key = some held ∨
      key = c.key ∧ held.token = token ∧ p' = .reserving (some true) := by
  cases h with
  | granted => exact (KeyStore.entry_of_reserve hheld).imp_right fun ⟨_, hkey, htoken⟩ => ⟨hkey, htoken, rfl⟩
  | taken hanswer =>
    refine .inl ((KeyStore.entry_of_reserve hheld).resolve_right fun ⟨hgranted, _⟩ => ?_)
    rw [hanswer] at hgranted
    cases hgranted
  | overflows hanswer =>
    rw [leaveKey_keys] at hheld
    refine .inl ((KeyStore.entry_of_reserve hheld).resolve_right fun ⟨hgranted, _⟩ => ?_)
    rw [hanswer] at hgranted
    cases hgranted
  | panics | dropped => exact .inl (by rwa [leaveKey_keys] at hheld)
  | releases => exact .inl (KeyStore.entry_of_release hheld).1
  | commitFails id t error isDurable => exact .inl (by cases isDurable <;> exact hheld)
  | _ => exact .inl hheld

/-- A command takes no orphan from the system. -/
theorem Transition.orphans_mono (h : Transition c token s p m p' s') {o : Orphan} (ho : o ∈ s.orphans) :
    o ∈ s'.orphans := by
  cases h with
  | overflows | panics | dropped => exact mem_orphans_leaveKey.mpr (.inl ho)
  | commitFails id t error isDurable => cases isDurable <;> exact ho
  | _ => exact ho

end Job

namespace World

variable {s : System} {w w' : World} {a : Action} {done : List Action} {key : IdempotencyKey} {held : Held}
  {token : Uuid}

/-! ## What happened to a command -/

/-- The body of a command's transaction was finished in the course of a run. -/
def Finished (s : System) (as : List Action) (token : Uuid) : Prop :=
  ∃ before now p, before <+: as ∧ (opening s).run before = some now ∧
    now.parties.find? token = some p ∧ p.progress.IsLate

/-- A command took a step of some kind in the course of a run, and still held its key. -/
def Took (kind : Progress → Job.Move → Prop) (s : System) (as : List Action) (key : IdempotencyKey)
    (held : Held) : Prop :=
  ∃ before after now p m, as = before ++ .move held.token m :: after ∧ (opening s).run before = some now ∧
    now.parties.find? held.token = some p ∧ kind p.progress m ∧ now.system.keys.held? key = some held

/-- A command was dropped in the course of a run while it waited for the release of its key, which it still
held. -/
abbrev DroppedReleasing (s : System) (as : List Action) (key : IdempotencyKey) (held : Held) : Prop :=
  Took Job.IsDroppedReleasing s as key held

/-- A command that held its key was dropped or panicked in the course of a run, before the body of its transaction
was finished and where there was no runtime. -/
abbrev LeftWithoutRuntime (s : System) (as : List Action) (key : IdempotencyKey) (held : Held) : Prop :=
  Took Job.IsLeftWithoutRuntime s as key held

theorem Finished.more (h : Finished s done token) (a : Action) : Finished s (done ++ [a]) token := by
  obtain ⟨before, now, p, hbefore, h⟩ := h
  exact ⟨before, now, p, hbefore.trans (List.prefix_append ..), h⟩

/-- A step of some kind is one of every kind that has the first one in it. -/
theorem Took.mono {kind kind' : Progress → Job.Move → Prop} (h : Took kind s done key held)
    (hkind : ∀ p m, kind p m → kind' p m) : Took kind' s done key held := by
  obtain ⟨before, after, now, p, m, has, hnow, hp, hm, hheld⟩ := h
  exact ⟨before, after, now, p, m, has, hnow, hp, hkind _ m hm, hheld⟩

theorem took_or_iff {kind kind' : Progress → Job.Move → Prop} :
    Took (fun p m => kind p m ∨ kind' p m) s done key held ↔
      Took kind s done key held ∨ Took kind' s done key held := by
  constructor
  · rintro ⟨before, after, now, p, m, has, hnow, hp, hm | hm, hheld⟩
    · exact .inl ⟨before, after, now, p, m, has, hnow, hp, hm, hheld⟩
    · exact .inr ⟨before, after, now, p, m, has, hnow, hp, hm, hheld⟩
  · rintro (h | h)
    · exact h.mono fun _ _ => .inl
    · exact h.mono fun _ _ => .inr

theorem Took.more {kind : Progress → Job.Move → Prop} (h : Took kind s done key held) (a : Action) :
    Took kind s (done ++ [a]) key held := by
  obtain ⟨before, after, now, p, m, rfl, h⟩ := h
  refine ⟨before, after ++ [a], now, p, m, ?_, h⟩
  rw [List.append_assoc, List.cons_append]

/-- Whether a release fails, be it a command's own or one that was left to the system. -/
def Action.isReleaseFault : Action → Bool
  | .move _ .releaseFails | .finishOrphan _ false => true
  | _ => false

/-! ## Why an entry is there -/

/-- Why an entry of a command is in the key store after a run. -/
inductive Reason (s : System) (done : List Action) (w : World) (key : IdempotencyKey) (held : Held)
    (p : Party) : Prop
  | working (h : p.progress.IsWorking)
  | orphan (h : ⟨key, held.token⟩ ∈ w.system.orphans)
  | finished (h : Finished s done held.token)
  | slipped (h : Took Job.IsLeftToNobody s done key held)

/-- Every entry was there from the beginning, or is one of a command that has a reason for it. -/
def Accounted (s : System) (done : List Action) (w : World) : Prop :=
  ∀ key held, w.system.keys.held? key = some held → s.keys.held? key = some held ∨
    ∃ p, w.parties.find? held.token = some p ∧ p.command.key = key ∧ Reason s done w key held p

/-- A reason holds on where the command is still as it was and no orphan is gone. -/
theorem Reason.more {p : Party} (h : Reason s done w key held p) (a : Action)
    (horphans : ∀ o ∈ w.system.orphans, o ∈ w'.system.orphans) : Reason s (done ++ [a]) w' key held p := by
  cases h with
  | working h => exact .working h
  | orphan h => exact .orphan (horphans _ h)
  | finished h => exact .finished (h.more a)
  | slipped h => exact .slipped (h.more a)

/-- Where keys, commands and orphans are the same, every entry is accounted for as before. -/
theorem Accounted.of_same (h : Accounted s done w) (hkeys : w'.system.keys = w.system.keys)
    (hparties : ∀ token p, w.parties.find? token = some p → w'.parties.find? token = some p)
    (horphans : w'.system.orphans = w.system.orphans) (a : Action) : Accounted s (done ++ [a]) w' := by
  intro key held hheld
  rcases h key held (hkeys ▸ hheld) with hfirst | ⟨p, hp, hkey, hreason⟩
  · exact .inl hfirst
  · exact .inr ⟨p, hparties _ _ hp, hkey, hreason.more a fun o ho => horphans ▸ ho⟩

/-- **An entry keeps its reason over a step of its command.** -/
theorem Reason.moved {m : Job.Move} {p : Party} {progress : Progress} {sys : System}
    (h : Reason s done w key held p) (hrun : (opening s).run done = some w)
    (hp : w.parties.find? held.token = some p) (hkey : p.command.key = key)
    (hfault : m ≠ .releaseFails) (hold : w.system.keys.held? key = some held)
    (hheld : sys.keys.held? key = some held)
    (ht : Job.Transition p.command held.token w.system p.progress m progress sys)
    (horphans : ∀ o ∈ w.system.orphans, o ∈ sys.orphans) :
    Reason s (done ++ [.move held.token m]) (w.moved held.token p progress sys) key held
      (p.advanced progress w.system.elapsed) := by
  cases h with
  | orphan h => exact .orphan (horphans _ h)
  | finished h => exact .finished (h.more _)
  | slipped h => exact .slipped (h.more _)
  | working h =>
    cases ht.leaving h with
    | works hworking => exact .working hworking
    | finishes hlate => exact .finished ⟨done, w, p, List.prefix_append .., hrun, hp, hlate⟩
    | releases hkeys =>
      -- the release takes the entry out
      rw [hkeys, hkey] at hheld
      exact absurd rfl ((KeyStore.entry_of_release hheld).2 rfl)
    | fails hm => exact absurd hm hfault
    | leaves horphan => exact .orphan (hkey ▸ horphan)
    | slips hm => exact .slipped ⟨done, [], w, p, m, rfl, hrun, hp, hm, hold⟩

/-- **Every entry stays accounted for where releases succeed.** -/
theorem Accounted.step (h : Accounted s done w) (hrun : (opening s).run done = some w)
    (ha : a.isReleaseFault = false) (hstep : w.step a = some w') : Accounted s (done ++ [a]) w' := by
  cases change_of_step hstep with
  | advance nanos =>
    apply h.of_same
    case hparties => exact fun _ _ => id
    all_goals rfl
  | enter c token hnew =>
    apply h.of_same
    case hparties =>
      intro other p hp
      rwa [entered, Register.find?_put, if_neg (ne_of_new hnew hp)]
    all_goals rfl
  | move token m q progress sys hq ht =>
    have horphans : ∀ o ∈ w.system.orphans, o ∈ sys.orphans := fun o ho => ht.orphans_mono ho
    intro key held hheld
    rcases ht.entry hheld with hold | ⟨hkey, rfl, rfl⟩
    · rcases h key held hold with hfirst | ⟨p, hp, hkey, hreason⟩
      · exact .inl hfirst
      · right
        by_cases hne : held.token = token
        · subst hne
          cases hp.symm.trans hq
          refine ⟨_, find?_moved_self .., hkey, ?_⟩
          exact hreason.moved hrun hp hkey (fun hm => by subst hm; cases ha) hold hheld ht horphans
        · exact ⟨p, (find?_moved_of_ne w hne ..).trans hp, hkey, hreason.more _ horphans⟩
    · exact .inr ⟨_, find?_moved_self .., hkey.symm, .working (.inl trivial)⟩
  | finishCommit place d hd =>
    apply h.of_same
    case hparties => exact fun _ _ => id
    all_goals
      simp only [commitAs, System.finishCommit, hd]
      rfl
  | finishOrphan place isReleased o ho =>
    cases isReleased with
    | false => cases ha
    | true =>
      intro key held hheld
      simp only [System.finishOrphan, ho, reduceIte] at hheld
      obtain ⟨hold, hreleased⟩ := KeyStore.entry_of_release hheld
      rcases h key held hold with hfirst | ⟨p, hp, hkey, hreason⟩
      · exact .inl hfirst
      · refine .inr ⟨p, hp, hkey, ?_⟩
        cases hreason with
        | working h => exact .working h
        | finished h => exact .finished (h.more _)
        | slipped h => exact .slipped (h.more _)
        | orphan h =>
          -- the orphan of an entry that is still there is not the one that was released
          obtain ⟨i, hi⟩ := List.mem_iff_getElem?.mp h
          have hne : i ≠ place := by
            rintro rfl
            cases ho.symm.trans hi
            exact hreleased rfl rfl
          refine .orphan ?_
          simp only [System.finishOrphan, ho]
          exact List.mem_eraseIdx_iff_getElem?.mpr ⟨i, hne, hi⟩
  | elsewhere a w' _ hparties _ _ hsystem =>
    exact h.of_same hsystem.keys (fun _ _ hp => hparties ▸ hp) hsystem.orphans _

/-- Every entry is accounted for throughout a run in which releases succeed. -/
theorem accounted_run {as : List Action} (hreleases : ∀ a ∈ as, a.isReleaseFault = false)
    (hrun : (opening s).run as = some w) : Accounted s as w := by
  have hstart : (opening s).run [] = some (opening s) ∧
      ((∀ a ∈ ([] : List Action), a.isReleaseFault = false) → Accounted s [] (opening s)) :=
    ⟨rfl, fun _ _ _ hheld => .inl hheld⟩
  refine (run_traced (P := fun done now => (opening s).run done = some now ∧
    ((∀ a ∈ done, a.isReleaseFault = false) → Accounted s done now)) ?_ hstart hrun).2 hreleases
  intro done now a next ⟨hdone, haccounted⟩ hstep
  refine ⟨?_, fun hall => ?_⟩
  · rw [run_append, hdone, Option.bind_some, run, hstep]
    rfl
  · have hbefore := haccounted fun b hb => hall b (List.mem_append_left _ hb)
    exact hbefore.step hdone (hall a (List.mem_append_right _ List.mem_cons_self)) hstep

/-! ## Keys that stay blocked -/

/-- An entry of a command that has ended and left no key to the system stands until it expires. -/
theorem stands_of_ended {as : List Action} {p : Party} {outcome : Outcome}
    (hp : w.parties.find? held.token = some p) (hended : p.progress = .ended outcome)
    (horphan : ¬ w.IsOrphan held.token) (hstands : w.system.keys.Stands w.system.elapsed key held)
    (hrun : w.run as = some w') : w'.system.keys.Stands w'.system.elapsed key held := by
  refine (run_keeps (P := fun now _ => now.parties.find? held.token = some p ∧ ¬ now.IsOrphan held.token ∧
    now.system.keys.Stands now.system.elapsed key held) ?_ ⟨hp, horphan, hstands⟩ hrun).2.2
  intro now a rest next ⟨hp, horphan, hstands⟩ hstep
  have ha : ∀ m, a ≠ .move held.token m := by
    rintro m rfl
    obtain ⟨q, progress, sys, hq, ht, rfl⟩ := moved_of_step hstep
    cases hp.symm.trans hq
    rw [hended] at ht
    exact ht.not_ended
  have hleft := leftAlone_of_step hstep hp horphan ha
  exact ⟨hleft.parties.trans hp, fun h => horphan (hleft.orphan h), hleft.stands hstands⟩

/-- An entry that its command left to nobody stands until it expires. -/
theorem Took.stands {as : List Action} (h : Took Job.IsLeftToNobody s as key held)
    (hrun : (opening s).run as = some w) : w.system.keys.Stands w.system.elapsed key held := by
  obtain ⟨before, after, now, p, m, rfl, hnow, hp, hm, hheld⟩ := h
  rw [run_append, hnow, Option.bind_some] at hrun
  obtain ⟨next, hstep, hafter⟩ := Option.bind_eq_some_iff.mp hrun
  obtain ⟨q, progress, sys, hq, ht, rfl⟩ := moved_of_step hstep
  cases hp.symm.trans hq
  obtain ⟨⟨outcome, rfl⟩, hkeys, horphans⟩ := ht.left_to_nobody hm
  -- only a command that has ended has left its key to the system
  have hsound : now.Sound (Told · before) held.token p := (leased_unless_told hnow).sound held.token p hp
  have horphan : ¬ now.IsOrphan held.token := by
    intro ho
    obtain ⟨⟨outcome, hended⟩, -⟩ := hsound.orphan ho
    rw [hended] at ht
    exact ht.not_ended
  refine stands_of_ended (find?_moved_self ..) rfl (fun ho => horphan ?_) (.inl (hkeys ▸ hheld)) hafter
  rw [IsOrphan, ← horphans]
  exact ho

/-- **What blocks a key.** In every run in which releases succeed, whatever else fails and whoever is dropped:
once every command has ended and the system has released all keys that were left to it, a live entry bears the
token of a command that never finished the body of its transaction exactly if that command, while it held the key,
was dropped as it waited for the release, or was dropped or panicked before where there was no runtime. -/
theorem blocked_iff_left_to_nobody {as : List Action}
    (hreleases : ∀ a ∈ as, a.isReleaseFault = false) (hrun : (opening s).run as = some w)
    (hnew : ∀ key held, s.keys.held? key = some held → w.parties.find? held.token = none)
    (hended : ∀ token p, w.parties.find? token = some p → ∃ outcome, p.progress = .ended outcome)
    (horphans : w.system.orphans = []) :
    ∀ key held p, w.parties.find? held.token = some p → held.isLive w.system.elapsed = true →
      ¬ Finished s as held.token →
      (w.system.keys.held? key = some held ↔
        DroppedReleasing s as key held ∨ LeftWithoutRuntime s as key held) := by
  intro key held p hp hlive hunfinished
  constructor
  · intro hheld
    rcases accounted_run hreleases hrun key held hheld with hfirst | ⟨q, hq, -, hreason⟩
    · rw [hnew key held hfirst] at hp
      cases hp
    · cases hp.symm.trans hq
      obtain ⟨outcome, hp'⟩ := hended held.token p hp
      cases hreason with
      | working h =>
        rw [hp'] at h
        exact h.elim False.elim False.elim
      | orphan h =>
        rw [horphans] at h
        cases h
      | finished h => exact absurd h hunfinished
      | slipped h => exact took_or_iff.mp h
  · intro h
    exact ((took_or_iff.mpr h).stands hrun).resolve_right (Nat.not_le.mpr (of_decide_eq_true hlive))

/-- Whether the body of a command's transaction was never finished can be read off the beginnings of a run. -/
theorem not_finished_of_all {as : List Action}
    (h : (as.inits.all fun before => ((opening s).run before).all fun now =>
      (now.parties.find? token).all fun p => !decide p.progress.IsLate) = true) : ¬ Finished s as token := by
  rintro ⟨before, now, p, hbefore, hnow, hp, hlate⟩
  have hworld := List.all_eq_true.mp h before ((List.mem_inits before as).mpr hbefore)
  rw [hnow, Option.all_some, hp, Option.all_some, decide_eq_true hlate] at hworld
  cases hworld

/-- What a command held and how far it had come when it took a step can be read off the beginning of a run. -/
theorem took_of_read {as : List Action} {kind : Progress → Job.Move → Prop} (before after : List Action)
    (m : Job.Move) (stood : Progress → Prop) [DecidablePred stood] (hkind : ∀ p, stood p → kind p m)
    (has : as = before ++ .move held.token m :: after)
    (hread : (((opening s).run before).any fun now => decide (now.system.keys.held? key = some held) &&
      (now.parties.find? held.token).any fun p => decide (stood p.progress)) = true) :
    Took kind s as key held := by
  obtain ⟨now, hnow, hboth⟩ := (Option.any_eq_true _ _).mp hread
  obtain ⟨hheld, hparty⟩ := Bool.and_eq_true_iff.mp hboth
  obtain ⟨p, hp, hstood⟩ := (Option.any_eq_true _ _).mp hparty
  exact ⟨before, after, now, p, m, has, hnow, hp, hkind _ (of_decide_eq_true hstood), of_decide_eq_true hheld⟩

/-- Three commands hold their keys. One was dropped, and its key was released for it; one could not write and is
giving its key back; and one is about to write. -/
def threeAtWork : List Action :=
  [.enter (sampleCommand "k") (.ofNat 1), .move (.ofNat 1) .reserve, .move (.ofNat 1) (.drop true),
    .enter (sampleCommand "l") (.ofNat 2), .move (.ofNat 2) .reserve, .move (.ofNat 2) (.reply (.ofNat 12)),
    .finishOrphan 0 true, .move (.ofNat 2) (.writeFails (.unavailable "ledger")),
    .enter (sampleCommand "m") (.ofNat 3), .move (.ofNat 3) .reserve, .move (.ofNat 3) (.reply (.ofNat 13))]

/-- The second is dropped, and the third panics where there is no runtime. -/
def twoLeave : List Action :=
  [.move (.ofNat 2) (.drop true), .move (.ofNat 3) (.writePanics false)]

/-- The first key is free, and the others are blocked by commands that have ended, of which one was reported. -/
theorem blocked_iff_left_to_nobody_of_three :
    ∃ w, (opening sampleSystem).run (threeAtWork ++ twoLeave) = some w ∧
      w.system.database.payments = [] ∧ w.system.keys.held? ⟨"k"⟩ = none ∧
      w.system.keys.held? ⟨"l"⟩ = some ⟨.ofNat 2, sampleSystem.keys.lifetime.toNanos⟩ ∧
      w.system.keys.held? ⟨"m"⟩ = some ⟨.ofNat 3, sampleSystem.keys.lifetime.toNanos⟩ ∧
      w.system.journal.count .noRuntime = 1 := by
  have hend : ((opening sampleSystem).run (threeAtWork ++ twoLeave)).map (fun w => decide (
      w.system.elapsed = 0 ∧ w.system.database.payments.length = 0 ∧ w.system.orphans = [] ∧
      w.system.keys.held? ⟨"k"⟩ = none ∧ w.system.journal.count .noRuntime = 1 ∧
      (w.parties.entries.all fun e => e.2.outcome?.isSome) = true ∧
      (w.parties.find? (.ofNat 2)).isSome = true ∧ (w.parties.find? (.ofNat 3)).isSome = true)) = some true := by
    decide +kernel
  obtain ⟨w, hrun, hread⟩ := Option.map_eq_some_iff.mp hend
  obtain ⟨helapsed, hpayments, horphans, hfree, hreported, hended, hsecond, hthird⟩ := of_decide_eq_true hread
  obtain ⟨q, hq⟩ := Option.isSome_iff_exists.mp hsecond
  obtain ⟨r, hr⟩ := Option.isSome_iff_exists.mp hthird
  have hall : ∀ token p, w.parties.find? token = some p → ∃ outcome, p.progress = .ended outcome := by
    intro token p hp
    have hmem := (Register.find?_eq_some_iff _).mp hp
    obtain ⟨outcome, ho⟩ := Option.isSome_iff_exists.mp (List.all_eq_true.mp hended _ hmem)
    exact ⟨outcome, progress_of_outcome ho⟩
  have hblocked := blocked_iff_left_to_nobody (by decide) hrun (fun _ _ h => nomatch h) hall horphans
  have hdropped : DroppedReleasing sampleSystem (threeAtWork ++ twoLeave) ⟨"l"⟩
      ⟨.ofNat 2, sampleSystem.keys.lifetime.toNanos⟩ := by
    refine took_of_read threeAtWork [.move (.ofNat 3) (.writePanics false)] (.drop true)
      Progress.IsReleasing ?_ rfl ?_
    · exact fun p hp => ⟨hp, true, rfl⟩
    · decide +kernel
  have hleft : LeftWithoutRuntime sampleSystem (threeAtWork ++ twoLeave) ⟨"m"⟩
      ⟨.ofNat 3, sampleSystem.keys.lifetime.toNanos⟩ := by
    refine took_of_read (threeAtWork ++ [.move (.ofNat 2) (.drop true)]) [] (.writePanics false)
      Progress.IsEarly ?_ rfl ?_
    · exact fun p hp => ⟨hp, .inr rfl⟩
    · decide +kernel
  refine ⟨w, hrun, List.eq_nil_of_length_eq_zero hpayments, hfree, ?_, ?_, hreported⟩
  · exact (hblocked _ _ q hq (by rw [helapsed]; decide) (not_finished_of_all (by decide +kernel))).mpr
      (.inl hdropped)
  · exact (hblocked _ _ r hr (by rw [helapsed]; decide) (not_finished_of_all (by decide +kernel))).mpr
      (.inr hleft)

/-- A command that could not write is dropped while it gives its key back. -/
def slipped : List Action :=
  .enter (sampleCommand "k") (.ofNat 1) ::
    [.reserve, .reply (.ofNat 11), .writeFails (.unavailable "ledger"), .drop true].map (.move (.ofNat 1))

/-- Releases succeed, nothing is at work any more and nothing was written, but the key is blocked. -/
theorem key_blocked_by_dropped :
    ∃ w, (opening sampleSystem).run slipped = some w ∧ (∀ a ∈ slipped, a.isReleaseFault = false) ∧
      w.system.orphans = [] ∧ (∀ e ∈ w.parties.entries, e.2.outcome? = some .cancelled) ∧
      ¬ Finished sampleSystem slipped (.ofNat 1) ∧ w.system.keys.contains ⟨"k"⟩ w.system.elapsed = true ∧
      w.system.keys.held? ⟨"k"⟩ = some ⟨.ofNat 1, sampleSystem.keys.lifetime.toNanos⟩ := by
  have hread : ((opening sampleSystem).run slipped).map (fun w => decide (
      w.system.orphans = [] ∧ (∀ e ∈ w.parties.entries, e.2.outcome? = some .cancelled) ∧
      w.system.keys.contains ⟨"k"⟩ w.system.elapsed = true ∧
      w.system.keys.held? ⟨"k"⟩ = some ⟨.ofNat 1, sampleSystem.keys.lifetime.toNanos⟩)) = some true := by
    decide +kernel
  obtain ⟨w, hrun, hworld⟩ := Option.map_eq_some_iff.mp hread
  obtain ⟨horphans, hended, hlive, hheld⟩ := of_decide_eq_true hworld
  exact ⟨w, hrun, by decide, horphans, hended, not_finished_of_all (by decide +kernel), hlive, hheld⟩

end World

end PaymentRelay
