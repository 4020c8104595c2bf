import PaymentRelay.Proofs.World.OnePayment

/-!
# When the acknowledgement of a commit is lost

Once the body of its transaction is finished a command keeps its key, whatever becomes of it, with one exception:
if it is told that its commit failed it lets the key go, whether or not the rows are in the database. So a key
that was let go after the body was finished means that the command was told so (`key_kept_unless_told`), and a
second payment for a live key is made only after such a report. The report can be wrong, so two payments for one
live key are possible: see the run at the end of this module.

What the others do to a command is stated once (`leftAlone_of_step`): nothing, as far as its own entry in the key
store is concerned. `Aftermath` follows one command from the end of its transaction's body on.
-/

namespace PaymentRelay

namespace Progress

/-- Progress after the end of the transaction's body; the key is about to be released only if the command was
told that its commit failed. -/
def IsAfter (told : Prop) : Progress → Prop
  | .committing .. | .awaitingCommit _ | .ended _ => True
  | .releasing _ => told
  | _ => False

theorem IsAfter.imp {told told' : Prop} {p : Progress} (h : p.IsAfter told) (himp : told → told') :
    p.IsAfter told' := by
  cases p with
  | committing | awaitingCommit | ended => trivial
  | releasing cause => exact himp h
  | reserving | writingPayment | writingEvent => exact h

theorem IsLate.isAfter {told : Prop} {p : Progress} (h : p.IsLate) : p.IsAfter told := by
  cases p with
  | committing | awaitingCommit => trivial
  | _ => exact h.elim

theorem IsLate.isHolding {p : Progress} (h : p.IsLate) : p.IsHolding := by
  cases p with
  | committing | awaitingCommit => trivial
  | _ => exact h.elim

end Progress

namespace Job

/-- After the end of the body every step but the release leaves the key alone, and only the report that the
commit failed leads to the release. -/
theorem Transition.after {c : PaymentCommand} {token : Uuid} {s s' : System} {p p' : Progress} {m : Move}
    {told : Prop} (h : Transition c token s p m p' s') (hp : p.IsAfter told) (hm : m ≠ .release)
    (htold : ∀ error isDurable, m = .commitFails error isDurable → told) :
    p'.IsAfter told ∧ s'.keys = s.keys ∧ s'.orphans = s.orphans := by
  cases h with
  | commits | detaches | acknowledged | releaseFails | droppedLate | droppedReleasing =>
    exact ⟨trivial, rfl, rfl⟩
  | commitFails id t error isDurable =>
    refine ⟨htold error isDurable rfl, ?_⟩
    cases isDurable <;> exact ⟨rfl, rfl⟩
  | commitLost id error isDurable => exact ⟨htold error isDurable rfl, rfl, rfl⟩
  | releases => exact absurd rfl hm
  | granted | accepts | writesPayment | writesEvent | taken | rejects | reserveFails | eventRefused | overflows =>
    exact hp.elim
  | writeFails _ h | panics _ h =>
    cases p with
    | writingPayment | writingEvent => exact hp.elim
    | _ => exact h.elim
  | dropped _ h =>
    cases p with
    | reserving | writingPayment | writingEvent => exact hp.elim
    | _ => exact h.elim

/-- A command that has ended takes no step. -/
theorem Transition.not_ended {c : PaymentCommand} {token : Uuid} {s s' : System} {p' : Progress} {m : Move}
    {outcome : Outcome} : ¬ Transition c token s (.ended outcome) m p' s' := by
  intro h
  cases h with
  | writeFails _ h | panics _ h | dropped _ h | droppedLate _ h => exact h

/-- Only a command that is about to release its key does so, and then it has ended. -/
theorem Transition.released {c : PaymentCommand} {token : Uuid} {s s' : System} {p p' : Progress}
    (h : Transition c token s p .release p' s') : (∃ cause, p = .releasing cause) ∧
      (∃ outcome, p' = .ended outcome) ∧ s'.keys = s.keys.release c.key token ∧ s'.orphans = s.orphans := by
  cases h with
  | releases cause => exact ⟨⟨cause, rfl⟩, ⟨_, rfl⟩, rfl, rfl⟩

end Job

namespace World

variable {w w' : World} {token : Uuid} {p : Party} {a : Action} {key : IdempotencyKey} {held : Held}

/-! ## What the others do -/

/-- A step that is not a command's own leaves the command as it is, leaves no key of it to the system, and
takes nothing out of the key store that bears its token. -/
structure LeftAlone (token : Uuid) (w w' : World) : Prop where
  parties : w'.parties.find? token = w.parties.find? token
  orphan : w'.IsOrphan token → w.IsOrphan token
  keys : w'.system.keys = w.system.keys ∨
    ∃ other, other ≠ token ∧ w.system.keys.TouchedBy other w.system.elapsed w'.system.keys
  elapsed : w.system.elapsed ≤ w'.system.elapsed

/-- Every step of others leaves a command alone whose key was not left to the system. -/
theorem leftAlone_of_step (hstep : w.step a = some w') (hp : w.parties.find? token = some p)
    (ho : ¬ w.IsOrphan token) (ha : ∀ m, a ≠ .move token m) : w.LeftAlone token w' := by
  have hlater := elapsed_le_of_step hstep
  cases change_of_step hstep with
  | advance nanos => exact ⟨rfl, id, .inl rfl, hlater⟩
  | enter c other hnew =>
    refine ⟨?_, id, .inl rfl, hlater⟩
    rw [entered, Register.find?_put, if_neg (ne_of_new hnew hp)]
  | move other m q progress s hq ht =>
    have hne : other ≠ token := by
      rintro rfl
      exact ha m rfl
    have htouch : w.TouchedBy other (w.commitAs other s) := touches_commitAs ht.touches
    exact ⟨find?_moved_of_ne w (Ne.symm hne) q progress s, htouch.isOrphan hne,
      .inr ⟨other, hne, ht.touches.keys⟩, hlater⟩
  | finishCommit place d hd =>
    have hsame : (w.system.finishCommit place).keys = w.system.keys ∧
        (w.system.finishCommit place).orphans = w.system.orphans := by
      simp only [System.finishCommit, hd]
      exact ⟨rfl, rfl⟩
    refine ⟨rfl, fun h => ?_, .inl hsame.1, hlater⟩
    rwa [IsOrphan, ← hsame.2]
  | finishOrphan place isReleased o horphan =>
    have hne : o.token ≠ token := by
      rintro rfl
      exact ho (List.mem_map_of_mem (List.mem_of_getElem? horphan))
    have htouch := System.touches_finishOrphan horphan isReleased
    refine ⟨rfl, ?_, .inr ⟨o.token, hne, htouch.keys⟩, hlater⟩
    exact TouchedBy.isOrphan ⟨htouch, fun a ha => .inl ha⟩ hne
  | elsewhere _ _ _ hparties _ _ hsystem =>
    refine ⟨by rw [hparties], fun h => ?_, .inl hsystem.keys, hlater⟩
    rwa [IsOrphan, ← hsystem.orphans]

/-- An entry of a command that is left alone stands. -/
theorem LeftAlone.stands (h : w.LeftAlone held.token w')
    (hs : w.system.keys.Stands w.system.elapsed key held) :
    w'.system.keys.Stands w'.system.elapsed key held := by
  rcases h.keys with hsame | ⟨other, hne, htouch⟩
  · rw [hsame]
    exact hs.later h.elapsed
  · exact (hs.touched htouch hne).later h.elapsed

/-- A key that is not held by a command that is left alone is not held by it afterwards. -/
theorem LeftAlone.gone (h : w.LeftAlone token w')
    (hgone : ∀ held, w.system.keys.held? key = some held → held.token ≠ token) :
    ∀ held, w'.system.keys.held? key = some held → held.token ≠ token := by
  intro held hheld
  rcases h.keys with hsame | ⟨other, hne, htouch⟩
  · exact hgone held (hsame ▸ hheld)
  · rcases htouch.entry hheld with hold | hown
    · exact hgone held hold
    · exact hown ▸ hne

/-! ## After the body -/

/-- A command is told in the course of some actions that its commit failed. -/
def Told (token : Uuid) (as : List Action) : Prop :=
  ∃ error isDurable, .move token (.commitFails error isDurable) ∈ as

/-- In every run the reservations of those commands are in order that were not told that their commits failed. -/
theorem leased_unless_told {s : System} {as : List Action} (hrun : (opening s).run as = some w) :
    w.Leased (Told · as) :=
  leased_run _ (fun _ error isDurable hin => ⟨error, isDurable, hin⟩) hrun

/-- What has become of a command, the body of whose transaction was finished before the actions `done`, and of
its entry in the key store. -/
inductive Aftermath (key : IdempotencyKey) (held : Held) (done : List Action) (w : World) : Prop
  | keeps (p : Party) (hp : w.parties.find? held.token = some p) (hkey : p.command.key = key)
      (hafter : p.progress.IsAfter (Told held.token done)) (horphan : ¬ w.IsOrphan held.token)
      (hrelease : .move held.token .release ∉ done)
      (hstands : w.system.keys.Stands w.system.elapsed key held)
  | letGo (p : Party) (outcome : Outcome) (hp : w.parties.find? held.token = some p)
      (hended : p.progress = .ended outcome) (horphan : ¬ w.IsOrphan held.token)
      (hrelease : .move held.token .release ∈ done) (htold : Told held.token done)
      (hgone : ∀ other, w.system.keys.held? key = some other → other.token ≠ held.token)

/-- **A command keeps its key, or was told that its commit failed and has let the key go.** -/
theorem Aftermath.step {done : List Action} (h : Aftermath key held done w) (hstep : w.step a = some w') :
    Aftermath key held (done ++ [a]) w' := by
  have told_more : Told held.token done → Told held.token (done ++ [a]) := fun ⟨error, isDurable, hin⟩ =>
    ⟨error, isDurable, List.mem_append_left _ hin⟩
  by_cases hown : ∃ m, a = .move held.token m
  · obtain ⟨m, rfl⟩ := hown
    obtain ⟨p, progress, s, hp, ht, rfl⟩ := moved_of_step hstep
    have hself := find?_moved_self w held.token p progress s
    cases h with
    | letGo q outcome hq hended =>
      cases hp.symm.trans hq
      rw [hended] at ht
      exact absurd ht Job.Transition.not_ended
    | keeps q hq hkey hafter horphan hrelease hstands =>
      cases hp.symm.trans hq
      by_cases hm : m = .release
      · subst hm
        obtain ⟨⟨cause, hcause⟩, ⟨outcome, rfl⟩, hkeys, horphans⟩ := ht.released
        rw [hcause] at hafter
        refine .letGo _ outcome hself rfl (by rwa [IsOrphan, ← horphans] at horphan)
          (List.mem_append_right _ List.mem_cons_self) (told_more hafter) fun other hother => ?_
        replace hother : s.keys.held? key = some other := hother
        rw [hkeys, hkey] at hother
        exact (KeyStore.entry_of_release hother).2 rfl
      · have htold : ∀ error isDurable, m = .commitFails error isDurable →
            Told held.token (done ++ [.move held.token m]) := fun error isDurable heq =>
          ⟨error, isDurable, List.mem_append_right _ (heq ▸ List.mem_cons_self)⟩
        obtain ⟨hafter', hkeys, horphans⟩ := ht.after (hafter.imp told_more) hm htold
        refine .keeps _ hself hkey hafter' (by rwa [IsOrphan, ← horphans] at horphan) ?_ ?_
        · rw [List.mem_append, List.mem_singleton, Action.move.injEq]
          rintro (hin | ⟨-, hreleased⟩)
          · exact hrelease hin
          · exact hm hreleased.symm
        · show s.keys.Stands s.elapsed key held
          rw [hkeys, ht.touches.elapsed]
          exact hstands
  · have ha : ∀ m, a ≠ .move held.token m := fun m hm => hown ⟨m, hm⟩
    cases h with
    | keeps p hp hkey hafter horphan hrelease hstands =>
      have hleft := leftAlone_of_step hstep hp horphan ha
      refine .keeps p (hleft.parties.trans hp) hkey (hafter.imp told_more) (fun h => horphan (hleft.orphan h)) ?_
        (hleft.stands hstands)
      rw [List.mem_append, List.mem_singleton]
      exact fun h => h.elim hrelease fun heq => ha _ heq.symm
    | letGo p outcome hp hended horphan hrelease htold hgone =>
      have hleft := leftAlone_of_step hstep hp horphan ha
      exact .letGo p outcome (hleft.parties.trans hp) hended (fun h => horphan (hleft.orphan h))
        (List.mem_append_left _ hrelease) (told_more htold) (hleft.gone hgone)

/-- The aftermath of a command throughout a run that begins when the body of its transaction is finished. -/
theorem aftermath_run {as : List Action} (hp : w.parties.find? held.token = some p) (hlate : p.progress.IsLate)
    (hkey : p.command.key = key) (horphan : ¬ w.IsOrphan held.token)
    (hstands : w.system.keys.Stands w.system.elapsed key held) (hrun : w.run as = some w') :
    Aftermath key held as w' := by
  have hstart : Aftermath key held [] w :=
    .keeps p hp hkey hlate.isAfter horphan List.not_mem_nil hstands
  exact run_traced (P := Aftermath key held) (fun _ _ _ _ h hstep => h.step hstep) hstart hrun

/-- Where an entry has not expired, it stands exactly if its command has not released its key, and the command
released its key only if it was told that its commit failed. -/
theorem Aftermath.held_iff {done : List Action} (h : Aftermath key held done w) :
    (w.system.elapsed < held.expires →
      (w.system.keys.held? key = some held ↔ .move held.token .release ∉ done)) ∧
    (.move held.token .release ∈ done → Told held.token done) := by
  cases h with
  | keeps p hp hkey hafter horphan hrelease hstands =>
    refine ⟨fun hlive => ⟨fun _ => hrelease, fun _ => ?_⟩, fun hin => absurd hin hrelease⟩
    exact hstands.resolve_right (Nat.not_le.mpr hlive)
  | letGo p outcome hp hended horphan hrelease htold hgone =>
    exact ⟨fun _ => ⟨fun hheld => absurd rfl (hgone held hheld), fun hno => absurd hrelease hno⟩, fun _ => htold⟩

variable {s : System} {as : List Action}

/-- **A key is let go after the body only upon the report that the commit failed.** In every run, whatever fails
and whoever is dropped, of two commands with one key that both have paid and were not told that their commits
failed, the one that was granted the key later was granted it when the earlier reservation had expired. And from
the moment the body of its transaction is finished, a command holds its key for the whole lifetime unless it
releases it, and it releases it only after it was told that its commit failed. -/
theorem key_kept_unless_told (hrun : (opening s).run as = some w) :
    (∀ first second p q, first ≠ second → w.parties.find? first = some p →
      w.parties.find? second = some q → p.command.key = q.command.key →
      first ∈ w.authors → second ∈ w.authors → ¬ Told first as → ¬ Told second as →
      ∃ since later, p.reservedAt = some since ∧ q.reservedAt = some later ∧
        (since ≤ later → since + s.keys.lifetime.toNanos ≤ later)) ∧
    ∀ before after now token p, as = before ++ after → (opening s).run before = some now →
      now.parties.find? token = some p → p.progress.IsLate →
      ∃ since, p.reservedAt = some since ∧
        (w.system.elapsed < since + s.keys.lifetime.toNanos →
          (w.system.keys.held? p.command.key = some ⟨token, since + s.keys.lifetime.toNanos⟩ ↔
            .move token .release ∉ after)) ∧
        (.move token .release ∈ after → Told token after) := by
  constructor
  · intro first second p q hne hp hq hkey hfirst hsecond huntold huntold'
    rw [← lifetime_run hrun]
    exact (leased_unless_told hrun).apart_of_paid hne hp hq hkey ⟨huntold, hfirst⟩ ⟨huntold', hsecond⟩
  · rintro before after now token p rfl hbefore hp hlate
    have hafter : now.run after = some w := by
      rwa [run_append, hbefore, Option.bind_some] at hrun
    have hsound : now.Sound (Told · before) token p := (leased_unless_told hbefore).sound token p hp
    obtain ⟨since, hsince, -, hstands⟩ := hsound.lease (.inl hlate.isHolding)
    rw [lifetime_run hbefore] at hstands
    have haftermath : Aftermath p.command.key ⟨token, since + s.keys.lifetime.toNanos⟩ after w :=
      aftermath_run hp hlate rfl (hsound.kept hlate.isHolding) hstands hafter
    exact ⟨since, hsince, haftermath.held_iff⟩

/-- A command has finished the body of its transaction. -/
def finishedBody : List Action :=
  .enter (sampleCommand "k") (.ofNat 1) ::
    [.reserve, .reply (.ofNat 11), .writePayment, .writeEvent].map (.move (.ofNat 1))

/-- It is dropped while its commit is on its way, and others with its key are refused before and after the
commit. -/
def droppedLate : List Action :=
  [.move (.ofNat 1) .detach, .move (.ofNat 1) (.drop true), .enter (sampleCommand "k") (.ofNat 2),
    .move (.ofNat 2) .reserve, .move (.ofNat 2) (.reply (.ofNat 12)), .finishCommit 0, .advance 5000000000,
    .enter (sampleCommand "k") (.ofNat 3), .move (.ofNat 3) .reserve, .move (.ofNat 3) (.reply (.ofNat 13))]

/-- One payment, and the key is still held by the command that was dropped. -/
theorem key_kept_unless_told_of_dropped :
    ∃ w, (opening sampleSystem).run (finishedBody ++ droppedLate) = some w ∧ w.authors = [.ofNat 1] ∧
      w.system.keys.held? ⟨"k"⟩ = some ⟨.ofNat 1, sampleSystem.keys.lifetime.toNanos⟩ := by
  have hbody : ((opening sampleSystem).run finishedBody).map (fun now =>
      (now.parties.find? (.ofNat 1)).map fun p => (p.command.key, p.reservedAt,
        match p.progress with | .committing .. => true | _ => false)) =
      some (some (⟨"k"⟩, some 0, true)) := by decide +kernel
  obtain ⟨now, hnow, hparty⟩ := Option.map_eq_some_iff.mp hbody
  obtain ⟨p, hp, hread⟩ := Option.map_eq_some_iff.mp hparty
  simp only [Prod.mk.injEq] at hread
  obtain ⟨hkey, hsince, hcommitting⟩ := hread
  have hlate : p.progress.IsLate := by
    split at hcommitting
    next h => exact h ▸ trivial
    next => cases hcommitting
  have hend : ((opening sampleSystem).run (finishedBody ++ droppedLate)).map (fun w =>
      (w.authors, w.system.elapsed)) = some ([.ofNat 1], 5000000000) := by decide +kernel
  obtain ⟨w, hrun, hworld⟩ := Option.map_eq_some_iff.mp hend
  obtain ⟨hauthors, helapsed⟩ := Prod.mk.inj hworld
  obtain ⟨-, hkept⟩ := key_kept_unless_told hrun
  obtain ⟨since, hsince', hheld, -⟩ := hkept finishedBody droppedLate now (.ofNat 1) p rfl hnow hp hlate
  cases hsince.symm.trans hsince'
  have hlive : w.system.elapsed < 0 + sampleSystem.keys.lifetime.toNanos := by
    rw [helapsed]
    decide
  refine ⟨w, hrun, hauthors, ?_⟩
  rw [← hkey, (hheld hlive).mpr (by simp [droppedLate]), Nat.zero_add]

/-- A command is told that its commit failed, although it did not, and another one with its key is accepted. -/
def chargedTwice : List Action :=
  finishedBody ++ [.commitFails (.unavailable "commit") true, .release].map (.move (.ofNat 1)) ++
    accepted (sampleCommand "k") (.ofNat 2) (.ofNat 12)

/-- Two payments with a key that is live all the time: the report that a commit failed lets the key go. -/
theorem paid_twice_after_commitFails :
    ∃ w, (opening sampleSystem).run chargedTwice = some w ∧ w.authors = [.ofNat 1, .ofNat 2] ∧
      w.system.database.payments.length = 2 ∧ w.system.elapsed < sampleSystem.keys.lifetime.toNanos ∧
      ∀ e ∈ w.parties.entries, e.2.command.key = ⟨"k"⟩ := by
  have hread : ((opening sampleSystem).run chargedTwice).map (fun w => decide (
      w.authors = [.ofNat 1, .ofNat 2] ∧ w.system.database.payments.length = 2 ∧
      w.system.elapsed < sampleSystem.keys.lifetime.toNanos ∧
      ∀ e ∈ w.parties.entries, e.2.command.key = ⟨"k"⟩)) = some true := by decide +kernel
  obtain ⟨w, hrun, hworld⟩ := Option.map_eq_some_iff.mp hread
  exact ⟨w, hrun, of_decide_eq_true hworld⟩

end World

end PaymentRelay
