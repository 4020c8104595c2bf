import PaymentRelay.Proofs.World.Ending

/-!
# At most one payment for a key

The main law of payment commands. Whatever happens to them, two commands with one key both pay only if
the second was granted the key when the first one's reservation had expired; and if nothing happens to
them and the reservation does not expire, one of them pays and the others are told so.
-/

namespace PaymentRelay.World

/-- A run from `s` to `w` in which nothing happens to commands that have one key, the key is free when it
begins and is still held when it ends, and the ids of events are new. -/
structure Contested (s : System) (key : IdempotencyKey) (as : List Action) (w : World) : Prop where
  free : s.keys.contains key s.elapsed = false
  settled : s.detached = []
  actions : ∀ a ∈ as, a.isContest key = true
  ids : ∀ id ∈ w.drawn, s.database.hasEvent id = false
  live : w.system.elapsed < s.elapsed + s.keys.lifetime.toNanos
  /-- The clock can show the end of every reservation. -/
  clock : w.system.elapsed + s.keys.lifetime.toNanos < KeyStore.clockBound

/-- One command was accepted, all others were told that the key is taken, and one payment with its event
has come to the tables of `s`. -/
structure OnePaid (s : System) (w : World) (winner : Uuid) (p : Party) (id : Uuid) (now : Instant) :
    Prop where
  found : w.parties.find? winner = some p
  accepted : p.outcome? = some (.accepted id)
  rejected : ∀ token q, token ≠ winner → w.parties.find? token = some q →
    q.outcome? = some (.failed .duplicatePayment)
  payments : w.system.database.payments = s.database.payments ++ [.ofCommand p.command now]
  written : w.system.database.written =
    s.database.written ++ [.record (Payment.ofCommand p.command now).succeeded id now]

variable {s : System} {w : World} {as : List Action} {key : IdempotencyKey}

/-- Two commands that have paid with one key were granted it a lifetime apart. -/
theorem Leased.apart_of_paid {told : Uuid → Prop} (h : w.Leased told) {first second : Uuid} {p q : Party}
    (hne : first ≠ second) (hp : w.parties.find? first = some p)
    (hq : w.parties.find? second = some q) (hkey : p.command.key = q.command.key)
    (hfirst : ¬ told first ∧ first ∈ w.authors) (hsecond : ¬ told second ∧ second ∈ w.authors) :
    ∃ since later, p.reservedAt = some since ∧ q.reservedAt = some later ∧
      (since ≤ later → since + w.system.keys.lifetime.toNanos ≤ later) := by
  have hmay : w.MayPay told first p := .inr (hfirst.imp_right .inl)
  have hmay' : w.MayPay told second q := .inr (hsecond.imp_right .inl)
  obtain ⟨since, hsince, -⟩ := (h.sound first p hp).lease hmay
  obtain ⟨later, hlater, -⟩ := (h.sound second q hq).lease hmay'
  have hapart := h.apart first second p q hne hp hq hkey hmay hmay' since later hsince hlater
  exact ⟨since, later, hsince, hlater, fun hle => by omega⟩

/-- No command of a contest fails before it ends. -/
theorem Contest.well {token : Uuid} {p : Party} (h : Contest s key w)
    (hp : w.parties.find? token = some p) (cause : PaymentError) : p.progress ≠ .releasing cause := by
  intro hreleasing
  cases h.standing with
  | undecided _ hall =>
    rw [hall token p hp] at hreleasing
    cases hreleasing
  | won winner q since hq hwon hothers =>
    by_cases hw : token = winner
    · subst hw
      cases hp.symm.trans hq
      exact Won.not_releasing (hreleasing ▸ hwon)
    · have hlosing := hothers token p hw hp
      rw [hreleasing] at hlosing
      exact hlosing

theorem progress_of_outcome {p : Party} {outcome : Outcome} (h : p.outcome? = some outcome) :
    p.progress = .ended outcome := by
  unfold Party.outcome? at h
  split at h
  next heq => rw [heq, Option.some.inj h]
  next => cases h

/-- Once all commands of a contest have ended, one has paid. -/
theorem Contest.onePaid (h : Contest s key w) (hsome : 0 < w.parties.size)
    (hall : ∀ token p, w.parties.find? token = some p → p.outcome? ≠ none) :
    ∃ winner p id now, OnePaid s w winner p id now := by
  have hended : ∀ token p, w.parties.find? token = some p → ∃ outcome, p.progress = .ended outcome := by
    intro token p hp
    obtain ⟨outcome, ho⟩ := Option.ne_none_iff_exists'.mp (hall token p hp)
    exact ⟨outcome, progress_of_outcome ho⟩
  cases h.standing with
  | undecided _ hidle =>
    obtain ⟨⟨token, p⟩, hmem⟩ := List.exists_mem_of_length_pos hsome
    have hp := (Register.find?_eq_some_iff _).mpr hmem
    obtain ⟨outcome, ho⟩ := hended token p hp
    rw [hidle token p hp] at ho
    cases ho
  | won winner p since hp hwon hothers =>
    obtain ⟨outcome, ho⟩ := hended winner p hp
    rw [ho] at hwon
    obtain ⟨id, now, rfl, hpayments, hwritten⟩ := hwon.ended
    refine ⟨winner, p, id, now, hp, ?_, fun token q hne hq => ?_, hpayments, hwritten⟩
    · rw [Party.outcome?, ho]
    · obtain ⟨outcome, ho'⟩ := hended token q hq
      have hlosing := hothers token q hne hq
      rw [ho'] at hlosing
      rw [Party.outcome?, ho', losing_ended hlosing]

/-- **At most one payment for a live key.** In every run in which no commit is reported to have failed,
of two commands with one key that both have paid, the one that was granted the key later was granted it
when the earlier reservation had expired.

In a contest, every command takes six steps at most and can go on until it has ended; and when all have
ended, exactly one was accepted and all others were told that the key is taken. -/
theorem at_most_one_payment (hfaults : ∀ a ∈ as, a.isCommitFault = false)
    (hrun : (opening s).run as = some w) :
    (∀ first second p q, first ≠ second → w.parties.find? first = some p →
      w.parties.find? second = some q → p.command.key = q.command.key →
      first ∈ w.authors → second ∈ w.authors →
      ∃ since later, p.reservedAt = some since ∧ q.reservedAt = some later ∧
        (since ≤ later → since + s.keys.lifetime.toNanos ≤ later)) ∧
    ∀ key, Contested s key as w →
      (∀ token, as.countP (·.isMoveOf token) ≤ 6) ∧
      (∀ token p, w.parties.find? token = some p → p.outcome? = none → w.GoesOn token) ∧
      (0 < w.parties.size → (∀ token p, w.parties.find? token = some p → p.outcome? ≠ none) →
        ∃ winner p id now, OnePaid s w winner p id now) := by
  constructor
  · intro first second p q hne hp hq hkey hfirst hsecond
    rw [← lifetime_run hrun]
    have hleased : w.Leased fun _ => False := leased_run _ (fun _ _ _ hin => nomatch hfaults _ hin) hrun
    exact hleased.apart_of_paid hne hp hq hkey ⟨id, hfirst⟩ ⟨id, hsecond⟩
  · intro key h
    have hcontest := contest_run h.free h.settled h.actions hrun h.ids h.live h.clock
    have hsmooth : ∀ a ∈ as, a.isSmooth = true := by
      intro a ha
      have hcalm := h.actions a ha
      cases a with
      | move => exact hcalm
      | _ => rfl
    exact ⟨countP_move_le hsmooth hrun, fun token p hp hopen => goes_on hp hopen (hcontest.well hp),
      hcontest.onePaid⟩

/-! ## Two runs -/

/-- A command is accepted, its reservation expires, and another one with its key is accepted. -/
def paidTwice : List Action :=
  accepted (sampleCommand "k") (.ofNat 1) (.ofNat 11) ++
    .advance (Duration.ofSeconds 60).toNanos :: accepted (sampleCommand "k") (.ofNat 2) (.ofNat 12)

/-- Two commands contest a key, and the commit of the winner goes on by itself. -/
def contested : List Action :=
  [.enter (sampleCommand "k") (.ofNat 1), .enter (sampleCommand "k") (.ofNat 2),
    .move (.ofNat 2) .reserve, .move (.ofNat 1) .reserve, .move (.ofNat 2) (.reply (.ofNat 11)),
    .move (.ofNat 2) .writePayment, .move (.ofNat 1) (.reply (.ofNat 12)),
    .move (.ofNat 2) .writeEvent, .move (.ofNat 2) .detach, .finishCommit 0,
    .move (.ofNat 2) .acknowledge]

/-- Both cases occur: two payments a minute apart, and two commands of which one pays. -/
theorem at_most_one_payment_of_two :
    (∃ w p q since later, (opening sampleSystem).run paidTwice = some w ∧
      w.parties.find? (.ofNat 1) = some p ∧ w.parties.find? (.ofNat 2) = some q ∧
      p.command.key = q.command.key ∧ .ofNat 1 ∈ w.authors ∧ .ofNat 2 ∈ w.authors ∧
      p.reservedAt = some since ∧ q.reservedAt = some later ∧
      since + sampleSystem.keys.lifetime.toNanos ≤ later) ∧
    ∃ w winner p id now, (opening sampleSystem).run contested = some w ∧ w.parties.size = 2 ∧
      OnePaid sampleSystem w winner p id now := by
  constructor
  · obtain ⟨w, hrun⟩ : ∃ w, (opening sampleSystem).run paidTwice = some w :=
      Option.isSome_iff_exists.mp (by decide +kernel)
    have hauthors : w.authors = [.ofNat 1, .ofNat 2] := read_run hrun (by decide +kernel)
    have party : ∀ token at_, ((opening sampleSystem).run paidTwice).map (fun w =>
        (w.parties.find? token).map fun p => (p.command.key, p.reservedAt)) =
          some (some (⟨"k"⟩, some at_)) →
        ∃ p, w.parties.find? token = some p ∧ p.command.key = ⟨"k"⟩ ∧ p.reservedAt = some at_ := by
      intro token at_ h
      obtain ⟨p, hp, hpair⟩ := Option.map_eq_some_iff.mp (read_run hrun h)
      obtain ⟨hkey, hat⟩ := Prod.mk.inj hpair
      exact ⟨p, hp, hkey, hat⟩
    obtain ⟨p, hp, hkeyp, hatp⟩ := party (.ofNat 1) 0 (by decide +kernel)
    obtain ⟨q, hq, hkeyq, hatq⟩ := party (.ofNat 2) 60000000000 (by decide +kernel)
    have hkey : p.command.key = q.command.key := hkeyp.trans hkeyq.symm
    have hfirst : .ofNat 1 ∈ w.authors := by rw [hauthors]; decide
    have hsecond : .ofNat 2 ∈ w.authors := by rw [hauthors]; decide
    obtain ⟨since, later, hsince, hlater, hapart⟩ :=
      (at_most_one_payment (by decide) hrun).1 (.ofNat 1) (.ofNat 2) p q (by decide) hp hq hkey hfirst
        hsecond
    refine ⟨w, p, q, since, later, hrun, hp, hq, hkey, hfirst, hsecond, hsince, hlater, hapart ?_⟩
    rw [hatp] at hsince
    cases hsince
    exact Nat.zero_le _
  · obtain ⟨w, hrun⟩ : ∃ w, (opening sampleSystem).run contested = some w :=
      Option.isSome_iff_exists.mp (by decide +kernel)
    have hread : ((opening sampleSystem).run contested).map (fun w =>
        (w.system.elapsed, w.parties.size, w.parties.entries.all fun e => e.2.outcome?.isSome)) =
          some (0, 2, true) := by decide +kernel
    have hworld := read_run hrun hread
    simp only [Prod.mk.injEq] at hworld
    obtain ⟨helapsed, hsize, hended⟩ := hworld
    have hcontested : Contested sampleSystem ⟨"k"⟩ contested w := by
      refine ⟨rfl, rfl, by decide, fun _ _ => rfl, ?_, ?_⟩
      · rw [helapsed]
        decide
      · rw [helapsed]
        decide +kernel
    obtain ⟨winner, p, id, now, hpaid⟩ :=
      ((at_most_one_payment (by decide) hrun).2 ⟨"k"⟩ hcontested).2.2 (by rw [hsize]; decide)
        fun token p hp => by
          have hmem := (Register.find?_eq_some_iff _).mp hp
          have hsome := List.all_eq_true.mp hended _ hmem
          exact fun hno => by rw [hno] at hsome; cases hsome
    exact ⟨w, winner, p, id, now, hrun, hsize, hpaid⟩

end PaymentRelay.World
