import PaymentRelay.Proofs.World.Touch

/-!
# One payment for a live key

A command that may still pay, or has paid, was granted its key at some time, and that reservation stands
in the key store until it expires: nobody else can take it out (`Covers.touched`), and the command
itself releases its key only when it can no longer pay. So the key is granted to another command only
after it has expired, and of two commands that pay with one key the later one was granted the key when
the earlier one's reservation had expired.

`Sound` is the invariant for one command, `Leased` the one for a world. A command that is told that its commit
failed lets its key go although the payment may come in, so both are stated for a run in which only certain
commands are `told` so, and the payments of those do not count.
-/

namespace PaymentRelay

namespace Progress

/-- Progress under which a command has been granted its key and may still pay. -/
def IsHolding : Progress → Prop
  | .reserving (some true) | .writingPayment .. | .writingEvent .. | .committing ..
  | .awaitingCommit _ => True
  | _ => False

/-- Progress after the command handed its rows over or ended. -/
def IsPast : Progress → Prop
  | .awaitingCommit _ | .ended _ => True
  | _ => False

end Progress

namespace Job

/-- Where a transition leads as far as the key is concerned: the key is granted, or a command that
holds its key goes on with it, or a command that has not paid gives up, or one that may have paid is told that
its commit failed. -/
inductive Turn (c : PaymentCommand) (token : Uuid) (s : System) (p : Progress) (m : Move) (p' : Progress)
    (s' : System) : Prop
  | granted (h : (s.keys.reserve c.key token s.elapsed).1 = .granted) (hp : p = .reserving none)
      (hp' : p' = .reserving (some true)) (hs : s' = decided c token s)
  | goesOn (hp : p.IsHolding) (hnew : p' ≠ .reserving (some true)) (hkeys : s'.keys = s.keys)
      (horphans : s'.orphans = s.orphans) (hpast : p.IsPast → p'.IsPast)
      (hpaid : p'.IsPast ∨ s'.database.payments = s.database.payments ∧ s'.detached = s.detached)
  | givesUp (hp : ¬ p.IsPast) (hp' : ¬ p'.IsHolding)
      (hpayments : s'.database.payments = s.database.payments) (hdetached : s'.detached = s.detached)
      (horphans : s'.orphans = s.orphans ∨ ∃ outcome, p' = .ended outcome)
  | told (error : PaymentError) (isDurable : Bool) (hm : m = .commitFails error isDurable)
      (hp : p.IsHolding) (hp' : ¬ p'.IsHolding) (horphans : s'.orphans = s.orphans)

/-- Every transition is one of the four. -/
theorem Transition.turn {c : PaymentCommand} {token : Uuid} {s s' : System} {p p' : Progress} {m : Move}
    (h : Transition c token s p m p' s') : Turn c token s p m p' s' := by
  cases h with
  | granted h => exact .granted h rfl rfl rfl
  | accepts | writesPayment | writesEvent =>
    exact .goesOn trivial nofun rfl rfl nofun (.inr ⟨rfl, rfl⟩)
  | commits | detaches => exact .goesOn trivial nofun rfl rfl nofun (.inl trivial)
  | acknowledged => exact .goesOn trivial nofun rfl rfl (fun _ => trivial) (.inl trivial)
  | droppedLate _ hp =>
    cases p with
    | committing | awaitingCommit => exact .goesOn trivial nofun rfl rfl (fun _ => trivial) (.inl trivial)
    | _ => exact hp.elim
  | commitFails _ _ error isDurable =>
    exact .told error isDurable rfl trivial nofun (by cases isDurable <;> rfl)
  | commitLost _ error isDurable => exact .told error isDurable rfl trivial nofun rfl
  | taken | rejects | reserveFails | eventRefused | releases | releaseFails =>
    exact .givesUp nofun nofun rfl rfl (.inl rfl)
  | overflows =>
    exact .givesUp nofun nofun (congrArg _ leaveKey_database) leaveKey_detached (.inr ⟨_, rfl⟩)
  | droppedReleasing => exact .givesUp nofun nofun rfl rfl (.inl rfl)
  | writeFails _ hp =>
    cases p with
    | writingPayment | writingEvent => exact .givesUp nofun nofun rfl rfl (.inl rfl)
    | _ => exact hp.elim
  | panics _ hp =>
    cases p with
    | writingPayment | writingEvent =>
      exact .givesUp nofun nofun (congrArg _ leaveKey_database) leaveKey_detached (.inr ⟨_, rfl⟩)
    | _ => exact hp.elim
  | dropped _ hp =>
    cases p with
    | reserving | writingPayment | writingEvent =>
      exact .givesUp nofun nofun (congrArg _ leaveKey_database) leaveKey_detached (.inr ⟨_, rfl⟩)
    | _ => exact hp.elim

end Job

namespace World

/-! ## What a world knows of a token -/

/-- A payment under this token has come in, or is on its way. -/
def HasPaid (w : World) (token : Uuid) : Prop :=
  token ∈ w.authors ∨ token ∈ w.system.detached.map (·.owner)

/-- A key under this token was left to the system. -/
def IsOrphan (w : World) (token : Uuid) : Prop :=
  token ∈ w.system.orphans.map (·.token)

/-- A payment under this token counts: it has come in or is on its way, and the command is none of those
that are told that their commits failed. -/
def Counts (told : Uuid → Prop) (w : World) (token : Uuid) : Prop :=
  ¬ told token ∧ w.HasPaid token

/-- The command has a payment that counts or may still pay. -/
def MayPay (told : Uuid → Prop) (w : World) (token : Uuid) (p : Party) : Prop :=
  p.progress.IsHolding ∨ w.Counts told token

/-- What happened between two worlds bears one token. -/
structure TouchedBy (token : Uuid) (w w' : World) : Prop where
  system : w.system.TouchedBy token w'.system
  authors : ∀ a ∈ w'.authors, a ∈ w.authors ∨ a = token

variable {told : Uuid → Prop} {w w' : World} {token other : Uuid} {p : Party}

/-- Payments are put down to the token of the one that brought them in. -/
theorem touches_commitAs {s : System} (h : w.system.TouchedBy token s) :
    w.TouchedBy token (w.commitAs token s) := by
  constructor
  case system => exact h
  case authors =>
    intro a ha
    rcases List.mem_append.mp ha with ha | ha
    · exact .inl ha
    · exact .inr (List.eq_of_mem_replicate ha)

/-- Nobody pays under the token of somebody else. -/
theorem TouchedBy.hasPaid (h : w.TouchedBy other w') (hne : other ≠ token) (hpaid : w'.HasPaid token) :
    w.HasPaid token := by
  rcases hpaid with ha | hd
  · rcases h.authors token ha with ha | ha
    · exact .inl ha
    · exact absurd ha.symm hne
  · obtain ⟨d, hmem, rfl⟩ := List.mem_map.mp hd
    rcases h.system.detached d hmem with hold | hown
    · exact .inr (List.mem_map_of_mem hold)
    · exact absurd hown.symm hne

/-- Nobody leaves a key to the system under the token of somebody else. -/
theorem TouchedBy.isOrphan (h : w.TouchedBy other w') (hne : other ≠ token) (ho : w'.IsOrphan token) :
    w.IsOrphan token := by
  obtain ⟨o, hmem, rfl⟩ := List.mem_map.mp ho
  rcases h.system.orphans o hmem with hold | hown
  · exact List.mem_map_of_mem hold
  · exact absurd hown.symm hne

/-- A world in which no payment came in and none was sent on its way knows of no more payments. -/
theorem counts_commitAs {s : System} (hp : s.database.payments = w.system.database.payments)
    (hd : s.detached = w.system.detached) :
    (w.commitAs other s).Counts told token ↔ w.Counts told token := by
  simp only [Counts, HasPaid, commitAs, hp, hd, Nat.sub_self, List.replicate_zero, List.append_nil]

/-! ## The invariant of one command -/

/-- What is true of a command at all times: once its key was left to the system it has ended without a payment
that counts; once it has such a payment it is past the commit; and as long as it may pay it is covered. -/
structure Sound (told : Uuid → Prop) (w : World) (token : Uuid) (p : Party) : Prop where
  orphan : w.IsOrphan token → (∃ outcome, p.progress = .ended outcome) ∧ ¬ w.Counts told token
  past : w.Counts told token → p.progress.IsPast
  lease : w.MayPay told token p → ∃ since, p.reservedAt = some since ∧
    w.system.keys.Covers w.system.elapsed p.command.key token since

/-- Whether a command is sound depends on the system and on who has paid. -/
theorem Sound.of_eq (h : w.Sound told token p) (hsystem : w'.system = w.system)
    (hauthors : w'.authors = w.authors) : w'.Sound told token p := by
  obtain ⟨system, parties, ticks, authors, drawn, deliveries⟩ := w'
  cases hsystem
  cases hauthors
  exact ⟨h.orphan, h.past, h.lease⟩

/-- What bears the token of somebody else does a command no harm. -/
theorem Sound.touched (hs : w.Sound told token p) (h : w.TouchedBy other w') (hne : other ≠ token) :
    w'.Sound told token p := by
  have hcounts : w'.Counts told token → w.Counts told token := fun hc => hc.imp_right (h.hasPaid hne)
  constructor
  case orphan =>
    intro ho
    obtain ⟨hended, hpaid⟩ := hs.orphan (h.isOrphan hne ho)
    exact ⟨hended, fun hc => hpaid (hcounts hc)⟩
  case past => exact fun hc => hs.past (hcounts hc)
  case lease =>
    intro hm
    obtain ⟨since, hsince, hcovers⟩ := hs.lease (hm.imp_right hcounts)
    refine ⟨since, hsince, ?_⟩
    rw [h.system.elapsed]
    exact hcovers.touched h.system.keys hne

/-- A command that is not past its commit has no payment that counts, and its key was not left to the
system. -/
theorem Sound.fresh (hs : w.Sound told token p) (hp : ¬ p.progress.IsPast) :
    ¬ w.Counts told token ∧ ¬ w.IsOrphan token := by
  constructor
  · intro hpaid
    exact hp (hs.past hpaid)
  · intro horphan
    obtain ⟨outcome, hended⟩ := (hs.orphan horphan).1
    exact hp (hended ▸ trivial)

/-- A command that may still pay has not ended, so its key was not left to the system. -/
theorem Sound.kept (hs : w.Sound told token p) (hp : p.progress.IsHolding) : ¬ w.IsOrphan token := by
  intro h
  obtain ⟨outcome, hended⟩ := (hs.orphan h).1
  rw [hended] at hp
  exact hp

/-- **A command keeps its own invariant.** If it is granted its key it is covered from then on; if it goes
on it stays covered; if it gives up it has not paid and never will; and if it is told that its commit failed
its payment does not count. -/
theorem Sound.moved {s : System} {m : Job.Move} {progress : Progress} (hs : w.Sound told token p)
    (ht : Job.Turn p.command token w.system p.progress m progress s)
    (htold : ∀ error isDurable, m = .commitFails error isDurable → told token)
    (helapsed : s.elapsed = w.system.elapsed) :
    (w.commitAs token s).Sound told token (p.advanced progress w.system.elapsed) := by
  cases ht with
  | granted hg hp hp' hsys =>
    subst hsys
    obtain ⟨hpaid, horphan⟩ := hs.fresh (hp ▸ nofun)
    have hsame : (w.commitAs token (Job.decided p.command token w.system)).Counts told token ↔
      w.Counts told token := counts_commitAs rfl rfl
    subst hp'
    constructor
    case orphan => exact fun h => absurd h horphan
    case past => exact fun h => absurd (hsame.mp h) hpaid
    case lease => exact fun _ => ⟨w.system.elapsed, p.reservedAt_granted _, KeyStore.covers_of_granted hg⟩
  | goesOn hp hnew hkeys horphans hpast hpaid =>
    obtain ⟨since, hsince, hcovers⟩ := hs.lease (.inl hp)
    constructor
    case orphan =>
      intro h
      exact absurd (by rwa [IsOrphan, ← horphans]) (hs.kept hp)
    case past =>
      intro h
      rcases hpaid with hnow | ⟨hpay, hdet⟩
      · exact hnow
      · exact hpast (hs.past ((counts_commitAs hpay hdet).mp h))
    case lease =>
      intro _
      refine ⟨since, (p.reservedAt_advanced hnew _).trans hsince, ?_⟩
      show s.keys.Covers s.elapsed p.command.key token since
      rw [hkeys, helapsed]
      exact hcovers
  | givesUp hp hp' hpay hdet horphans =>
    obtain ⟨hpaid, horphan⟩ := hs.fresh hp
    have hsame : ¬ (w.commitAs token s).Counts told token :=
      fun h => hpaid ((counts_commitAs hpay hdet).mp h)
    constructor
    case orphan =>
      intro h
      rcases horphans with hkept | hended
      · exact absurd (by rwa [IsOrphan, ← hkept]) horphan
      · exact ⟨hended, hsame⟩
    case past => exact fun h => absurd h hsame
    case lease => exact fun h => (h.elim hp' hsame).elim
  | told error isDurable hm hp hp' horphans =>
    have hnot : ¬ (w.commitAs token s).Counts told token := fun h => h.1 (htold error isDurable hm)
    constructor
    case orphan => exact fun h => absurd (by rwa [IsOrphan, ← horphans]) (hs.kept hp)
    case past => exact fun h => absurd h hnot
    case lease => exact fun h => (h.elim hp' hnot).elim

/-- A command that may pay after a step could already pay, on the same reservation, or was granted its
key in this step. -/
theorem MayPay.before {s : System} {m : Job.Move} {progress : Progress} (hs : w.Sound told token p)
    (ht : Job.Turn p.command token w.system p.progress m progress s)
    (htold : ∀ error isDurable, m = .commitFails error isDurable → told token)
    (hm : (w.commitAs token s).MayPay told token (p.advanced progress w.system.elapsed)) :
    (w.MayPay told token p ∧ (p.advanced progress w.system.elapsed).reservedAt = p.reservedAt) ∨
      (w.system.keys.reserve p.command.key token w.system.elapsed).1 = .granted ∧
        (p.advanced progress w.system.elapsed).reservedAt = some w.system.elapsed := by
  cases ht with
  | granted hg _ hp' _ =>
    subst hp'
    exact .inr ⟨hg, p.reservedAt_granted _⟩
  | goesOn hp hnew => exact .inl ⟨.inl hp, p.reservedAt_advanced hnew _⟩
  | givesUp hp hp' hpay hdet =>
    rcases hm with hholding | hpaid
    · exact absurd hholding hp'
    · exact absurd ((counts_commitAs hpay hdet).mp hpaid) (hs.fresh hp).1
  | told error isDurable hfails hp hp' =>
    rcases hm with hholding | hpaid
    · exact absurd hholding hp'
    · exact absurd (htold error isDurable hfails) hpaid.1

/-! ## The invariant of a world -/

/-- Every command is sound, and of two commands with one key that may pay one was granted the key when
the other's reservation had expired. -/
structure Leased (told : Uuid → Prop) (w : World) : Prop where
  sound : ∀ token p, w.parties.find? token = some p → w.Sound told token p
  apart : ∀ token other p q, token ≠ other → w.parties.find? token = some p →
    w.parties.find? other = some q → p.command.key = q.command.key → w.MayPay told token p →
    w.MayPay told other q → ∀ since later, p.reservedAt = some since → q.reservedAt = some later →
    since + w.system.keys.lifetime.toNanos ≤ later ∨ later + w.system.keys.lifetime.toNanos ≤ since

/-- A world that opens has no command to speak of. -/
theorem leased_opening (s : System) : (opening s).Leased told where
  sound _ _ h := absurd h find?_opening
  apart _ _ _ _ _ h := absurd h find?_opening

/-- Time, and what bears the token of no command, keeps a world leased. -/
theorem Leased.of_same (h : w.Leased told) (hparties : w'.parties = w.parties)
    (hkeys : w'.system.keys.lifetime = w.system.keys.lifetime)
    (hpaid : ∀ token, w'.HasPaid token → w.HasPaid token)
    (hsound : ∀ token p, w.parties.find? token = some p → w'.Sound told token p) : w'.Leased told where
  sound token p hp := hsound token p (hparties ▸ hp)
  apart token other p q hne hp hq hkey hm hm' := by
    rw [hkeys]
    rw [hparties] at hp hq
    exact h.apart token other p q hne hp hq hkey (hm.imp_right (·.imp_right (hpaid token)))
      (hm'.imp_right (·.imp_right (hpaid other)))

/-- The only step that can break a lease is a new grant, and it comes after the old reservation has
expired. -/
theorem Leased.moved (h : w.Leased told) {m : Job.Move} {progress : Progress} {s : System}
    (hp : w.parties.find? token = some p)
    (ht : Job.Transition p.command token w.system p.progress m progress s)
    (htold : ∀ error isDurable, m = .commitFails error isDurable → told token) :
    (w.moved token p progress s).Leased told := by
  have hturn := ht.turn
  have htouch : w.TouchedBy token (w.commitAs token s) := touches_commitAs ht.touches
  have hlife : s.keys.lifetime = w.system.keys.lifetime := ht.touches.keys.lifetime
  have hsound := h.sound token p hp
  -- the reservation of another command that may pay is older than a grant to this one
  have hgrant : ∀ other q since, token ≠ other → w.parties.find? other = some q →
      q.command.key = p.command.key → w.MayPay told other q → q.reservedAt = some since →
      (w.system.keys.reserve p.command.key token w.system.elapsed).1 = .granted →
      since + w.system.keys.lifetime.toNanos ≤ w.system.elapsed := by
    intro other q since hne hq hkey hmay hsince hg
    obtain ⟨since', hsince', hcovers⟩ := (h.sound other q hq).lease hmay
    rw [hsince] at hsince'
    cases hsince'
    rw [hkey] at hcovers
    exact hcovers.expired hg
  constructor
  case sound =>
    intro t q hq
    rcases find?_moved hq with ⟨rfl, rfl⟩ | ⟨hne, hold⟩
    · exact (hsound.moved hturn htold ht.touches.elapsed).of_eq rfl rfl
    · exact ((h.sound t q hold).touched htouch (Ne.symm hne)).of_eq rfl rfl
  case apart =>
    intro t u q r hne hq hr hkey hmq hmr since later hsince hlater
    show since + s.keys.lifetime.toNanos ≤ later ∨ later + s.keys.lifetime.toNanos ≤ since
    rw [hlife]
    rcases find?_moved hq with ⟨rfl, rfl⟩ | ⟨hq', hqold⟩
    · rcases find?_moved hr with ⟨rfl, rfl⟩ | ⟨hr', hrold⟩
      · exact absurd rfl hne
      · have hmr' : w.MayPay told u r := hmr.imp_right (·.imp_right (htouch.hasPaid (Ne.symm hr')))
        rcases MayPay.before hsound hturn htold hmq with ⟨hmq', hsame⟩ | ⟨hg, hnow⟩
        · exact h.apart t u p r hne hp hrold hkey hmq' hmr' since later (hsame ▸ hsince) hlater
        · rw [hnow] at hsince
          cases hsince
          exact .inr (hgrant u r later (Ne.symm hr') hrold hkey.symm hmr' hlater hg)
    · have hmq' : w.MayPay told t q := hmq.imp_right (·.imp_right (htouch.hasPaid (Ne.symm hq')))
      rcases find?_moved hr with ⟨rfl, rfl⟩ | ⟨hr', hrold⟩
      · rcases MayPay.before hsound hturn htold hmr with ⟨hmr', hsame⟩ | ⟨hg, hnow⟩
        · exact h.apart t u q p hne hqold hp hkey hmq' hmr' since later hsince (hsame ▸ hlater)
        · rw [hnow] at hlater
          cases hlater
          exact .inl (hgrant t q since (Ne.symm hq') hqold hkey hmq' hsince hg)
      · have hmr' : w.MayPay told u r := hmr.imp_right (·.imp_right (htouch.hasPaid (Ne.symm hr')))
        exact h.apart t u q r hne hqold hrold hkey hmq' hmr' since later hsince hlater

/-! ## Steps and runs -/

/-- The commands of a world that is left to time alone stay as sound as they were. -/
theorem Sound.later (hs : w.Sound told token p) (nanos : Nat) :
    Sound told { w with system := w.system.advance nanos } token p where
  orphan := hs.orphan
  past := hs.past
  lease hm := by
    obtain ⟨since, hsince, hcovers⟩ := hs.lease hm
    exact ⟨since, hsince, hcovers.later (Nat.le_add_right ..)⟩

/-- A command whose token nobody has used is sound. -/
theorem sound_of_new {c : PaymentCommand} (hnew : token ∉ w.tokens) :
    w.Sound told token ⟨c, .reserving none, none⟩ := by
  simp only [tokens, List.mem_append, not_or] at hnew
  obtain ⟨⟨⟨-, hauthor⟩, hdetached⟩, horphan⟩ := hnew
  have hpaid : ¬ w.Counts told token := fun h => h.2.elim hauthor hdetached
  exact ⟨fun h => absurd h horphan, fun h => absurd h hpaid, fun h => (h.elim id hpaid).elim⟩

/-- The commit of a payment on its way brings in a payment that was counted already. -/
theorem hasPaid_finishCommit {place : Nat} {d : Detached} (hd : w.system.detached[place]? = some d)
    (h : (w.commitAs d.owner (w.system.finishCommit place)).HasPaid token) : w.HasPaid token := by
  by_cases hne : d.owner = token
  · exact .inr (hne ▸ List.mem_map_of_mem (List.mem_of_getElem? hd))
  · exact (touches_commitAs (System.touches_finishCommit hd)).hasPaid hne h

/-- A command is sound after a commit on its way is done, whosever it was. -/
theorem Sound.finishCommit (hs : w.Sound told token p) {place : Nat} {d : Detached}
    (hd : w.system.detached[place]? = some d) :
    (w.commitAs d.owner (w.system.finishCommit place)).Sound told token p := by
  have hsame : (w.system.finishCommit place).orphans = w.system.orphans ∧
      (w.system.finishCommit place).keys = w.system.keys ∧
      (w.system.finishCommit place).elapsed = w.system.elapsed := by
    simp only [System.finishCommit, hd]
    exact ⟨rfl, rfl, rfl⟩
  obtain ⟨horphans, hkeys, helapsed⟩ := hsame
  constructor
  case orphan =>
    intro ho
    obtain ⟨hended, hpaid⟩ := hs.orphan (by rwa [IsOrphan, ← horphans])
    exact ⟨hended, fun hp => hpaid (hp.imp_right (hasPaid_finishCommit hd))⟩
  case past => exact fun hp => hs.past (hp.imp_right (hasPaid_finishCommit hd))
  case lease =>
    intro hm
    show ∃ since, _ ∧ (w.system.finishCommit place).keys.Covers
      (w.system.finishCommit place).elapsed p.command.key token since
    rw [hkeys, helapsed]
    exact hs.lease (hm.imp_right (·.imp_right (hasPaid_finishCommit hd)))

theorem hasPaid_finishOrphan (w : World) (place : Nat) (isReleased : Bool) :
    HasPaid { w with system := w.system.finishOrphan place isReleased } token ↔ w.HasPaid token := by
  have hsame : (w.system.finishOrphan place isReleased).detached = w.system.detached := by
    unfold System.finishOrphan
    split
    · cases isReleased <;> rfl
    · rfl
  simp only [HasPaid, hsame]

/-- A command is sound after an orphan is released, also if it is its own: then it has ended without a payment
that counts. -/
theorem Sound.finishOrphan (hs : w.Sound told token p) {place : Nat} {o : Orphan}
    (ho : w.system.orphans[place]? = some o) (isReleased : Bool) :
    Sound told { w with system := w.system.finishOrphan place isReleased } token p := by
  have htouch : TouchedBy o.token w { w with system := w.system.finishOrphan place isReleased } :=
    ⟨System.touches_finishOrphan ho isReleased, fun a ha => .inl ha⟩
  by_cases hne : o.token = token
  · obtain ⟨⟨outcome, hended⟩, hpaid⟩ :=
      hs.orphan (hne ▸ List.mem_map_of_mem (List.mem_of_getElem? ho))
    have hpaid' : ¬ Counts told { w with system := w.system.finishOrphan place isReleased } token :=
      fun h => hpaid (h.imp_right (hasPaid_finishOrphan w place isReleased).mp)
    constructor
    case orphan => exact fun _ => ⟨⟨outcome, hended⟩, hpaid'⟩
    case past => exact fun h => absurd h hpaid'
    case lease =>
      intro hm
      rcases hm with hholding | hp
      · rw [hended] at hholding
        exact hholding.elim
      · exact absurd hp hpaid'
  · exact hs.touched htouch hne

/-- **Leases hold step by step.** -/
theorem Leased.step {a : Action} (h : w.Leased told)
    (ha : ∀ token error isDurable, a = .move token (.commitFails error isDurable) → told token)
    (hstep : w.step a = some w') : w'.Leased told := by
  cases change_of_step hstep with
  | advance nanos =>
    exact h.of_same rfl rfl (fun _ => id) fun token p hp => (h.sound token p hp).later nanos
  | enter c token hnew =>
    have hsound : w.Sound told token ⟨c, .reserving none, none⟩ := sound_of_new hnew
    have hidle : ¬ w.MayPay told token ⟨c, .reserving none, none⟩ := fun hm => by
      obtain ⟨since, hsince, -⟩ := hsound.lease hm
      cases hsince
    constructor
    case sound =>
      intro t q hq
      rcases find?_entered hq with ⟨rfl, rfl⟩ | ⟨-, hold⟩
      · exact hsound.of_eq rfl rfl
      · exact (h.sound t q hold).of_eq rfl rfl
    case apart =>
      intro t u q r hne hq hr hkey hmq hmr
      rcases find?_entered hq with ⟨rfl, rfl⟩ | ⟨-, hqold⟩
      · exact absurd hmq hidle
      · rcases find?_entered hr with ⟨rfl, rfl⟩ | ⟨-, hrold⟩
        · exact absurd hmr hidle
        · exact h.apart t u q r hne hqold hrold hkey hmq hmr
  | move token m p progress s hp ht =>
    exact h.moved hp ht fun error isDurable hm => ha token error isDurable (hm ▸ rfl)
  | finishCommit place d hd =>
    refine h.of_same rfl ?_ (fun _ => hasPaid_finishCommit hd) fun token p hp =>
      (h.sound token p hp).finishCommit hd
    exact (System.touches_finishCommit hd).keys.lifetime
  | finishOrphan place isReleased o ho =>
    refine h.of_same rfl ?_ (fun _ => (hasPaid_finishOrphan w place isReleased).mp) fun token p hp =>
      (h.sound token p hp).finishOrphan ho isReleased
    exact (System.touches_finishOrphan ho isReleased).keys.lifetime
  | elsewhere a w' _ hparties hauthors _ hsystem =>
    have hpaid : ∀ token, w'.HasPaid token → w.HasPaid token := by
      intro token hp
      rwa [HasPaid, hauthors, hsystem.detached] at hp
    refine h.of_same hparties (by rw [hsystem.keys]) hpaid fun token p hp => ?_
    have hs := h.sound token p hp
    constructor
    case orphan =>
      intro ho
      obtain ⟨hended, hnot⟩ := hs.orphan (by rwa [IsOrphan, ← hsystem.orphans])
      exact ⟨hended, fun hp => hnot (hp.imp_right (hpaid token))⟩
    case past => exact fun hp => hs.past (hp.imp_right (hpaid token))
    case lease =>
      intro hm
      rw [hsystem.keys, hsystem.elapsed]
      exact hs.lease (hm.imp_right (·.imp_right (hpaid token)))

/-- Leases hold throughout every run, if all commands that are told that their commits failed are known. -/
theorem leased_run (told : Uuid → Prop) {s : System} {as : List Action}
    (has : ∀ token error isDurable, .move token (.commitFails error isDurable) ∈ as → told token)
    (hrun : (opening s).run as = some w) : w.Leased told := by
  refine (run_keeps (P := fun w rest => w.Leased told ∧
      ∀ token error isDurable, .move token (.commitFails error isDurable) ∈ rest → told token)
    (fun w a rest w' ⟨hleased, hrest⟩ hstep => ?_) ⟨leased_opening s, has⟩ hrun).1
  exact ⟨hleased.step (fun token error isDurable ha => hrest token error isDurable (ha ▸ List.mem_cons_self)) hstep,
    fun token error isDurable hin => hrest token error isDurable (List.mem_cons_of_mem a hin)⟩

/-- A run does not change how long keys are held. -/
theorem lifetime_run {s : System} {as : List Action} (hrun : (opening s).run as = some w) :
    w.system.keys.lifetime = s.keys.lifetime := by
  refine run_keeps (P := fun w _ => w.system.keys.lifetime = s.keys.lifetime)
    (fun w a rest w' hw hstep => ?_) rfl hrun
  rw [← hw]
  cases change_of_step hstep with
  | advance | enter => rfl
  | move token m p progress s' hp ht => exact ht.touches.keys.lifetime
  | finishCommit place d hd => exact (System.touches_finishCommit hd).keys.lifetime
  | finishOrphan place isReleased o ho => exact (System.touches_finishOrphan ho isReleased).keys.lifetime
  | elsewhere a w' _ hparties hauthors _ hsystem => rw [hsystem.keys]

end World

end PaymentRelay
