import PaymentRelay.Proofs.World.Change

/-!
# Whose doing a change is

Every change of what commands share is somebody's doing: the command that moves, the owner of a commit
that is finished, the command whose key is released. All such a change puts in or takes out carries that
token. `System.TouchedBy` says so, and from it follows what every other command can rely on: a
reservation of its own stays in the key store until it has expired (`KeyStore.Covers`).
-/

namespace PaymentRelay

/-! ## Key stores -/

namespace KeyStore

/-- What becomes of a key store when the holder of a token calls it, or does not. -/
inductive TouchedBy (token : Uuid) (now : Nat) (s : KeyStore) : KeyStore → Prop
  | kept : TouchedBy token now s s
  | reserved (key : IdempotencyKey) : TouchedBy token now s (s.reserve key token now).2
  | released (key : IdempotencyKey) : TouchedBy token now s (s.release key token)

theorem TouchedBy.lifetime {token : Uuid} {now : Nat} {s s' : KeyStore} (h : s.TouchedBy token now s') :
    s'.lifetime = s.lifetime := by
  cases h with
  | kept => rfl
  | reserved key => exact reserve_lifetime ..
  | released key => exact release_lifetime ..

/-- An entry still stands, or it has expired by now. -/
def Stands (s : KeyStore) (now : Nat) (key : IdempotencyKey) (held : Held) : Prop :=
  s.held? key = some held ∨ held.expires ≤ now

/-- A reservation made at `since` still stands, or it has expired by now. -/
def Covers (s : KeyStore) (now : Nat) (key : IdempotencyKey) (token : Uuid) (since : Nat) : Prop :=
  since ≤ now ∧ (s.held? key = some ⟨token, since + s.lifetime.toNanos⟩ ∨
    since + s.lifetime.toNanos ≤ now)

variable {s s' : KeyStore} {now since : Nat} {key : IdempotencyKey} {token other : Uuid} {held : Held}

/-- Time takes nothing away from an entry but its life. -/
theorem Stands.later (h : s.Stands now key held) {later : Nat} (hl : now ≤ later) :
    s.Stands later key held :=
  h.imp_right fun hexpired => Nat.le_trans hexpired hl

/-- **An entry stands against all others.** Whatever the holder of another token does, it does not take the
entry out before it has expired. -/
theorem Stands.touched (h : s.Stands now key held) (ht : s.TouchedBy other now s') (hne : other ≠ held.token) :
    s'.Stands now key held := by
  rcases h with hstands | hexpired
  · -- an entry that is past its end may be pruned, but then there is nothing to show
    by_cases hlive : now < held.expires
    · left
      cases ht with
      | kept => exact hstands
      | reserved k => exact held?_reserve_of_live hstands (decide_eq_true hlive) k other
      | released k =>
        rw [held?_release]
        split
        next hk =>
          -- a release takes out nothing but what bears its own token
          subst hk
          rw [hstands, Option.filter_some, if_pos (decide_eq_true hne.symm)]
        next => exact hstands
    · exact .inr (Nat.not_lt.mp hlive)
  · exact .inr hexpired

/-- Whoever puts in an entry puts in his own token. -/
theorem TouchedBy.entry (ht : s.TouchedBy other now s') (h : s'.held? key = some held) :
    s.held? key = some held ∨ held.token = other := by
  cases ht with
  | kept => exact .inl h
  | reserved k => exact (entry_of_reserve h).imp_right (·.2.2)
  | released k => exact .inl (entry_of_release h).1

/-- Time takes nothing away from a reservation but its life. -/
theorem Covers.later (h : s.Covers now key token since) {later : Nat} (hl : now ≤ later) :
    s.Covers later key token since :=
  ⟨Nat.le_trans h.1 hl, Stands.later h.2 hl⟩

/-- **A reservation stands against all others.** -/
theorem Covers.touched (h : s.Covers now key token since) (ht : s.TouchedBy other now s')
    (hne : other ≠ token) : s'.Covers now key token since := by
  refine ⟨h.1, ?_⟩
  rw [ht.lifetime]
  exact Stands.touched h.2 ht hne

/-- A key that is granted to somebody else was reserved so long ago that the reservation has
expired. -/
theorem Covers.expired (h : s.Covers now key token since)
    (hg : (s.reserve key other now).1 = .granted) : since + s.lifetime.toNanos ≤ now := by
  obtain ⟨-, hstands | hexpired⟩ := h
  · have hfree : s.contains key now ≠ true := fun hc => by
      rw [(reserve_taken_iff s key other now).mpr hc] at hg
      cases hg
    rw [contains, hstands, Option.any_some, Held.isLive] at hfree
    exact Nat.not_lt.mp fun hlt => hfree (decide_eq_true hlt)
  · exact hexpired

/-- A reservation that has not expired keeps its key live. -/
theorem Covers.contains (h : s.Covers now key token since) (hl : now < since + s.lifetime.toNanos) :
    s.contains key now = true := by
  rcases h.2 with hstands | hexpired
  · rw [KeyStore.contains, hstands, Option.any_some]
    exact decide_eq_true hl
  · exact absurd hl (Nat.not_lt.mpr hexpired)

/-- A key that is granted is reserved from now on. -/
theorem covers_of_granted (hg : (s.reserve key token now).1 = .granted) :
    (s.reserve key token now).2.Covers now key token now := by
  refine ⟨Nat.le_refl _, .inl ?_⟩
  rw [held?_reserve hg, if_pos rfl, reserve_lifetime]

end KeyStore

/-! ## Systems -/

/-- What the holder of a token did to a system bears that token. -/
structure System.TouchedBy (token : Uuid) (s s' : System) : Prop where
  elapsed : s'.elapsed = s.elapsed
  keys : s.keys.TouchedBy token s.elapsed s'.keys
  orphans : ∀ o ∈ s'.orphans, o ∈ s.orphans ∨ o.token = token
  detached : ∀ d ∈ s'.detached, d ∈ s.detached ∨ d.owner = token

/-- A system whose keys, orphans and commits on their way are the same was touched by nobody. -/
theorem System.TouchedBy.ofSame {token : Uuid} {s s' : System} (he : s'.elapsed = s.elapsed)
    (hk : s'.keys = s.keys) (ho : s'.orphans = s.orphans) (hd : s'.detached = s.detached) :
    s.TouchedBy token s' :=
  ⟨he, hk ▸ .kept, fun _ h => .inl (ho ▸ h), fun _ h => .inl (hd ▸ h)⟩

/-- A step of a command bears its token. -/
theorem Job.Transition.touches {c : PaymentCommand} {token : Uuid} {s s' : System} {p p' : Progress}
    {m : Job.Move} (h : Job.Transition c token s p m p' s') : s.TouchedBy token s' := by
  have hleft : ∀ {s₀ : System} {hasRuntime : Bool}, s₀.orphans = s.orphans →
      ∀ o ∈ (Job.leaveKey hasRuntime c.key token s₀).orphans, o ∈ s.orphans ∨ o.token = token := by
    intro s₀ hasRuntime hs o ho
    rcases Job.mem_orphans_leaveKey.mp ho with ho | ⟨-, rfl⟩
    · exact .inl (hs ▸ ho)
    · exact .inr rfl
  cases h with
  | granted | taken => exact ⟨rfl, .reserved _, fun _ h => .inl h, fun _ h => .inl h⟩
  | overflows =>
    refine ⟨Job.leaveKey_elapsed, ?_, hleft rfl, fun d hd => .inl (by rwa [Job.leaveKey_detached] at hd)⟩
    rw [Job.leaveKey_keys]
    exact .reserved _
  | panics | dropped =>
    refine ⟨Job.leaveKey_elapsed, ?_, hleft rfl, fun d hd => .inl (by rwa [Job.leaveKey_detached] at hd)⟩
    rw [Job.leaveKey_keys]
    exact .kept
  | releases => exact ⟨rfl, .released _, fun _ h => .inl h, fun _ h => .inl h⟩
  | detaches id t =>
    refine ⟨rfl, .kept, fun _ h => .inl h, fun d hd => ?_⟩
    rcases List.mem_append.mp hd with hd | hd
    · exact .inl hd
    · exact .inr (List.mem_singleton.mp hd ▸ rfl)
  | commitFails id t error isDurable => cases isDurable <;> exact .ofSame rfl rfl rfl rfl
  | _ => exact .ofSame rfl rfl rfl rfl

/-- The end of a commit on its way bears its owner's token. -/
theorem System.touches_finishCommit {s : System} {place : Nat} {d : Detached}
    (h : s.detached[place]? = some d) : s.TouchedBy d.owner (s.finishCommit place) := by
  simp only [System.finishCommit, h]
  exact ⟨rfl, .kept, fun _ h => .inl h, fun d hd => .inl (List.mem_of_mem_eraseIdx hd)⟩

/-- The release of an orphan bears the orphan's token. -/
theorem System.touches_finishOrphan {s : System} {place : Nat} {o : Orphan}
    (h : s.orphans[place]? = some o) (isReleased : Bool) :
    s.TouchedBy o.token (s.finishOrphan place isReleased) := by
  simp only [System.finishOrphan, h]
  cases isReleased with
  | true => exact ⟨rfl, .released _, fun o ho => .inl (List.mem_of_mem_eraseIdx ho), fun _ h => .inl h⟩
  | false => exact ⟨rfl, .kept, fun o ho => .inl (List.mem_of_mem_eraseIdx ho), fun _ h => .inl h⟩

/-- Time does not go back. -/
theorem World.elapsed_le_of_step {w w' : World} {a : World.Action} (hstep : w.step a = some w') :
    w.system.elapsed ≤ w'.system.elapsed := by
  cases change_of_step hstep with
  | advance nanos => exact Nat.le_add_right ..
  | enter => exact Nat.le_refl _
  | move token m p progress sys hp ht => exact Nat.le_of_eq ht.touches.elapsed.symm
  | finishCommit place d hd => exact Nat.le_of_eq (System.touches_finishCommit hd).elapsed.symm
  | finishOrphan place isReleased o ho =>
    exact Nat.le_of_eq (System.touches_finishOrphan ho isReleased).elapsed.symm
  | elsewhere a w' _ hparties hauthors _ hsystem => exact Nat.le_of_eq hsystem.elapsed.symm

/-- A command leaves the calendar. -/
theorem Job.Transition.start {c : PaymentCommand} {token : Uuid} {s s' : System} {p p' : Progress}
    {m : Job.Move} (h : Job.Transition c token s p m p' s') : s'.start = s.start := by
  cases h with
  | commitFails id t error isDurable => cases isDurable <;> rfl
  | overflows | panics | dropped => exact Job.leaveKey_start
  | _ => rfl

/-- The calendar is not set anew. -/
theorem World.start_of_step {w w' : World} {a : World.Action} (hstep : w.step a = some w') :
    w'.system.start = w.system.start := by
  cases change_of_step hstep with
  | advance | enter => rfl
  | move token m p progress sys hp ht => exact ht.start
  | finishCommit place d hd =>
    simp only [commitAs, System.finishCommit, hd]
    rfl
  | finishOrphan place isReleased o ho =>
    simp only [System.finishOrphan, ho]
    cases isReleased <;> rfl
  | elsewhere a w' _ hparties hauthors _ hsystem => exact hsystem.start

end PaymentRelay
