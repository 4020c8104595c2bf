import PaymentRelay.Payment.Identity
import PaymentRelay.Register
import PaymentRelay.Time.Instant
import PaymentRelay.Width

/-!
# The key store

A key store holds idempotency keys for a fixed lifetime. A key is reserved with a token, and only the
holder of that token can let it go before it expires, so a release that comes late or twice never
frees a key somebody else has reserved since.

Time is a steady clock that counts nanoseconds. An entry is live while the clock is below its end;
an entry that is no longer live stays where it is until the next reservation that succeeds, which
clears all of them away. Nothing but `size` can tell.

* `reserve` answers `taken` exactly for a live key (`reserve_taken_iff`). If it answers `granted`, the
  key is held under the token that came with the call (`held?_reserve`).
* The end of a reservation has to be an instant the steady clock can show. If it is not, `reserve`
  answers `overflow`, and has cleared the expired entries away.
* `release` takes an entry out exactly if the token is the entry's own (`held?_release`), and neither
  operation touches a live key other than the one it is called for (`contains_reserve_of_ne`,
  `contains_release_of_ne`).
-/

namespace PaymentRelay

/-- A reservation of a key: by whom, and the first instant at which it is no longer live. -/
structure Held where
  token : Uuid
  expires : Nat
deriving DecidableEq, Repr

/-- Whether a reservation is live. -/
def Held.isLive (h : Held) (now : Nat) : Bool :=
  now < h.expires

/-- The answer to a reservation. -/
inductive Reservation where
  /-- The key was free and is now held under the token that came with the call. -/
  | granted
  /-- The key is live already. -/
  | taken
  /-- The end of the reservation lies beyond the steady clock. -/
  | overflow
deriving DecidableEq, Repr

/-- Keys and who holds them. -/
structure KeyStore where
  lifetime : Duration
  holders : Register IdempotencyKey Held
deriving DecidableEq, Repr

namespace KeyStore

/-- The store without an entry. -/
def empty (lifetime : Duration) : KeyStore := ⟨lifetime, .empty⟩

/-- The first instant the steady clock cannot show: its seconds have 64 bits with a sign. -/
def clockBound : Nat := Width.signed64 * Duration.nanosPerSecond

/-- The entry of a key, live or not. -/
def held? (s : KeyStore) (key : IdempotencyKey) : Option Held :=
  s.holders.find? key

/-- Whether a key is live. -/
def contains (s : KeyStore) (key : IdempotencyKey) (now : Nat) : Bool :=
  (s.held? key).any (·.isLive now)

/-- The number of entries, live or not. -/
def size (s : KeyStore) : Nat := s.holders.size

/-- The store without the entries that are no longer live. -/
def prune (s : KeyStore) (now : Nat) : KeyStore :=
  { s with holders := s.holders.filter fun e => e.2.isLive now }

/-- Reserves a key, if it is not live. -/
def reserve (s : KeyStore) (key : IdempotencyKey) (token : Uuid) (now : Nat) :
    Reservation × KeyStore :=
  if s.contains key now then (.taken, s)
  else
    let pruned := s.prune now
    let expires := now + s.lifetime.toNanos
    if expires < clockBound then
      (.granted, { pruned with holders := pruned.holders.put key ⟨token, expires⟩ })
    else (.overflow, pruned)

/-- Lets a key go, if it is held under the token. -/
def release (s : KeyStore) (key : IdempotencyKey) (token : Uuid) : KeyStore :=
  match s.held? key with
  | some held => if held.token = token then { s with holders := s.holders.erase key } else s
  | none => s

/-! ## What the operations do -/

/-- A reservation is turned away exactly for a live key. -/
theorem reserve_taken_iff (s : KeyStore) (key : IdempotencyKey) (token : Uuid) (now : Nat) :
    (s.reserve key token now).1 = .taken ↔ s.contains key now = true := by
  by_cases h : s.contains key now = true
  · simp only [reserve, h, reduceIte]
  · by_cases hb : now + s.lifetime.toNanos < clockBound
    · simp only [reserve, h, hb, reduceIte, reduceCtorEq, Bool.false_eq_true]
    · simp only [reserve, h, hb, reduceIte, reduceCtorEq, Bool.false_eq_true]

/-- Clearing away keeps the live entries. -/
theorem held?_prune (s : KeyStore) (now : Nat) (key : IdempotencyKey) :
    (s.prune now).held? key = (s.held? key).filter (·.isLive now) :=
  Register.find?_filter ..

/-- Clearing away changes no answer about a live key. -/
theorem contains_prune (s : KeyStore) {now later : Nat} (h : now ≤ later) (key : IdempotencyKey) :
    (s.prune now).contains key later = s.contains key later := by
  rw [contains, contains, held?_prune]
  cases s.held? key with
  | none => rfl
  | some held =>
    by_cases hl : now < held.expires
    · simp only [Option.filter_some, Held.isLive, hl, decide_true, reduceIte]
    · simp only [Option.filter_some, Held.isLive, hl, decide_false, Bool.false_eq_true, reduceIte,
        Option.any_none, Option.any_some]
      exact (decide_eq_false (by omega)).symm

/-- A reservation that succeeds leaves the key under its token, and the live entries of other keys as
they were. -/
theorem held?_reserve {s : KeyStore} {key : IdempotencyKey} {token : Uuid} {now : Nat}
    (h : (s.reserve key token now).1 = .granted) (other : IdempotencyKey) :
    (s.reserve key token now).2.held? other =
      if other = key then some ⟨token, now + s.lifetime.toNanos⟩
      else (s.held? other).filter (·.isLive now) := by
  by_cases hc : s.contains key now = true
  · simp only [reserve, hc, reduceIte, reduceCtorEq] at h
  · by_cases hb : now + s.lifetime.toNanos < clockBound
    · simp only [reserve, hc, hb, reduceIte, Bool.false_eq_true]
      rw [held?, Register.find?_put, ← held?_prune]
      rfl
    · simp only [reserve, hc, hb, reduceIte, Bool.false_eq_true, reduceCtorEq] at h

/-- A reservation changes no answer about another key, whatever becomes of it. -/
theorem contains_reserve_of_ne (s : KeyStore) {key other : IdempotencyKey} (hne : other ≠ key)
    (token : Uuid) {now later : Nat} (h : now ≤ later) :
    (s.reserve key token now).2.contains other later = s.contains other later := by
  by_cases hc : s.contains key now = true
  · simp only [reserve, hc, reduceIte]
  · by_cases hb : now + s.lifetime.toNanos < clockBound
    · simp only [reserve, hc, hb, reduceIte, Bool.false_eq_true]
      rw [contains, held?, Register.find?_put, if_neg hne]
      exact contains_prune s h other
    · simp only [reserve, hc, hb, reduceIte, Bool.false_eq_true]
      exact contains_prune s h other

/-- A release takes out the entry of its key, and only under its own token. -/
theorem held?_release (s : KeyStore) (key : IdempotencyKey) (token : Uuid)
    (other : IdempotencyKey) :
    (s.release key token).held? other =
      if other = key then (s.held? key).filter fun held => held.token ≠ token
      else s.held? other := by
  by_cases ho : other = key
  · subst ho
    rw [if_pos rfl, release]
    cases hh : s.held? other with
    | none => exact hh
    | some held =>
      by_cases ht : held.token = token
      · simp only [ht, reduceIte, held?, Register.find?_erase, Option.filter_some, ne_eq,
          not_true_eq_false, decide_false, Bool.false_eq_true]
      · simp only [ht, reduceIte, hh, Option.filter_some, ne_eq, not_false_eq_true, decide_true]
  · rw [if_neg ho, release]
    cases hh : s.held? key with
    | none => rfl
    | some held =>
      by_cases ht : held.token = token
      · simp only [ht, reduceIte, held?, Register.find?_erase, ho]
      · simp only [ht, reduceIte]

/-- A release changes no answer about another key. -/
theorem contains_release_of_ne (s : KeyStore) {key other : IdempotencyKey} (hne : other ≠ key)
    (token : Uuid) (now : Nat) :
    (s.release key token).contains other now = s.contains other now := by
  rw [contains, held?_release, if_neg hne, contains]

/-! ## How long keys are held -/

/-- A reservation does not change how long keys are held. -/
@[simp] theorem reserve_lifetime (s : KeyStore) (key : IdempotencyKey) (token : Uuid) (now : Nat) :
    (s.reserve key token now).2.lifetime = s.lifetime := by
  by_cases hc : s.contains key now = true
  · simp only [reserve, hc, reduceIte]
  · by_cases hb : now + s.lifetime.toNanos < clockBound
    · simp only [reserve, hc, hb, reduceIte, Bool.false_eq_true, prune]
    · simp only [reserve, hc, hb, reduceIte, Bool.false_eq_true, prune]

/-- Neither does a release. -/
@[simp] theorem release_lifetime (s : KeyStore) (key : IdempotencyKey) (token : Uuid) :
    (s.release key token).lifetime = s.lifetime := by
  unfold release
  split
  · split <;> rfl
  · rfl

/-- A live entry survives every reservation, whosever it is and whatever becomes of it. -/
theorem held?_reserve_of_live {s : KeyStore} {key : IdempotencyKey} {held : Held} {now : Nat}
    (h : s.held? key = some held) (hlive : held.isLive now = true) (other : IdempotencyKey)
    (token : Uuid) : (s.reserve other token now).2.held? key = some held := by
  have hpruned : (s.prune now).held? key = some held := by
    rw [held?_prune, h, Option.filter_some, if_pos hlive]
  by_cases hc : s.contains other now = true
  · simp only [reserve, hc, reduceIte]
    exact h
  · have hne : key ≠ other := by
      rintro rfl
      exact hc (by rw [contains, h, Option.any_some, hlive])
    by_cases hb : now + s.lifetime.toNanos < clockBound
    · simp only [reserve, hc, hb, reduceIte, Bool.false_eq_true]
      rw [held?, Register.find?_put, if_neg hne]
      exact hpruned
    · simp only [reserve, hc, hb, reduceIte, Bool.false_eq_true]
      exact hpruned

/-- A key that is live later is live now. -/
theorem contains_of_later {s : KeyStore} {key : IdempotencyKey} {now later : Nat} (hl : now ≤ later)
    (h : s.contains key later = true) : s.contains key now = true := by
  obtain ⟨held, hheld, hlive⟩ := (Option.any_eq_true _ _).mp h
  rw [contains, hheld, Option.any_some]
  exact decide_eq_true (Nat.lt_of_le_of_lt hl (of_decide_eq_true hlive))

/-- A key that is live after a release was live before. -/
theorem contains_of_release {s : KeyStore} {key other : IdempotencyKey} {token : Uuid} {now : Nat}
    (h : (s.release other token).contains key now = true) : s.contains key now = true := by
  by_cases hk : key = other
  · subst hk
    rw [contains, held?_release, if_pos rfl] at h
    obtain ⟨held, hheld, hlive⟩ := (Option.any_eq_true _ _).mp h
    rw [contains, (Option.filter_eq_some_iff.mp hheld).1, Option.any_some]
    exact hlive
  · rwa [contains_release_of_ne s hk] at h

/-- An entry after a reservation was there before, or is that of the key that was granted. -/
theorem entry_of_reserve {s : KeyStore} {key other : IdempotencyKey} {token : Uuid} {now : Nat} {held : Held}
    (h : (s.reserve other token now).2.held? key = some held) : s.held? key = some held ∨
      (s.reserve other token now).1 = .granted ∧ key = other ∧ held.token = token := by
  by_cases hc : s.contains other now = true
  · simp only [reserve, hc, reduceIte] at h
    exact .inl h
  · by_cases hb : now + s.lifetime.toNanos < clockBound
    · have hgranted : (s.reserve other token now).1 = .granted := by
        simp only [reserve, hc, hb, reduceIte, Bool.false_eq_true]
      rw [held?_reserve hgranted] at h
      split at h
      next hk => exact .inr ⟨hgranted, hk, Option.some.inj h ▸ rfl⟩
      next => exact .inl (Option.filter_eq_some_iff.mp h).1
    · simp only [reserve, hc, hb, reduceIte, Bool.false_eq_true] at h
      rw [held?_prune] at h
      exact .inl (Option.filter_eq_some_iff.mp h).1

/-- An entry after a release was there before, and is not the one that was released. -/
theorem entry_of_release {s : KeyStore} {key other : IdempotencyKey} {token : Uuid} {held : Held}
    (h : (s.release other token).held? key = some held) :
    s.held? key = some held ∧ (key = other → held.token ≠ token) := by
  rw [held?_release] at h
  split at h
  next hk =>
    obtain ⟨hheld, hne⟩ := Option.filter_eq_some_iff.mp h
    exact ⟨hk ▸ hheld, fun _ => of_decide_eq_true hne⟩
  next hk => exact ⟨h, fun heq => absurd heq hk⟩

/-- A key that can be reserved within the reach of the clock is granted or taken. -/
theorem reserve_ne_overflow {s : KeyStore} {now : Nat} (h : now + s.lifetime.toNanos < clockBound)
    (key : IdempotencyKey) (token : Uuid) : (s.reserve key token now).1 ≠ .overflow := by
  by_cases hc : s.contains key now = true
  · simp only [reserve, hc, reduceIte, ne_eq, reduceCtorEq, not_false_eq_true]
  · simp only [reserve, hc, h, reduceIte, Bool.false_eq_true, ne_eq, reduceCtorEq, not_false_eq_true]

end KeyStore

end PaymentRelay
