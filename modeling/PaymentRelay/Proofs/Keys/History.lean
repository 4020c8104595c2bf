import PaymentRelay.Store.KeyStore

/-!
# What a key store remembers

A key store keeps one entry a key, writes over it, and clears entries away whenever a reservation succeeds.
None of that can be told from its answers. They are settled by the calls alone: a key is held while one of its
reservations has neither expired nor been let go under its own token (`KeyStore.Holds`).

`Reflects` says how the store and the calls so far go together, for every reservation that has not expired: the
entry of a key is there exactly if the calls hold the key under that token until that instant. Every call keeps
it (`Reflects.answer`), because a reservation is granted only where no other is left.

Clearing away is passed over by every later call (`serve_prune`): two stores with the same live entries go on
with the same live entries and give the same answers.
-/

namespace PaymentRelay

namespace KeyStore

/-! ## Calls -/

/-- What is asked of a key store. -/
inductive Call where
  | reserve (key : IdempotencyKey) (token : Uuid)
  | release (key : IdempotencyKey) (token : Uuid)
  | contains (key : IdempotencyKey)
deriving DecidableEq, Repr

/-- What a key store answers. -/
inductive Answer where
  | reserved (answer : Reservation)
  | released
  | found (isLive : Bool)
deriving DecidableEq, Repr

/-- A call that was made at a time, and its answer. -/
structure Exchange where
  time : Nat
  call : Call
  answer : Answer
deriving DecidableEq, Repr

/-- Answers a call. -/
def answer (s : KeyStore) (now : Nat) : Call → Answer × KeyStore
  | .reserve key token =>
    let (answer, s) := s.reserve key token now
    (.reserved answer, s)
  | .release key token => (.released, s.release key token)
  | .contains key => (.found (s.contains key now), s)

/-- Answers calls, each at its time, the first first. -/
def serve (s : KeyStore) : List (Nat × Call) → List Exchange × KeyStore
  | [] => ([], s)
  | (now, call) :: rest =>
    let (answer, s) := s.answer now call
    let (exchanges, s) := s.serve rest
    (⟨now, call, answer⟩ :: exchanges, s)

theorem serve_cons (s : KeyStore) (now : Nat) (call : Call) (rest : List (Nat × Call)) :
    s.serve ((now, call) :: rest) =
      (⟨now, call, (s.answer now call).1⟩ :: ((s.answer now call).2.serve rest).1,
        ((s.answer now call).2.serve rest).2) := rfl

/-! ## What the calls hold -/

variable {lifetime : Duration} {calls : List Exchange} {e : Exchange} {s s' : KeyStore} {now next : Nat}
  {key : IdempotencyKey} {token : Uuid} {expires : Nat}

/-- The calls hold a key under a token until an instant: it was granted to the token a lifetime before, and was not
let go under that token since. -/
def HoldsUntil (lifetime : Duration) (calls : List Exchange) (key : IdempotencyKey) (token : Uuid)
    (expires : Nat) : Prop :=
  ∃ before time after, calls = before ++ ⟨time, .reserve key token, .reserved .granted⟩ :: after ∧
    expires = time + lifetime.toNanos ∧ ∀ e ∈ after, e.call ≠ .release key token

/-- The calls hold a key under a token at an instant. -/
def HoldsUnder (lifetime : Duration) (calls : List Exchange) (key : IdempotencyKey) (token : Uuid)
    (now : Nat) : Prop :=
  ∃ expires, now < expires ∧ HoldsUntil lifetime calls key token expires

/-- The calls hold a key at an instant. -/
def Holds (lifetime : Duration) (calls : List Exchange) (key : IdempotencyKey) (now : Nat) : Prop :=
  ∃ token, HoldsUnder lifetime calls key token now

theorem not_holdsUntil_nil : ¬ HoldsUntil lifetime [] key token expires := by
  rintro ⟨before, time, after, h, -⟩
  exact absurd h.symm (List.append_ne_nil_of_right_ne_nil _ (List.cons_ne_nil _ _))

/-- One more call ends what is let go, and begins what is granted. -/
theorem holdsUntil_concat : HoldsUntil lifetime (calls ++ [e]) key token expires ↔
    HoldsUntil lifetime calls key token expires ∧ e.call ≠ .release key token ∨
      e.call = .reserve key token ∧ e.answer = .reserved .granted ∧
        expires = e.time + lifetime.toNanos := by
  constructor
  · rintro ⟨before, time, after, heq, hexpires, hkept⟩
    rcases List.eq_nil_or_concat after with rfl | ⟨after, last, rfl⟩
    · obtain ⟨-, he⟩ := List.append_inj' heq rfl
      cases he
      exact .inr ⟨rfl, rfl, hexpires⟩
    · rw [List.concat_eq_append, ← List.cons_append, ← List.append_assoc] at heq
      rw [List.concat_eq_append] at hkept
      obtain ⟨hcalls, he⟩ := List.append_inj' heq rfl
      cases he
      refine .inl ⟨⟨before, time, after, hcalls, hexpires, fun e he => ?_⟩, ?_⟩
      · exact hkept e (List.mem_append_left _ he)
      · exact hkept _ (List.mem_append_right _ (List.mem_singleton_self _))
  · rintro (⟨⟨before, time, after, rfl, hexpires, hkept⟩, hne⟩ | ⟨hcall, hanswer, hexpires⟩)
    · refine ⟨before, time, after ++ [e], by rw [List.append_assoc, List.cons_append], hexpires, ?_⟩
      intro e' he'
      rcases List.mem_append.mp he' with he' | he'
      · exact hkept e' he'
      · exact List.mem_singleton.mp he' ▸ hne
    · refine ⟨calls, e.time, [], ?_, hexpires, fun _ he => absurd he List.not_mem_nil⟩
      rw [← hcall, ← hanswer]

/-! ## The store and the calls -/

/-- A store reflects the calls that were made up to now: the entries that do not expire by now are those that the
calls hold. -/
structure Reflects (lifetime : Duration) (calls : List Exchange) (now : Nat) (s : KeyStore) : Prop where
  lasts : s.lifetime = lifetime
  entries : ∀ key token expires, now < expires →
    (s.held? key = some ⟨token, expires⟩ ↔ HoldsUntil lifetime calls key token expires)

theorem reflects_empty (lifetime : Duration) (now : Nat) : (empty lifetime).Reflects lifetime [] now where
  lasts := rfl
  entries _ _ _ _ := ⟨nofun, fun h => absurd h not_holdsUntil_nil⟩

/-- Time passes without a call. -/
theorem Reflects.mono (h : s.Reflects lifetime calls now) (hl : now ≤ next) :
    s.Reflects lifetime calls next where
  lasts := h.lasts
  entries key token expires hlive := h.entries key token expires (Nat.lt_of_le_of_lt hl hlive)

theorem Reflects.holdsUnder_iff (h : s.Reflects lifetime calls now) :
    HoldsUnder lifetime calls key token now ↔ ∃ held, s.held? key = some held ∧ held.token = token ∧
      held.isLive now = true := by
  constructor
  · rintro ⟨expires, hlive, hholds⟩
    exact ⟨_, (h.entries key token expires hlive).mpr hholds, rfl, decide_eq_true hlive⟩
  · rintro ⟨⟨token', expires⟩, hheld, rfl, hlive⟩
    have hlive := of_decide_eq_true hlive
    exact ⟨expires, hlive, (h.entries key token' expires hlive).mp hheld⟩

/-- A key is live exactly if the calls hold it. -/
theorem Reflects.contains_iff (h : s.Reflects lifetime calls now) :
    s.contains key now = true ↔ Holds lifetime calls key now := by
  rw [contains, Option.any_eq_true]
  constructor
  · rintro ⟨held, hheld, hlive⟩
    exact ⟨held.token, h.holdsUnder_iff.mpr ⟨held, hheld, rfl, hlive⟩⟩
  · rintro ⟨token, hholds⟩
    obtain ⟨held, hheld, -, hlive⟩ := h.holdsUnder_iff.mp hholds
    exact ⟨held, hheld, hlive⟩

/-- A reservation that the clock can show is granted, unless the key is live. -/
theorem reserve_eq (hclock : now + s.lifetime.toNanos < clockBound) (key : IdempotencyKey) (token : Uuid) :
    (s.reserve key token now).1 = if s.contains key now then .taken else .granted := by
  by_cases hc : s.contains key now = true
  · simp only [reserve, hc, reduceIte]
  · simp only [reserve, hc, hclock, reduceIte, Bool.false_eq_true]

/-- A store that turns a reservation away is left as it is. -/
theorem reserve_of_contains (h : s.contains key now = true) (token : Uuid) :
    s.reserve key token now = (.taken, s) := by
  rw [reserve, if_pos h]

/-- A reservation is reflected: it is granted where the calls hold no other. -/
theorem Reflects.reserve (h : s.Reflects lifetime calls now)
    (hclock : now + lifetime.toNanos < clockBound) (key : IdempotencyKey) (token : Uuid) :
    (s.reserve key token now).2.Reflects lifetime
      (calls ++ [⟨now, .reserve key token, .reserved (s.reserve key token now).1⟩]) now := by
  by_cases hc : s.contains key now = true
  · rw [reserve_of_contains hc]
    refine ⟨h.lasts, fun key' token' expires hlive => ?_⟩
    rw [holdsUntil_concat, h.entries key' token' expires hlive]
    simp only [ne_eq, reduceCtorEq, not_false_eq_true, and_true, Answer.reserved.injEq, false_and, and_false,
      or_false]
  · have hgranted : (s.reserve key token now).1 = .granted := by
      rw [reserve_eq (h.lasts ▸ hclock), if_neg hc]
    refine ⟨(reserve_lifetime ..).trans h.lasts, fun key' token' expires hlive => ?_⟩
    rw [holdsUntil_concat, held?_reserve hgranted, hgranted, h.lasts]
    simp only [ne_eq, reduceCtorEq, not_false_eq_true, and_true, true_and, Call.reserve.injEq]
    split
    next hkey =>
      -- whatever the calls held until later than now would have kept the key from being granted
      subst hkey
      have hfree : ¬ HoldsUntil lifetime calls key' token' expires := fun hholds =>
        hc (h.contains_iff.mpr ⟨token', expires, hlive, hholds⟩)
      constructor
      · intro heq
        cases heq
        exact .inr ⟨⟨rfl, rfl⟩, rfl⟩
      · rintro (hholds | ⟨⟨-, rfl⟩, rfl⟩)
        · exact absurd hholds hfree
        · rfl
    next hkey =>
      rw [← h.entries key' token' expires hlive, Option.filter_eq_some_iff]
      simp only [Held.isLive, hlive, decide_true, and_true, Ne.symm hkey, false_and, or_false]

/-- A release is reflected: it ends what was granted to its own token and nothing else. -/
theorem Reflects.release (h : s.Reflects lifetime calls now) (key : IdempotencyKey) (token : Uuid) :
    (s.release key token).Reflects lifetime (calls ++ [⟨now, .release key token, .released⟩]) now := by
  refine ⟨(release_lifetime ..).trans h.lasts, fun key' token' expires hlive => ?_⟩
  rw [holdsUntil_concat, held?_release, ← h.entries key' token' expires hlive]
  simp only [ne_eq, reduceCtorEq, false_and, or_false, Call.release.injEq]
  split
  next hkey =>
    subst hkey
    simp only [Option.filter_eq_some_iff, decide_eq_true_eq, true_and, eq_comm (a := token)]
  next hkey => simp only [Ne.symm hkey, false_and, not_false_eq_true, and_true]

/-- **Every call is reflected.** -/
theorem Reflects.answer (h : s.Reflects lifetime calls now) (hclock : now + lifetime.toNanos < clockBound)
    (call : Call) : (s.answer now call).2.Reflects lifetime
      (calls ++ [⟨now, call, (s.answer now call).1⟩]) now := by
  cases call with
  | reserve key token => exact h.reserve hclock key token
  | release key token => exact h.release key token
  | contains key =>
    refine ⟨h.lasts, fun key' token' expires hlive => ?_⟩
    rw [holdsUntil_concat]
    simp only [ne_eq, reduceCtorEq, not_false_eq_true, and_true, false_and, or_false]
    exact h.entries key' token' expires hlive

/-- **Calls are reflected one after the other**, as long as the clock does not go back and can show when what is
granted expires. -/
theorem Reflects.serve (h : s.Reflects lifetime calls now) {more : List (Nat × Call)} {last : Nat}
    (htimes : (now :: (more.map (·.1) ++ [last])).Pairwise (· ≤ ·))
    (hclock : last + lifetime.toNanos < clockBound) :
    (s.serve more).2.Reflects lifetime (calls ++ (s.serve more).1) last := by
  induction more generalizing calls now s with
  | nil =>
    rw [KeyStore.serve, List.append_nil]
    exact h.mono ((List.pairwise_cons.mp htimes).1 last (List.mem_singleton_self _))
  | cons c rest ih =>
    obtain ⟨time, call⟩ := c
    obtain ⟨hfirst, hrest⟩ := List.pairwise_cons.mp htimes
    obtain ⟨hsecond, -⟩ := List.pairwise_cons.mp hrest
    have hnow : now ≤ time := hfirst time List.mem_cons_self
    have hlast : time ≤ last := hsecond last (List.mem_append_right _ (List.mem_singleton_self _))
    have hreach : time + lifetime.toNanos < clockBound :=
      Nat.lt_of_le_of_lt (Nat.add_le_add_right hlast _) hclock
    have hend := ih ((h.mono hnow).answer hreach call) hrest
    rwa [List.append_assoc] at hend

/-! ## Clearing away -/

/-- What is live later is live now. -/
theorem filter_isLive_later (hl : now ≤ next) (held : Option Held) :
    (held.filter (·.isLive now)).filter (·.isLive next) = held.filter (·.isLive next) := by
  rw [Option.filter_filter]
  congr 1
  funext held
  cases hlive : held.isLive next with
  | false => exact Bool.and_false _
  | true =>
    rw [Bool.and_true]
    exact decide_eq_true (Nat.lt_of_le_of_lt hl (of_decide_eq_true hlive))

theorem filter_isLive_comm (held : Option Held) (p : Held → Bool) :
    (held.filter p).filter (·.isLive now) = (held.filter (·.isLive now)).filter p := by
  simp only [Option.filter_filter, Bool.and_comm]

/-- Clearing away leaves what is live. -/
theorem live_prune (s : KeyStore) (key : IdempotencyKey) (now : Nat) :
    ((s.prune now).held? key).filter (·.isLive now) = (s.held? key).filter (·.isLive now) := by
  simp only [held?_prune, Option.filter_filter, Bool.and_self]

/-- A reservation leaves the live entry of every other key. -/
theorem live_reserve_of_ne {other : IdempotencyKey} (hne : key ≠ other) (s : KeyStore) (token : Uuid) (now : Nat) :
    ((s.reserve other token now).2.held? key).filter (·.isLive now) = (s.held? key).filter (·.isLive now) := by
  by_cases hc : s.contains other now = true
  · rw [reserve_of_contains hc]
  · by_cases hb : now + s.lifetime.toNanos < clockBound
    · simp only [reserve, hc, hb, reduceIte, Bool.false_eq_true]
      rw [held?, Register.find?_put, if_neg hne]
      exact live_prune s key now
    · simp only [reserve, hc, hb, reduceIte, Bool.false_eq_true]
      exact live_prune s key now

/-- Two stores cannot be told apart by what becomes of one key. -/
structure SameFor (key : IdempotencyKey) (now : Nat) (s s' : KeyStore) : Prop where
  lasts : s'.lifetime = s.lifetime
  live : (s'.held? key).filter (·.isLive now) = (s.held? key).filter (·.isLive now)

theorem SameFor.mono (h : SameFor key now s s') (hl : now ≤ next) : SameFor key next s s' where
  lasts := h.lasts
  live := by rw [← filter_isLive_later hl, h.live, filter_isLive_later hl]

theorem SameFor.contains (h : SameFor key now s s') : s'.contains key now = s.contains key now := by
  rw [KeyStore.contains, KeyStore.contains, ← Option.isSome_filter, h.live, Option.isSome_filter]

/-- Calls leave it so, whatever keys they are about. -/
theorem SameFor.answer (h : SameFor key now s s') (call : Call) :
    SameFor key now (s.answer now call).2 (s'.answer now call).2 := by
  cases call with
  | reserve other token =>
    refine ⟨(reserve_lifetime ..).trans (h.lasts.trans (reserve_lifetime ..).symm), ?_⟩
    by_cases hkey : key = other
    · subst hkey
      simp only [KeyStore.answer, reserve, h.contains, h.lasts]
      split
      · exact h.live
      · split
        · simp only [held?, Register.find?_put, if_true]
        · exact (live_prune s' key now).trans (h.live.trans (live_prune s key now).symm)
    · exact (live_reserve_of_ne hkey s' token now).trans (h.live.trans (live_reserve_of_ne hkey s token now).symm)
  | release other token =>
    refine ⟨(release_lifetime ..).trans (h.lasts.trans (release_lifetime ..).symm), ?_⟩
    simp only [KeyStore.answer, held?_release]
    split
    next hkey =>
      subst hkey
      rw [filter_isLive_comm, h.live, filter_isLive_comm]
    next => exact h.live
  | contains => exact h

/-- Two stores have the same live entries. -/
structure SameLive (now : Nat) (s s' : KeyStore) : Prop where
  lasts : s'.lifetime = s.lifetime
  live : ∀ key, (s'.held? key).filter (·.isLive now) = (s.held? key).filter (·.isLive now)

theorem sameLive_prune (s : KeyStore) (now : Nat) : s.SameLive now (s.prune now) where
  lasts := rfl
  live key := live_prune s key now

theorem SameLive.sameFor (h : s.SameLive now s') (key : IdempotencyKey) : SameFor key now s s' :=
  ⟨h.lasts, h.live key⟩

theorem SameLive.mono (h : s.SameLive now s') (hl : now ≤ next) : s.SameLive next s' where
  lasts := h.lasts
  live key := ((h.sameFor key).mono hl).live

/-- Stores with the same live entries give one answer and go on with the same live entries. -/
theorem SameLive.answer (h : s.SameLive now s') (call : Call) :
    (s'.answer now call).1 = (s.answer now call).1 ∧
      (s.answer now call).2.SameLive now (s'.answer now call).2 := by
  have hlive : ∀ key, SameFor key now (s.answer now call).2 (s'.answer now call).2 := fun key =>
    (h.sameFor key).answer call
  cases call with
  | reserve key token =>
    refine ⟨?_, (hlive key).lasts, fun other => (hlive other).live⟩
    simp only [KeyStore.answer, reserve, (h.sameFor key).contains, h.lasts]
    split
    · rfl
    · split <;> rfl
  | release key token => exact ⟨rfl, (hlive key).lasts, fun other => (hlive other).live⟩
  | contains key => exact ⟨congrArg Answer.found (h.sameFor key).contains, h⟩

/-- **Clearing away is passed over.** A store that is cleared gives every later call the answer that it would have
given otherwise. -/
theorem SameLive.serve (h : s.SameLive now s') {more : List (Nat × Call)}
    (htimes : (now :: more.map (·.1)).Pairwise (· ≤ ·)) : (s'.serve more).1 = (s.serve more).1 := by
  induction more generalizing now s s' with
  | nil => rfl
  | cons c rest ih =>
    obtain ⟨time, call⟩ := c
    obtain ⟨hfirst, hrest⟩ := List.pairwise_cons.mp htimes
    obtain ⟨hanswer, hsame⟩ := (h.mono (hfirst time List.mem_cons_self)).answer call
    rw [serve_cons, serve_cons, hanswer, ih hsame hrest]

/-! ## The specification -/

/-- Right after a reservation that lasts, every entry is live. -/
theorem isLive_of_granted (h : (s.reserve key token now).1 = .granted) (hlasts : 0 < s.lifetime.toNanos)
    {entry : IdempotencyKey × Held} (hentry : entry ∈ (s.reserve key token now).2.holders.entries) :
    entry.2.isLive now = true := by
  obtain ⟨other, held⟩ := entry
  have hheld := held?_reserve h other
  rw [held?, (Register.find?_eq_some_iff _).mpr hentry] at hheld
  split at hheld
  next =>
    cases hheld
    exact decide_eq_true (Nat.lt_add_of_pos_right hlasts)
  next => exact (Option.filter_eq_some_iff.mp hheld.symm).2

/-- A release under a token under which the calls do not hold the key leaves all live entries. -/
theorem Reflects.sameLive_release (h : s.Reflects lifetime calls now)
    (hother : ¬ HoldsUnder lifetime calls key token now) : s.SameLive now (s.release key token) where
  lasts := release_lifetime ..
  live other := by
    rw [held?_release]
    split
    next hkey =>
      subst hkey
      -- an entry that is let go here has expired
      rw [filter_isLive_comm]
      cases hfound : (s.held? other).filter (·.isLive now) with
      | none => rfl
      | some held =>
        obtain ⟨hheld, hlive⟩ := Option.filter_eq_some_iff.mp hfound
        have hkept : held.token ≠ token := fun htoken =>
          hother (h.holdsUnder_iff.mpr ⟨held, hheld, htoken, hlive⟩)
        exact Option.filter_eq_some_iff.mpr ⟨rfl, decide_eq_true hkept⟩
    next => rfl

/-- **A key store is what was asked of it.** After any calls under a clock that does not go back, as long as the
clock can show when a reservation expires: a key is live exactly if one of its reservations has neither expired
nor been let go under its own token; a reservation is granted exactly if the key is not live; a release under any
other token changes no answer to come, and neither does clearing away what has expired; and after a reservation
that is granted for any time there is nothing to clear away. -/
theorem answers_settled_by_calls {lifetime : Duration} {calls : List (Nat × Call)} {now : Nat}
    (htimes : (calls.map (·.1) ++ [now]).Pairwise (· ≤ ·)) (hclock : now + lifetime.toNanos < clockBound) :
    let (exchanges, store) := (empty lifetime).serve calls
    (∀ key, store.contains key now = true ↔ Holds lifetime exchanges key now) ∧
    (∀ key token, (store.reserve key token now).1 = if store.contains key now then .taken else .granted) ∧
    (∀ key token, ¬ HoldsUnder lifetime exchanges key token now →
      ∀ more : List (Nat × Call), (now :: more.map (·.1)).Pairwise (· ≤ ·) →
        ((store.release key token).serve more).1 = (store.serve more).1) ∧
    (∀ more : List (Nat × Call), (now :: more.map (·.1)).Pairwise (· ≤ ·) →
      ((store.prune now).serve more).1 = (store.serve more).1) ∧
    (∀ key token, (store.reserve key token now).1 = .granted → 0 < lifetime.toNanos →
      ∀ entry ∈ (store.reserve key token now).2.holders.entries, entry.2.isLive now = true) := by
  have h : ((empty lifetime).serve calls).2.Reflects lifetime ((empty lifetime).serve calls).1 now := by
    have hzero : (0 :: (calls.map (·.1) ++ [now])).Pairwise (· ≤ ·) :=
      List.pairwise_cons.mpr ⟨fun _ _ => Nat.zero_le _, htimes⟩
    exact (reflects_empty lifetime 0).serve hzero hclock
  have hreach : now + ((empty lifetime).serve calls).2.lifetime.toNanos < clockBound := by rwa [h.lasts]
  refine ⟨fun key => h.contains_iff, reserve_eq hreach, ?_, ?_, ?_⟩
  · intro key token hother more hmore
    exact (h.sameLive_release hother).serve hmore
  · intro more hmore
    exact (sameLive_prune _ now).serve hmore
  · intro key token hgranted hlasts entry hentry
    exact isLive_of_granted hgranted (by rwa [h.lasts]) hentry

/-- A key is reserved, reserved in vain by another, and let go in vain by the other; it expires, goes to the other,
and is let go in vain by the one who had it first. -/
def disputedCalls : List (Nat × Call) :=
  let key : IdempotencyKey := ⟨"k"⟩
  [(0, .reserve key (.ofNat 1)), (1, .reserve key (.ofNat 2)), (2, .release key (.ofNat 2)), (5, .contains key),
    (11, .reserve key (.ofNat 2)), (12, .release key (.ofNat 1))]

/-- In the end the other one holds the key, and nobody else can reserve it. -/
theorem answers_settled_by_calls_of_disputed :
    ((empty ⟨0, 10⟩).serve disputedCalls).1.map (·.answer) =
      [.reserved .granted, .reserved .taken, .released, .found true, .reserved .granted, .released] ∧
    Holds ⟨0, 10⟩ ((empty ⟨0, 10⟩).serve disputedCalls).1 ⟨"k"⟩ 13 ∧
    (((empty ⟨0, 10⟩).serve disputedCalls).2.reserve ⟨"k"⟩ (.ofNat 3) 13).1 = .taken := by
  have hlive : ((empty ⟨0, 10⟩).serve disputedCalls).2.contains ⟨"k"⟩ 13 = true := by decide +kernel
  obtain ⟨hcontains, hreserve, -⟩ :=
    @answers_settled_by_calls ⟨0, 10⟩ disputedCalls 13 (by decide) (by decide)
  constructor
  · decide +kernel
  constructor
  · exact (hcontains ⟨"k"⟩).mp hlive
  · exact (hreserve ⟨"k"⟩ (.ofNat 3)).trans (if_pos hlive)

end KeyStore

end PaymentRelay
