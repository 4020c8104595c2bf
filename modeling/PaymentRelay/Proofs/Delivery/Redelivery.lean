import PaymentRelay.Proofs.Delivery.Mailroom
import PaymentRelay.Proofs.Keys.History

/-!
# Deliveries one after the other

An event comes to the service that notifies customers as often as the broker brings it. Here every delivery is
handled before the next one begins, and nothing happens to it but that its notifier may answer with an error. A
`Letter` is such a delivery, and `System.receive` handles letters in a row.

The key store then remembers what has been sent, and nothing else (`Remembers`): a key is live at an instant exactly
if a notification of its event was sent less than a lifetime before. So what becomes of the letters of one event is
settled by the letters of that event alone, and the first of them whose notifier does not fail is the one that is
sent (`one_notification_per_event`).
-/

namespace PaymentRelay

/-! ## Letters -/

/-- A delivery that nothing interrupts. -/
structure Letter where
  /-- The time since the letter before, in nanoseconds. -/
  pause : Nat
  eventId : Uuid
  event : PaymentSucceeded
  token : Uuid
  /-- The error of the notifier, if it fails. -/
  fault : Option PaymentError
deriving DecidableEq, Repr

/-- What became of a letter. -/
structure Arrival where
  letter : Letter
  time : Nat
  /-- Whether the notifier was called. -/
  isAttempt : Bool
  handled : Handled
deriving DecidableEq, Repr

namespace Arrival

/-- The notification was sent. -/
def hasSent (a : Arrival) : Bool := a.isAttempt && a.letter.fault.isNone

/-- The letter is one of the event, and its notification was sent. -/
def hasSentFor (id : Uuid) (a : Arrival) : Bool := a.letter.eventId == id && a.hasSent

end Arrival

/-- The letter is one of the event, and its notifier does not fail. -/
def Letter.isSendable (id : Uuid) (l : Letter) : Bool := l.eventId == id && l.fault.isNone

/-- Handles a letter. -/
def Letter.arrive (l : Letter) (s : System) : Arrival × System :=
  let s := s.advance l.pause
  let reserved := (Delivery.start l.eventId l.event .mail l.token).follow s [.reserve, .reply]
  let (handled, after) := (Service.notifications l.token l.fault).handler.handle l.eventId l.event s
  (⟨l, s.elapsed, reserved.1.progress == .sending, handled⟩, after)

/-- Handles letters, the first first. -/
def System.receive (s : System) : List Letter → List Arrival × System
  | [] => ([], s)
  | l :: rest =>
    let (arrival, s) := l.arrive s
    let (arrivals, s) := s.receive rest
    (arrival :: arrivals, s)

/-! ## One letter -/

namespace Letter

variable {l : Letter} {s : System}

/-- A letter whose key is taken is done at once. -/
theorem arrive_of_contains (h : s.sent.contains (Delivery.keyOf l.eventId) (s.elapsed + l.pause) = true) :
    l.arrive s = (⟨l, s.elapsed + l.pause, false, .done⟩, (s.advance l.pause).log .notificationSentAlready) := by
  have hanswer : (s.advance l.pause).sent.reserve (Delivery.keyOf l.eventId) l.token (s.advance l.pause).elapsed =
      (.taken, s.sent) := KeyStore.reserve_of_contains h l.token
  cases hfault : l.fault <;>
    simp only [arrive, Service.handler, Delivery.course, Delivery.follow, Delivery.start, Delivery.step, hanswer,
      hfault, Delivery.become, Delivery.onReply, Delivery.handled?, Option.getD_some, Bool.false_eq_true, if_false] <;>
    rfl

/-- A letter whose key is free goes to the notifier. -/
theorem arrive_of_free (h : s.sent.contains (Delivery.keyOf l.eventId) (s.elapsed + l.pause) = false)
    (hclock : s.elapsed + l.pause + s.sent.lifetime.toNanos < KeyStore.clockBound) :
    l.arrive s =
      let time := s.elapsed + l.pause
      let key := Delivery.keyOf l.eventId
      let sent := (s.sent.reserve key l.token time).2
      match l.fault with
      | none => (⟨l, time, true, .done⟩, System.notify { s.advance l.pause with sent } .mail (.ofEvent l.event))
      | some error =>
        (⟨l, time, true, .failed error⟩, { s.advance l.pause with sent := sent.release key l.token }) := by
  have hanswer : ((s.advance l.pause).sent.reserve (Delivery.keyOf l.eventId) l.token
      (s.advance l.pause).elapsed).1 = .granted := by
    refine (KeyStore.reserve_eq hclock _ _).trans (if_neg ?_)
    rw [h]
    exact Bool.false_ne_true
  cases hfault : l.fault <;>
    simp only [arrive, Service.handler, Delivery.course, Delivery.follow, Delivery.start, Delivery.step, hanswer,
      hfault, Delivery.become, Delivery.onReply, Delivery.handled?, Option.getD_some, if_true] <;>
    rfl

/-- What handling a letter does, from the system `s`. -/
structure Handling (l : Letter) (s : System) (a : Arrival) (s' : System) : Prop where
  letter : a.letter = l
  time : a.time = s.elapsed + l.pause
  elapsed : s'.elapsed = a.time
  lasts : s'.sent.lifetime = s.sent.lifetime
  /-- The notifier is called exactly if the key is free. -/
  attempt : a.isAttempt = !s.sent.contains (Delivery.keyOf l.eventId) a.time
  notices : s'.notices = s.notices ++ if a.hasSent then [.ofEvent l.event] else []
  /-- A key is live later if it was before, or if a notification has just been sent. -/
  live : ∀ id time, a.time ≤ time → s'.sent.contains (Delivery.keyOf id) time =
    (s.sent.contains (Delivery.keyOf id) time ||
      (a.hasSentFor id && decide (time < a.time + s.sent.lifetime.toNanos)))

section Keys

variable {sent : KeyStore} {eventId : Uuid} {token : Uuid} {now time : Nat}

/-- What is free now is free later. -/
theorem free_later {key : IdempotencyKey} (hle : now ≤ time) (hfree : sent.contains key now = false) :
    sent.contains key time = false := by
  apply Bool.eq_false_iff.mpr
  intro hlive
  rw [KeyStore.contains_of_later hle hlive] at hfree
  cases hfree

/-- A key that was free is live as long as its reservation lasts, and nothing happens to the others. -/
theorem contains_of_granted (hfree : sent.contains (Delivery.keyOf eventId) now = false)
    (hgranted : (sent.reserve (Delivery.keyOf eventId) token now).1 = .granted) (hle : now ≤ time) (id : Uuid) :
    (sent.reserve (Delivery.keyOf eventId) token now).2.contains (Delivery.keyOf id) time =
      (sent.contains (Delivery.keyOf id) time ||
        (eventId == id && decide (time < now + sent.lifetime.toNanos))) := by
  by_cases hid : eventId = id
  · subst hid
    rw [free_later hle hfree, beq_self_eq_true, Bool.true_and, Bool.false_or, KeyStore.contains,
      KeyStore.held?_reserve hgranted, if_pos rfl, Option.any_some]
    rfl
  · have hne : Delivery.keyOf id ≠ Delivery.keyOf eventId := fun hkey => hid (Delivery.keyOf_inj hkey).symm
    rw [KeyStore.contains_reserve_of_ne _ hne _ hle, beq_eq_false_iff_ne.mpr hid, Bool.false_and, Bool.or_false]

/-- A key that was free and is let go under the token that it was granted to is free again. -/
theorem contains_of_letGo (hfree : sent.contains (Delivery.keyOf eventId) now = false)
    (hgranted : (sent.reserve (Delivery.keyOf eventId) token now).1 = .granted) (hle : now ≤ time) (id : Uuid) :
    ((sent.reserve (Delivery.keyOf eventId) token now).2.release (Delivery.keyOf eventId) token).contains
      (Delivery.keyOf id) time = sent.contains (Delivery.keyOf id) time := by
  by_cases hid : eventId = id
  · subst hid
    rw [free_later hle hfree, KeyStore.contains, KeyStore.held?_release, if_pos rfl,
      KeyStore.held?_reserve hgranted, if_pos rfl, Option.filter_some, if_neg (by simp), Option.any_none]
  · have hne : Delivery.keyOf id ≠ Delivery.keyOf eventId := fun hkey => hid (Delivery.keyOf_inj hkey).symm
    rw [KeyStore.contains_release_of_ne _ hne, KeyStore.contains_reserve_of_ne _ hne _ hle]

end Keys

/-- A letter whose key is taken leaves the keys as they are. -/
theorem handling_of_contains (hc : s.sent.contains (Delivery.keyOf l.eventId) (s.elapsed + l.pause) = true) :
    l.Handling s (l.arrive s).1 (l.arrive s).2 := by
  rw [arrive_of_contains hc]
  constructor
  case attempt => exact hc ▸ rfl
  case notices => exact (List.append_nil _).symm
  case live =>
    intro id time _
    simp only [Arrival.hasSentFor, Arrival.hasSent, Bool.false_and, Bool.and_false, Bool.or_false]
    rfl
  all_goals rfl

/-- A letter whose key is free leaves it held if its notification is sent, and free otherwise. -/
theorem handling_of_free (hc : s.sent.contains (Delivery.keyOf l.eventId) (s.elapsed + l.pause) = false)
    (hclock : s.elapsed + l.pause + s.sent.lifetime.toNanos < KeyStore.clockBound) :
    l.Handling s (l.arrive s).1 (l.arrive s).2 := by
  have hgranted : (s.sent.reserve (Delivery.keyOf l.eventId) l.token (s.elapsed + l.pause)).1 = .granted := by
    refine (KeyStore.reserve_eq hclock _ _).trans (if_neg ?_)
    rw [hc]
    exact Bool.false_ne_true
  rw [arrive_of_free hc hclock]
  cases hfault : l.fault with
  | none =>
    simp only
    constructor
    case attempt => exact hc ▸ rfl
    case lasts => exact KeyStore.reserve_lifetime ..
    case notices => simp [Arrival.hasSent, hfault, System.notify, System.advance]
    case live =>
      intro id time hle
      simp only [Arrival.hasSentFor, Arrival.hasSent, hfault, Option.isNone_none, Bool.and_true]
      exact contains_of_granted hc hgranted hle id
    all_goals rfl
  | some error =>
    simp only
    constructor
    case attempt => exact hc ▸ rfl
    case lasts => exact (KeyStore.release_lifetime ..).trans (KeyStore.reserve_lifetime ..)
    case notices => simp [Arrival.hasSent, hfault, System.advance]
    case live =>
      intro id time hle
      simp only [Arrival.hasSentFor, Arrival.hasSent, hfault, Option.isNone_some, Bool.and_false, Bool.false_and,
        Bool.or_false]
      exact contains_of_letGo hc hgranted hle id
    all_goals rfl

/-- **One letter.** Every letter is handled in this way, as long as the clock can show when a key would expire. -/
theorem handling (l : Letter) (s : System)
    (hclock : s.elapsed + l.pause + s.sent.lifetime.toNanos < KeyStore.clockBound) :
    l.Handling s (l.arrive s).1 (l.arrive s).2 := by
  cases hc : s.sent.contains (Delivery.keyOf l.eventId) (s.elapsed + l.pause) with
  | true => exact handling_of_contains hc
  | false => exact handling_of_free hc hclock

end Letter

/-! ## Letters in a row -/

namespace System

variable {s s' : System} {earlier arrivals : List Arrival} {letters : List Letter} {lifetime : Duration}

/-- The key store remembers what has been sent: a key is live exactly if a notification of its event was sent less
than a lifetime before. -/
structure Remembers (lifetime : Duration) (earlier : List Arrival) (s : System) : Prop where
  lasts : s.sent.lifetime = lifetime
  live : ∀ id time, s.elapsed ≤ time → s.sent.contains (Delivery.keyOf id) time =
    earlier.any fun a => a.hasSentFor id && decide (time < a.time + lifetime.toNanos)

/-- A letter that is handled is remembered. -/
theorem Remembers.arrive {l : Letter} {a : Arrival} (h : s.Remembers lifetime earlier) (hl : l.Handling s a s') :
    s'.Remembers lifetime (earlier ++ [a]) where
  lasts := hl.lasts.trans h.lasts
  live id time hle := by
    have hlater : a.time ≤ time := hl.elapsed ▸ hle
    have hbefore : s.elapsed ≤ time := Nat.le_trans (hl.time ▸ Nat.le_add_right _ _) hlater
    rw [hl.live id time hlater, h.live id time hbefore, h.lasts, List.any_append, List.any_cons, List.any_nil,
      Bool.or_false]

/-- Handling a letter takes no time. -/
theorem elapsed_arrive (s : System) (l : Letter) : (l.arrive s).2.elapsed = s.elapsed + l.pause :=
  (Service.handles (.notifications l.token l.fault) l.eventId l.event (s.advance l.pause)).frame.2.2

/-- Time does not go back while letters are handled. -/
theorem elapsed_le_receive (s : System) (letters : List Letter) : s.elapsed ≤ (s.receive letters).2.elapsed := by
  induction letters generalizing s with
  | nil => exact Nat.le_refl _
  | cons l rest ih =>
    have hle : s.elapsed ≤ (l.arrive s).2.elapsed := elapsed_arrive s l ▸ Nat.le_add_right _ _
    exact Nat.le_trans hle (ih (l.arrive s).2)

/-- What handling letters in a row does, after the arrivals `earlier`. -/
structure Received (lifetime : Duration) (earlier : List Arrival) (s : System) (letters : List Letter)
    (arrivals : List Arrival) (s' : System) : Prop where
  letters : arrivals.map (·.letter) = letters
  notices : s'.notices = s.notices ++ (arrivals.filter (·.hasSent)).map fun a => .ofEvent a.letter.event
  /-- The notifier is called exactly if nothing has been sent for the event within the lifetime. -/
  attempts : ∀ before a after, arrivals = before ++ a :: after → a.isAttempt = !(earlier ++ before).any fun b =>
    b.hasSentFor a.letter.eventId && decide (a.time < b.time + lifetime.toNanos)

/-- One more letter in front. -/
theorem Received.cons {l : Letter} {a : Arrival} {next : System} (h : s.Remembers lifetime earlier)
    (hl : l.Handling s a next) (hrest : next.Received lifetime (earlier ++ [a]) letters arrivals s') :
    s.Received lifetime earlier (l :: letters) (a :: arrivals) s' := by
  constructor
  case letters => rw [List.map_cons, hl.letter, hrest.letters]
  case notices =>
    rw [hrest.notices, hl.notices, List.filter_cons, ← hl.letter]
    split
    next => rw [List.map_cons, List.append_assoc, List.singleton_append]
    next => rw [List.append_nil]
  case attempts =>
    intro before x after heq
    cases before with
    | nil =>
      obtain ⟨rfl, -⟩ := List.cons.inj heq
      have hbefore : s.elapsed ≤ a.time := hl.time ▸ Nat.le_add_right _ _
      rw [hl.attempt, h.live _ _ hbefore, hl.letter, List.append_nil]
    | cons b before =>
      obtain ⟨rfl, htail⟩ := List.cons.inj heq
      rw [hrest.attempts before x after htail, List.append_assoc, List.singleton_append]

/-- **Letters in a row.** -/
theorem Remembers.receive (h : s.Remembers lifetime earlier)
    (hclock : (s.receive letters).2.elapsed + lifetime.toNanos < KeyStore.clockBound) :
    s.Received lifetime earlier letters (s.receive letters).1 (s.receive letters).2 := by
  induction letters generalizing earlier s with
  | nil => exact ⟨rfl, (List.append_nil _).symm, fun before a after heq => by cases before <;> cases heq⟩
  | cons l rest ih =>
    have hlater : s.elapsed + l.pause ≤ (s.receive (l :: rest)).2.elapsed :=
      elapsed_arrive s l ▸ elapsed_le_receive (l.arrive s).2 rest
    have hl := l.handling s (by rw [h.lasts]; omega)
    exact .cons h hl (ih (h.arrive hl) hclock)

end System

/-! ## The first that is sent -/

/-- If an element counts exactly when it may and none before it counts, the first that may is the only one that
counts. -/
theorem filter_eq_take_one {p q : α → Bool} {l : List α}
    (h : ∀ before a after, l = before ++ a :: after → q a = (p a && !before.any q)) :
    l.filter q = (l.filter p).take 1 := by
  induction l with
  | nil => rfl
  | cons a rest ih =>
    have hfirst : q a = p a := by
      rw [h [] a rest rfl, List.any_nil, Bool.not_false, Bool.and_true]
    rw [List.filter_cons, List.filter_cons, hfirst]
    cases hp : p a with
    | true =>
      have hnone : rest.filter q = [] := by
        apply List.filter_eq_nil_iff.mpr
        intro b hb hq
        obtain ⟨before, after, rfl⟩ := List.append_of_mem hb
        have hlater := h (a :: before) b after rfl
        rw [hq, List.any_cons, hfirst, hp, Bool.true_or, Bool.not_true, Bool.and_false] at hlater
        cases hlater
      rw [if_pos rfl, if_pos rfl, hnone, List.take_succ_cons, List.take_zero]
    | false =>
      rw [if_neg Bool.false_ne_true, if_neg Bool.false_ne_true]
      apply ih
      intro before b after heq
      rw [h (a :: before) b after (heq ▸ rfl), List.any_cons, hfirst, hp, Bool.false_or]

/-- Letters of one event come within the lifetime of each other. -/
def Punctual (lifetime : Duration) (arrivals : List Arrival) : Prop :=
  arrivals.Pairwise fun b a => b.letter.eventId = a.letter.eventId → a.time < b.time + lifetime.toNanos

instance (lifetime : Duration) (arrivals : List Arrival) : Decidable (Punctual lifetime arrivals) :=
  inferInstanceAs (Decidable (arrivals.Pairwise _))

/-- The notifier is called for a letter that comes in time exactly if nothing has been sent for its event. -/
theorem System.Received.attempt_iff {lifetime : Duration} {s s' : System} {letters : List Letter}
    {arrivals : List Arrival} (h : s.Received lifetime [] letters arrivals s') (hpunctual : Punctual lifetime arrivals)
    {before after : List Arrival} {a : Arrival} (heq : arrivals = before ++ a :: after) :
    a.isAttempt = !before.any (·.hasSentFor a.letter.eventId) := by
  have hbefore : ∀ b ∈ before, b.letter.eventId = a.letter.eventId → a.time < b.time + lifetime.toNanos := by
    intro b hb
    rw [heq] at hpunctual
    exact (List.pairwise_append.mp hpunctual).2.2 b hb a List.mem_cons_self
  rw [h.attempts before a after heq, List.nil_append]
  congr 1
  apply Bool.eq_iff_iff.mpr
  simp only [List.any_eq_true, Bool.and_eq_true, decide_eq_true_eq]
  constructor
  · rintro ⟨b, hb, hsent, -⟩
    exact ⟨b, hb, hsent⟩
  · rintro ⟨b, hb, hsent⟩
    have hid := beq_iff_eq.mp ((Bool.and_eq_true _ _).mp hsent).1
    exact ⟨b, hb, hsent, hbefore b hb hid⟩

/-- Of the letters of an event that come in time the first that can be sent is sent, and no other. -/
theorem System.Received.first_sent {lifetime : Duration} {s s' : System} {letters : List Letter}
    {arrivals : List Arrival} (h : s.Received lifetime [] letters arrivals s') (hpunctual : Punctual lifetime arrivals)
    (id : Uuid) :
    (arrivals.filter (·.hasSentFor id)).map (·.letter) = (letters.filter (·.isSendable id)).take 1 := by
  have hfirst : arrivals.filter (·.hasSentFor id) = (arrivals.filter (·.letter.isSendable id)).take 1 := by
    apply filter_eq_take_one
    intro before a after heq
    rw [Arrival.hasSentFor, Arrival.hasSent, h.attempt_iff hpunctual heq, Letter.isSendable]
    by_cases hid : a.letter.eventId = id
    · rw [hid, Bool.and_assoc, Bool.and_comm (!_)]
    · rw [beq_eq_false_iff_ne.mpr hid, Bool.false_and, Bool.false_and, Bool.false_and]
  rw [hfirst, ← h.letters, List.filter_map, List.map_take]
  rfl

/-- **One notification an event, and a notifier that fails is called again.** From a key store without keys of
notifications:

* However deliveries to the service overlap, fail, panic and are dropped, at most one of an event sends while no
  reservation of the event has expired, and the mail holds what was sent.
* Where deliveries are handled one after the other, nothing happens to them but errors of the notifier, and those of
  one event come within the lifetime of each other, the notifier is called for a delivery exactly if none before it
  has sent for its event. So the mail holds one notification for every event, that of the first delivery of the event
  whose notifier did not fail, whatever came for other events in between. -/
theorem one_notification_per_event {s : System} (hfree : ∀ id, s.sent.held? (Delivery.keyOf id) = none) :
    (∀ (actions : List Mailroom.Action) (r : Mailroom) (id : Uuid),
      (Mailroom.opening s).run actions = some r → r.Unexpired id →
        r.sendings.countP (·.eventId == id) ≤ 1 ∧ r.system.notices = s.notices ++ r.sendings.flatMap (·.mail)) ∧
    ∀ letters : List Letter,
      (s.receive letters).2.elapsed + s.sent.lifetime.toNanos < KeyStore.clockBound →
      Punctual s.sent.lifetime (s.receive letters).1 →
        (∀ before a after, (s.receive letters).1 = before ++ a :: after →
          (a.isAttempt = true ↔ ∀ b ∈ before, b.letter.eventId = a.letter.eventId → b.hasSent = false)) ∧
        (s.receive letters).2.notices =
          s.notices ++ ((s.receive letters).1.filter (·.hasSent)).map (fun a => .ofEvent a.letter.event) ∧
        ∀ id, ((s.receive letters).1.filter (·.hasSentFor id)).map (·.letter) =
          (letters.filter (·.isSendable id)).take 1 := by
  constructor
  · intro actions r id hrun hlive
    have h := Mailroom.accounted_run hfree hrun
    have hguard := Mailroom.guarded_run hfree hrun id hlive
    refine ⟨?_, h.notices⟩
    rw [h.sendings id]
    calc r.errands.countP (fun e => e.delivery.eventId == id && e.hasSent)
        ≤ r.errands.countP (Mailroom.isInChargeOf id) := List.countP_mono_left ?_
      _ ≤ (r.system.sent.held? (Delivery.keyOf id)).isSome.toNat := hguard
      _ ≤ 1 := Bool.toNat_le _
    intro e _ hsent
    obtain ⟨hid, hsent⟩ := (Bool.and_eq_true _ _).mp hsent
    obtain ⟨hgranted, hdone⟩ := Mailroom.hasSent_iff.mp hsent
    exact Mailroom.isInChargeOf_of_granted (beq_iff_eq.mp hid) hgranted fun error => by rw [hdone]; nofun
  · intro letters hclock hpunctual
    have hopening : s.Remembers s.sent.lifetime [] := by
      refine ⟨rfl, fun id time _ => ?_⟩
      rw [KeyStore.contains, hfree id, Option.any_none, List.any_nil]
    have h := hopening.receive hclock
    refine ⟨?_, h.notices, h.first_sent hpunctual⟩
    intro before a after heq
    rw [h.attempt_iff hpunctual heq, Bool.not_eq_true', List.any_eq_false]
    refine forall₂_congr fun b _ => ?_
    rw [Arrival.hasSentFor, Bool.and_eq_true, beq_iff_eq, not_and, Bool.not_eq_true]

/-- Of two deliveries of an event one is turned away while the notifier of the other fails, and a third one sends.
Another event goes through in between. -/
def retriedRun : List Mailroom.Action :=
  [.accept (.ofNat 11) sampleEvent .mail (.ofNat 1), .accept (.ofNat 11) sampleEvent .mail (.ofNat 2),
    .accept (.ofNat 12) sampleEvent .mail (.ofNat 3), .move 0 .reserve, .move 1 .reserve, .move 0 .reply,
    .move 0 (.sendFails (.unavailable "mail gateway")), .move 1 .reply, .move 2 .reserve, .move 0 .release,
    .accept (.ofNat 11) sampleEvent .mail (.ofNat 4), .move 3 .reserve, .move 2 .reply, .move 3 .reply, .move 3 .send,
    .move 2 .send]

/-- The notifier fails for the first letter of an event, and the next one of that event makes up for it. -/
def retriedLetters : List Letter :=
  [⟨0, .ofNat 11, sampleEvent, .ofNat 1, some (.unavailable "mail gateway")⟩,
    ⟨1, .ofNat 12, sampleEvent, .ofNat 2, none⟩, ⟨1, .ofNat 11, sampleEvent, .ofNat 3, none⟩,
    ⟨1, .ofNat 11, sampleEvent, .ofNat 4, none⟩]

/-- Both times two notifications are sent, one for each event. -/
theorem one_notification_per_event_of_two :
    (∃ r, (Mailroom.opening sampleSystem).run retriedRun = some r ∧
      r.sendings.countP (·.eventId == .ofNat 11) ≤ 1 ∧ r.system.notices.length = 2) ∧
    ((sampleSystem.receive retriedLetters).1.filter (·.hasSentFor (.ofNat 11))).map (·.letter.token) = [.ofNat 3] ∧
    (sampleSystem.receive retriedLetters).2.notices.length = 2 := by
  obtain ⟨hside, hrow⟩ := @one_notification_per_event sampleSystem fun _ => rfl
  constructor
  · have hread : ((Mailroom.opening sampleSystem).run retriedRun).map (fun r => decide (
        r.Unexpired (.ofNat 11) ∧ r.system.notices.length = 2)) = some true := by decide +kernel
    obtain ⟨r, hrun, hroom⟩ := Option.map_eq_some_iff.mp hread
    obtain ⟨hlive, hlength⟩ := of_decide_eq_true hroom
    exact ⟨r, hrun, (hside retriedRun r (.ofNat 11) hrun hlive).1, hlength⟩
  · obtain ⟨-, -, hfirst⟩ := hrow retriedLetters (by decide +kernel) (by decide +kernel)
    constructor
    · have htokens := congrArg (List.map Letter.token) (hfirst (.ofNat 11))
      rw [List.map_map] at htokens
      exact htokens
    · decide +kernel

end PaymentRelay
