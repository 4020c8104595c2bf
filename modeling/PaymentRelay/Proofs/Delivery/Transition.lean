import PaymentRelay.Consumer.Delivery

/-!
# What one step of a delivery does

`Delivery.step` read as a relation, as `Tick.step` is: `Delivery.Transition` has one constructor for each way a
delivery goes on, and every later law about deliveries that run side by side splits on it
(`Delivery.transition_of_step`).

Of the system a delivery changes the keys of notifications, the notifications and the journal. It takes a key or
lets it go only under the name of its own event.
-/

namespace PaymentRelay

/-- Progress after which a delivery still waits for something. -/
def DeliveryProgress.IsUnderWay : DeliveryProgress → Prop
  | .ended _ => False
  | _ => True

namespace Delivery

/-- What a delivery puts into the mail when it sends. -/
def mail (d : Delivery) : List Notification :=
  match d.channel with
  | .mail => [.ofEvent d.event]
  | .journal => []

/-- The transitions of a delivery, from the system `s`. -/
inductive Transition (d : Delivery) (s : System) : Move → Delivery → System → Prop
  -- the key
  | granted (hp : d.progress = .reserving none)
      (h : (s.sent.reserve (keyOf d.eventId) d.token s.elapsed).1 = .granted) :
      Transition d s .reserve (d.become (.reserving (some true)))
        { s with sent := (s.sent.reserve (keyOf d.eventId) d.token s.elapsed).2 }
  | taken (hp : d.progress = .reserving none)
      (h : (s.sent.reserve (keyOf d.eventId) d.token s.elapsed).1 = .taken) :
      Transition d s .reserve (d.become (.reserving (some false)))
        { s with sent := (s.sent.reserve (keyOf d.eventId) d.token s.elapsed).2 }
  | overflows (hp : d.progress = .reserving none)
      (h : (s.sent.reserve (keyOf d.eventId) d.token s.elapsed).1 = .overflow) :
      Transition d s .reserve (d.become (.ended .panicked))
        { s with sent := (s.sent.reserve (keyOf d.eventId) d.token s.elapsed).2 }
  | goesOn (hp : d.progress = .reserving (some true)) : Transition d s .reply (d.become .sending) s
  | turnedAway (hp : d.progress = .reserving (some false)) :
      Transition d s .reply (d.become (.ended .done)) (s.log .notificationSentAlready)
  | reserveFails (decision : Option Bool) (error : PaymentError) (hp : d.progress = .reserving decision) :
      Transition d s (.reserveFails error) (d.become (.ended (.failed error))) s
  -- the channel
  | sends (hp : d.progress = .sending) :
      Transition d s .send (d.become (.ended .done)) (s.notify d.channel (.ofEvent d.event))
  | sendFails (error : PaymentError) (hp : d.progress = .sending) :
      Transition d s (.sendFails error) (d.become (.releasing error)) s
  | sendPanics (hp : d.progress = .sending) : Transition d s .sendPanics (d.become (.ended .panicked)) s
  -- the release
  | releases (cause : PaymentError) (hp : d.progress = .releasing cause) :
      Transition d s .release (d.become (.ended (.failed cause)))
        { s with sent := s.sent.release (keyOf d.eventId) d.token }
  | releaseFails (cause error : PaymentError) (hp : d.progress = .releasing cause) :
      Transition d s (.releaseFails error) (d.become (.ended (.failed error))) s
  -- nobody waits any more
  | dropped (hp : d.progress.IsUnderWay) : Transition d s .drop (d.become (.ended .cancelled)) s

/-- Every step of a delivery is one of the transitions. -/
theorem transition_of_step {d : Delivery} {m : Move} {s : System} {next : Delivery × System}
    (h : d.step m s = some next) : Transition d s m next.1 next.2 := by
  unfold step at h
  split at h
  next hp =>
    simp only at h
    split at h
    next hanswer => cases h; exact .granted hp hanswer
    next hanswer => cases h; exact .taken hp hanswer
    next hanswer => cases h; exact .overflows hp hanswer
  next granted hp =>
    cases h
    cases granted with
    | true => exact .goesOn hp
    | false => exact .turnedAway hp
  next decision error hp => cases h; exact .reserveFails decision error hp
  next hp => cases h; exact .sends hp
  next error hp => cases h; exact .sendFails error hp
  next hp => cases h; exact .sendPanics hp
  next cause hp => cases h; exact .releases cause hp
  next cause error hp => cases h; exact .releaseFails cause error hp
  next => cases h
  next hended =>
    cases h
    refine .dropped ?_
    cases hp : d.progress with
    | ended handled => exact absurd hp (hended handled)
    | _ => trivial
  next => cases h

variable {d d' : Delivery} {m : Move} {s s' : System}

/-- A delivery that has ended takes no step. -/
theorem Transition.underWay (h : Transition d s m d' s') : d.progress.IsUnderWay := by
  cases h with
  | dropped hp => exact hp
  | granted hp | taken hp | overflows hp | goesOn hp | turnedAway hp | sends hp | sendPanics hp =>
    rw [hp]
    trivial
  | reserveFails _ _ hp | sendFails _ hp | releases _ hp | releaseFails _ _ hp =>
    rw [hp]
    trivial

/-- A delivery stays that of its event and takes no time. -/
theorem Transition.frame (h : Transition d s m d' s') :
    d'.eventId = d.eventId ∧ s'.elapsed = s.elapsed ∧ s'.sent.lifetime = s.sent.lifetime := by
  cases h with
  | granted | taken | overflows => exact ⟨rfl, rfl, KeyStore.reserve_lifetime ..⟩
  | releases => exact ⟨rfl, rfl, KeyStore.release_lifetime ..⟩
  | sends => cases hc : d.channel <;> exact ⟨rfl, rfl, rfl⟩
  | _ => exact ⟨rfl, rfl, rfl⟩

/-- Only a delivery that sends puts anything into the mail. -/
theorem Transition.notices (h : Transition d s m d' s') :
    s'.notices = s.notices ++ if m = .send then d.mail else [] := by
  cases h with
  | sends =>
    rw [if_pos rfl, mail]
    cases hc : d.channel with
    | mail => rfl
    | journal => exact (List.append_nil _).symm
  | _ => exact (List.append_nil _).symm

/-- A live entry stays, unless it is the release of its own key that goes through. -/
theorem Transition.held?_of_live (h : Transition d s m d' s') {key : IdempotencyKey} {held : Held}
    (hheld : s.sent.held? key = some held) (hlive : held.isLive s.elapsed = true)
    (hother : m = .release → key ≠ keyOf d.eventId) : s'.sent.held? key = some held := by
  cases h with
  | granted | taken | overflows => exact KeyStore.held?_reserve_of_live hheld hlive _ _
  | releases =>
    show (s.sent.release (keyOf d.eventId) d.token).held? key = some held
    rw [KeyStore.held?_release, if_neg (hother rfl), hheld]
  | sends => cases hc : d.channel <;> exact hheld
  | _ => exact hheld

/-- An entry was there before, or is that of the event of the delivery that has just been granted its key. -/
theorem Transition.entry (h : Transition d s m d' s') {key : IdempotencyKey} {held : Held}
    (hheld : s'.sent.held? key = some held) : s.sent.held? key = some held ∨
      d'.progress = .reserving (some true) ∧ key = keyOf d.eventId ∧
        held.expires = s.elapsed + s.sent.lifetime.toNanos := by
  cases h with
  | granted hp hg =>
    replace hheld : (s.sent.reserve (keyOf d.eventId) d.token s.elapsed).2.held? key = some held := hheld
    rw [KeyStore.held?_reserve hg] at hheld
    split at hheld
    next hkey => exact .inr ⟨rfl, hkey, Option.some.inj hheld ▸ rfl⟩
    next => exact .inl (Option.filter_eq_some_iff.mp hheld).1
  | taken hp ha | overflows hp ha =>
    rcases KeyStore.entry_of_reserve hheld with hheld | ⟨hg, -⟩
    · exact .inl hheld
    · rw [ha] at hg
      cases hg
  | releases => exact .inl (KeyStore.entry_of_release hheld).1
  | sends => cases hc : d.channel <;> rw [hc] at hheld <;> exact .inl hheld
  | _ => exact .inl hheld

end Delivery

end PaymentRelay
