import Mathlib.Data.List.TakeWhile
import Mathlib.Data.String.Basic
import PaymentRelay.Proofs.Command.Isolation
import PaymentRelay.Proofs.Delivery.Transition
import PaymentRelay.Proofs.World.Change

/-!
# What a delivery looks at

A delivery to the service that notifies customers looks at the clock and at the entry of its own event's key. Where
two systems agree in these, it goes on in the same way (`Delivery.Transition.mirrored`), and what it does is no matter
to anybody who looks at another key (`Delivery.Transition.aside`). It leaves alone all that commands share.

The key of an event is one that a client may choose as well (`ofString_keyOf`).
-/

namespace PaymentRelay

/-- Two systems agree in what concerns the notification with a key. -/
structure System.AgreeOnSent (key : IdempotencyKey) (s v : System) : Prop where
  elapsed : v.elapsed = s.elapsed
  sent : s.sent.AgreeOn key s.elapsed v.sent

namespace Delivery

variable {d d' : Delivery} {m : Move} {s s' v : System} {key : IdempotencyKey}

/-- **A delivery goes on in the same way** where the clock and its key are the same. -/
theorem Transition.mirrored (h : d.Transition s m d' s') (hv : s.AgreeOnSent (keyOf d.eventId) v) :
    ∃ v', d.step m v = some (d', v') ∧ s'.AgreeOnSent (keyOf d.eventId) v' := by
  obtain ⟨hanswer, hreserved⟩ := hv.sent.reserve d.token
  rw [← hv.elapsed] at hanswer hreserved
  cases h with
  | granted hp hg | taken hp hg | overflows hp hg =>
    rw [← hv.elapsed] at hg
    refine ⟨{ v with sent := (v.sent.reserve (keyOf d.eventId) d.token v.elapsed).2 }, ?_, hv.elapsed, ?_⟩
    · simp only [step, hp, hanswer, hg]
    · rw [← hv.elapsed]
      exact hreserved
  | goesOn hp => exact ⟨v, by simp only [step, hp, onReply, if_true], hv⟩
  | turnedAway hp =>
    exact ⟨v.log .notificationSentAlready, by simp only [step, hp, onReply, Bool.false_eq_true, if_false], hv.elapsed,
      hv.sent⟩
  | reserveFails decision error hp =>
    refine ⟨v, ?_, hv⟩
    cases decision <;> simp only [step, hp]
  | sends hp =>
    refine ⟨v.notify d.channel (.ofEvent d.event), by simp only [step, hp], ?_⟩
    cases hc : d.channel <;> exact ⟨hv.elapsed, hv.sent⟩
  | sendFails error hp => exact ⟨v, by simp only [step, hp], hv⟩
  | sendPanics hp => exact ⟨v, by simp only [step, hp], hv⟩
  | releases cause hp =>
    exact ⟨{ v with sent := v.sent.release (keyOf d.eventId) d.token }, by simp only [step, hp], hv.elapsed,
      hv.sent.release d.token⟩
  | releaseFails cause error hp => exact ⟨v, by simp only [step, hp], hv⟩
  | dropped hp =>
    refine ⟨v, ?_, hv⟩
    cases hprogress : d.progress with
    | ended handled => exact (hprogress ▸ hp : DeliveryProgress.IsUnderWay (.ended handled)).elim
    | reserving decision => cases decision <;> simp only [step, hprogress]
    | sending | releasing => simp only [step, hprogress]

/-- What is done about another event is no matter. -/
theorem Transition.aside (h : d.Transition s m d' s') (hv : s.AgreeOnSent key v) (hne : key ≠ keyOf d.eventId) :
    s'.AgreeOnSent key v := by
  cases h with
  | granted | taken | overflows => exact ⟨hv.elapsed, hv.sent.reserve_other hne d.token⟩
  | releases => exact ⟨hv.elapsed, hv.sent.release_other hne d.token⟩
  | sends => cases hc : d.channel <;> exact ⟨hv.elapsed, hv.sent⟩
  | _ => exact ⟨hv.elapsed, hv.sent⟩

/-- A delivery leaves alone what commands share. -/
theorem Transition.sameForCommands (h : d.Transition s m d' s') : s.SameForCommands s' := by
  cases h with
  | sends => cases hc : d.channel <;> exact ⟨rfl, rfl, rfl, rfl, rfl, rfl, rfl⟩
  | _ => exact ⟨rfl, rfl, rfl, rfl, rfl, rfl, rfl⟩

end Delivery

/-! ## Keys of notifications as keys of clients -/

/-- A text without blanks is trimmed to itself. -/
theorem Text.trimBlank_of_no_blank {cs : List Char} (h : ∀ c ∈ cs, isBlank c = false) : trimBlank cs = cs := by
  have hfront : ∀ l : List Char, (∀ c ∈ l, isBlank c = false) → l.dropWhile isBlank = l := by
    intro l hl
    refine List.dropWhile_eq_self_iff.mpr fun hlength => ?_
    rw [hl _ (List.getElem_mem _)]
    exact Bool.false_ne_true
  rw [trimBlank, hfront cs h, hfront cs.reverse fun c hc => h c (List.mem_reverse.mp hc), List.reverse_reverse]

/-- A character takes four octets at most. -/
theorem Text.utf8Len_le (cs : List Char) : String.utf8Len cs ≤ 4 * cs.length := by
  induction cs with
  | nil => exact Nat.le_refl _
  | cons c rest ih =>
    have hc := c.utf8Size_le_four
    rw [String.utf8Len_cons, List.length_cons]
    omega

namespace Uuid

variable {ns : List Nat} {cs : List Char} {c : Char} {u : Uuid}

theorem mem_hyphenate (h : c ∈ hyphenate ns cs) : c = '-' ∨ c ∈ cs := by
  induction ns generalizing cs with
  | nil => exact .inr h
  | cons n ns ih =>
    cases ns with
    | nil => exact .inr h
    | cons n' ns =>
      rw [hyphenate_cons] at h
      rcases List.mem_append.mp h with h | h
      · exact .inr (List.mem_of_mem_take h)
      · rcases List.mem_cons.mp h with h | h
        · exact .inl h
        · exact (ih h).imp_right List.mem_of_mem_drop

theorem isBlank_of_mem_chars (h : c ∈ u.chars) : Text.isBlank c = false := by
  have hdigit : ∀ d, d < 16 → Text.isBlank d.digitChar = false := by decide
  rcases mem_hyphenate h with rfl | h
  · decide
  · obtain ⟨d, hd, rfl⟩ := exists_digit_of_mem_hexDigits h
    exact hdigit d hd

end Uuid

/-- **The key of an event is one that a client may choose.** -/
theorem Delivery.ofString_keyOf (id : Uuid) : IdempotencyKey.ofString (keyOf id).text = .ok (keyOf id) := by
  have htext : (keyOf id).text.toList = "notification:".toList ++ id.chars := by
    rw [keyOf, String.toList_append]
    exact congrArg (_ ++ ·) String.toList_ofList
  have hmark : ("notification:".toList.all fun c => !Text.isBlank c) = true := by decide
  have hblank : ∀ c ∈ (keyOf id).text.toList, Text.isBlank c = false := by
    intro c hc
    rw [htext] at hc
    rcases List.mem_append.mp hc with hc | hc
    · rw [← Bool.not_eq_true']
      exact List.all_eq_true.mp hmark c hc
    · exact Uuid.isBlank_of_mem_chars hc
  have htrim : Text.trim (keyOf id).text = (keyOf id).text := by
    rw [Text.trim, Text.trimBlank_of_no_blank hblank, String.ofList_toList]
  have hne : (keyOf id).text ≠ "" := by
    intro h
    have h := congrArg String.toList h
    rw [htext] at h
    cases h
  have hfits : ¬ IdempotencyKey.maxOctets < (keyOf id).text.utf8ByteSize := by
    have hlength : (keyOf id).text.toList.length = 49 := by
      rw [htext, List.length_append, id.chars_shape.1]
      rfl
    have hle := Text.utf8Len_le (keyOf id).text.toList
    rw [← String.utf8ByteSize_ofList, String.ofList_toList, hlength] at hle
    exact Nat.not_lt.mpr (hle.trans (by decide))
  simp only [IdempotencyKey.ofString, htrim, if_neg hne, if_neg hfits]

end PaymentRelay
