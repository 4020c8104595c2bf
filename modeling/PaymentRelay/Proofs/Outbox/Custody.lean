import PaymentRelay.Proofs.Outbox.LifeCycle

/-!
# Who holds a claim

A claim is an instant in a row, and nothing in the row says whose it is. So whoever was handed an event may end the
claim on it, also when his own is over and somebody else has the event by now.

`custody` says what a claim is worth among callers who touch only what they were handed (`OwnCalls`). From the moment
an event is handed out it stays hidden until its claim is over or ended, and a mark hides it for good. Who ends the
claim holds it, or was handed the event before. The second does happen (`shared_custody`).
-/

namespace PaymentRelay.Database

/-- The event that a call marks or lets go. -/
def Call.about? : Call → Option Uuid
  | .mark id | .release id => some id
  | _ => none

theorem Call.about?_eq_some_iff {c : Call} {id : Uuid} : c.about? = some id ↔ c = .mark id ∨ c = .release id := by
  cases c <;> simp [about?]

/-- Every caller marks and lets go only events that were handed to him before. -/
def OwnCalls (exchanges : List Exchange) : Prop :=
  ∀ place : Fin exchanges.length, ∀ id ∈ exchanges[place].call.about?,
    ∃ y ∈ exchanges.take place, y.caller = exchanges[place].caller ∧ id ∈ y.ids

instance (exchanges : List Exchange) : Decidable (OwnCalls exchanges) :=
  inferInstanceAs (Decidable (∀ place : Fin exchanges.length, ∀ id ∈ exchanges[place].call.about?,
    ∃ y ∈ exchanges.take place, y.caller = exchanges[place].caller ∧ id ∈ y.ids))

theorem OwnCalls.earlier {past future : List Exchange} {x : Exchange} {id : Uuid}
    (h : OwnCalls (past ++ x :: future)) (hid : x.call.about? = some id) :
    ∃ y ∈ past, y.caller = x.caller ∧ id ∈ y.ids := by
  have hlt : past.length < (past ++ x :: future).length := by
    rw [List.length_append, List.length_cons]
    omega
  have hx : (past ++ x :: future)[past.length] = x := by
    rw [List.getElem_append_right (Nat.le_refl _)]
    simp only [Nat.sub_self, List.getElem_cons_zero]
  have hplace := h ⟨past.length, hlt⟩ id
  simp only [Fin.getElem_fin, hx, List.take_left] at hplace
  exact hplace hid

end PaymentRelay.Database

/-! ## A row that is claimed -/

namespace PaymentRelay.OutboxRow

open Database (Exchange)

variable {lease : Duration} {r : OutboxRow} {x : Exchange} {xs : List Exchange}

/-- Only a fetch that hands the event out claims a row. -/
theorem lockedUntil_after_of_none (hfree : r.event.id ∉ x.ids) (hnone : r.lockedUntil = none) :
    (r.after lease x).lockedUntil = none := by
  unfold after
  cases x.call with
  | commit => exact hnone
  | fetch => rwa [if_neg hfree]
  | mark | release =>
    dsimp only
    split
    next => rfl
    next => exact hnone

/-- Who does not hand out, mark or let go an event leaves its row alone. -/
theorem after_of_aside (hfree : r.event.id ∉ x.ids) (habout : x.call.about? ≠ some r.event.id) :
    r.after lease x = r := by
  unfold after
  cases hcall : x.call with
  | commit => rfl
  | fetch => exact if_neg hfree
  | mark id | release id =>
    rw [hcall] at habout
    have hne : r.event.id ≠ id := fun h => habout (congrArg some h.symm)
    simp only [hne, false_and, if_false]

/-- A claim ends when it is let go. -/
theorem after_of_release (hpending : r.event.isPending = true) (hcall : x.call = .release r.event.id) :
    r.after lease x = r.unlock := by
  simp only [after, hcall, hpending, and_self, if_true]

/-! ### Any number of exchanges -/

theorem lockedUntil_foldl_of_none (hfree : ∀ x ∈ xs, r.event.id ∉ x.ids) (hnone : r.lockedUntil = none) :
    (xs.foldl (after lease) r).lockedUntil = none := by
  induction xs generalizing r with
  | nil => exact hnone
  | cons x rest ih =>
    obtain ⟨hx, hrest⟩ := List.forall_mem_cons.mp hfree
    exact ih (id_after.symm ▸ hrest) (lockedUntil_after_of_none hx hnone)

theorem foldl_of_aside (hfree : ∀ x ∈ xs, r.event.id ∉ x.ids)
    (habout : ∀ x ∈ xs, x.call.about? ≠ some r.event.id) : xs.foldl (after lease) r = r := by
  induction xs with
  | nil => rfl
  | cons x rest ih =>
    obtain ⟨hx, hrest⟩ := List.forall_mem_cons.mp hfree
    obtain ⟨hx', hrest'⟩ := List.forall_mem_cons.mp habout
    rw [List.foldl_cons, after_of_aside hx hx']
    exact ih hrest hrest'

/-- An event that was still to be sent is so unless somebody has marked it. -/
theorem isPending_foldl (hpending : r.event.isPending = true) :
    (xs.foldl (after lease) r).event.isPending = true ↔ ∀ x ∈ xs, x.call ≠ .mark r.event.id := by
  rw [OutboxEvent.isPending, Option.isNone_iff_eq_none] at hpending ⊢
  rw [event_foldl_after, hpending, Option.none_or, Database.firstMark?, List.findSome?_map,
    List.findSome?_eq_none_iff]
  refine forall₂_congr fun x _ => ?_
  simp only [Function.comp_apply, Database.Visit.marks?]
  cases x.call <;> simp [eq_comm]

/-- A claim that was let go is over until the event is handed out again. -/
theorem lockedUntil_foldl_of_release (hpending : r.event.isPending = true) (hfree : ∀ x ∈ xs, r.event.id ∉ x.ids)
    (hmark : ∀ x ∈ xs, x.call ≠ .mark r.event.id) (hrelease : ∃ x ∈ xs, x.call = .release r.event.id) :
    (xs.foldl (after lease) r).lockedUntil = none := by
  obtain ⟨x, hx, hcall⟩ := hrelease
  obtain ⟨first, rest, rfl⟩ := List.append_of_mem hx
  have hid : (first.foldl (after lease) r).event.id = r.event.id := id_foldl_after
  have hstill : (first.foldl (after lease) r).event.isPending = true :=
    (isPending_foldl hpending).mpr fun y hy => hmark y (List.mem_append_left _ hy)
  rw [List.foldl_append, List.foldl_cons, after_of_release hstill (hid.symm ▸ hcall)]
  refine lockedUntil_foldl_of_none (fun y hy => ?_) rfl
  rw [unlock, hid]
  exact hfree y (List.mem_append_right _ (List.mem_cons_of_mem _ hy))

/-- **What a claim is worth.** While nobody hands the event out anew, a row that was claimed may be claimed again once
its claim is over or was let go, as long as nobody has marked the event. -/
theorem isClaimable_foldl {last now : Instant} (hpending : r.event.isPending = true)
    (hlast : r.lockedUntil = some last) (hfree : ∀ x ∈ xs, r.event.id ∉ x.ids) :
    (xs.foldl (after lease) r).isClaimable now = true ↔
      (∀ x ∈ xs, x.call ≠ .mark r.event.id) ∧ (last < now ∨ ∃ x ∈ xs, x.call = .release r.event.id) := by
  rw [isClaimable, Bool.and_eq_true, isPending_foldl hpending]
  refine and_congr_right fun hmark => ?_
  by_cases hrelease : ∃ x ∈ xs, x.call = .release r.event.id
  · rw [lockedUntil_foldl_of_release hpending hfree hmark hrelease]
    exact iff_of_true rfl (.inr hrelease)
  · have habout : ∀ x ∈ xs, x.call.about? ≠ some r.event.id := by
      intro x hx habout
      rcases Database.Call.about?_eq_some_iff.mp habout with hcall | hcall
      · exact hmark x hx hcall
      · exact hrelease ⟨x, hx, hcall⟩
    rw [foldl_of_aside hfree habout, hlast]
    exact decide_eq_true_iff.trans ⟨.inl, fun h => h.resolve_right hrelease⟩

end PaymentRelay.OutboxRow

/-! ## The law -/

namespace PaymentRelay.Database

/-- **Custody of an event.** A database is called by callers who mark and let go only what they were handed, however
late, and by whatever clock. When an event was handed out, by `v`, and has not been handed out since, then

* its claim lasts for the lease from that instant, and the next fetch that hands it out comes when that is over, or
  somebody has let the event go since; and nobody has marked it;
* when that is so, the next fetch that asks for enough hands it out;
* who has let it go is the one it was handed to by `v`, or one it was handed to before. -/
theorem custody {lifetime : Duration} {before since : List Visit} {v : Visit}
    (hids : (newIds (before ++ v :: since)).Nodup)
    (hown : OwnCalls ((empty lifetime).serve (before ++ v :: since)).1) :
    let start := ((empty lifetime).serve before).2
    let calls := ((start.answer v).2.serve since).1
    let db := ((start.answer v).2.serve since).2
    ∀ id ∈ (start.exchange v).ids, (∀ x ∈ calls, id ∉ x.ids) → ∃ last, v.time.add? start.lease = some last ∧
      (∀ again, id ∈ (db.exchange again).ids →
        (∀ x ∈ calls, x.call ≠ .mark id) ∧ (last < again.time ∨ ∃ x ∈ calls, x.call = .release id)) ∧
      (∀ limit now events after, db.fetch limit now = some (events, after) → db.outbox.length ≤ limit →
        (∀ x ∈ calls, x.call ≠ .mark id) → (last < now ∨ ∃ x ∈ calls, x.call = .release id) →
        id ∈ events.map (·.id)) ∧
      ∀ x ∈ calls, x.call = .release id →
        x.caller = v.caller ∨ ∃ y ∈ ((empty lifetime).serve before).1, y.caller = x.caller ∧ id ∈ y.ids := by
  intro start calls db id hid hfree
  have hstart : (start.outbox.map (·.event.id) ++ newIds (v :: since)).Nodup := by
    rw [newIds_append] at hids
    rwa [ids_serve]
  obtain ⟨r, hr, rfl, hclaimable, limit, hcall, hfetch⟩ := claimable_of_answer hid
  obtain ⟨last, hlast, -⟩ := outbox_fetch hstart.of_append_left hfetch
  -- the row as it is when it has been handed out, and as it is in the end
  have hlocked : r.after start.lease (start.exchange v) = r.lock last := by
    have hcall' : (start.exchange v).call = .fetch limit := hcall
    have hlast' : (start.exchange v).time.add? start.lease = some last := hlast
    simp only [OutboxRow.after, hcall', hid, if_true, hlast']
    rfl
  have hmem : r.lock last ∈ (start.answer v).2.outbox := by
    rw [outbox_answer hstart.of_append_left v, ← hlocked]
    exact List.mem_append_left _ (List.mem_map_of_mem hr)
  have hend := mem_serve (nodup_answer hstart) hmem
  have hpending : (r.lock last).event.isPending = true := (Bool.and_eq_true_iff.mp hclaimable).1
  have hiff (now : Instant) := @OutboxRow.isClaimable_foldl (start.answer v).2.lease _ _ last now hpending rfl hfree
  have hendid : (calls.foldl (OutboxRow.after (start.answer v).2.lease) (r.lock last)).event.id = r.event.id :=
    OutboxRow.id_foldl_after
  refine ⟨last, hlast, ?handed, ?enough, ?released⟩
  case handed =>
    intro again hagain
    obtain ⟨other, hother, hsame, hclaimable', -⟩ := claimable_of_answer hagain
    have hnodup : (db.outbox.map (·.event.id)).Nodup := by
      rw [ids_serve]
      exact nodup_answer hstart
    rw [List.inj_on_of_nodup_map hnodup hother hend (hsame.trans hendid.symm)] at hclaimable'
    exact (hiff again.time).mp hclaimable'
  case enough =>
    intro limit now events after hfetch hlimit hmark hover
    have hin := mem_fetch_of_claimable hfetch hlimit hend ((hiff now).mpr ⟨hmark, hover⟩)
    exact List.mem_map.mpr ⟨_, hin, hendid⟩
  case released =>
    intro x hx hrelease
    obtain ⟨first, rest, hcalls⟩ := List.append_of_mem hx
    have hall : ((empty lifetime).serve (before ++ v :: since)).1 =
        (((empty lifetime).serve before).1 ++ start.exchange v :: first) ++ x :: rest := by
      rw [serve_append, List.append_assoc, List.cons_append, ← hcalls]
      rfl
    rw [hall] at hown
    obtain ⟨y, hy, hcaller, hyid⟩ := hown.earlier (Call.about?_eq_some_iff.mpr (.inr hrelease))
    rcases List.mem_append.mp hy with hy | hy
    · exact .inr ⟨y, hy, hcaller, hyid⟩
    · rcases List.mem_cons.mp hy with rfl | hy
      · exact .inl hcaller.symm
      · exact absurd hyid (hfree y (hcalls ▸ List.mem_append_left _ hy))

/-- An event is committed and handed to somebody who is slow. -/
def slowVisits : List Visit := [⟨0, ⟨0, 0⟩, .commit ⟨[], [bareEvent 1 0]⟩⟩, ⟨1, ⟨0, 0⟩, .fetch 5⟩]

/-- His claim is over, and somebody else is handed the event. -/
def takeover : Visit := ⟨2, ⟨31, 0⟩, .fetch 5⟩

/-- He lets it go at last. -/
def lateRelease : List Visit := [⟨1, ⟨32, 0⟩, .release (.ofNat 1)⟩]

/-- The late release counts: the event is handed out again, and the one who has let it go was handed it before. -/
theorem custody_of_slow :
    let start := ((empty (.ofSeconds 30)).serve slowVisits).2
    let db := ((start.answer takeover).2.serve lateRelease).2
    (∀ events after, db.fetch 5 ⟨33, 0⟩ = some (events, after) → .ofNat 1 ∈ events.map (·.id)) ∧
      ∃ y ∈ ((empty (.ofSeconds 30)).serve slowVisits).1, y.caller = 1 ∧ .ofNat 1 ∈ y.ids := by
  intro start db
  obtain ⟨last, -, -, henough, hreleased⟩ :=
    @custody (.ofSeconds 30) slowVisits lateRelease takeover (by decide +kernel) (by decide +kernel) (.ofNat 1)
      (by decide +kernel) (by decide +kernel)
  constructor
  · intro events after hfetch
    exact henough 5 ⟨33, 0⟩ events after hfetch (by decide +kernel) (List.forall_mem_singleton.mpr nofun)
      (.inr ⟨_, List.mem_cons_self .., rfl⟩)
  · refine (hreleased _ (List.mem_cons_self ..) rfl).resolve_left ?_
    decide +kernel

/-- **A claim may be ended by somebody else.** Everybody touches only what he was handed, and time goes on; and yet
the event is handed out to a third while the claim of the second lasts, who has neither marked it nor let it go. -/
theorem shared_custody :
    let start := ((empty (.ofSeconds 30)).serve slowVisits).2
    let calls := ((start.answer takeover).2.serve lateRelease).1
    let db := ((start.answer takeover).2.serve lateRelease).2
    let again : Visit := ⟨3, ⟨33, 0⟩, .fetch 5⟩
    let visits := slowVisits ++ takeover :: (lateRelease ++ [again])
    ((newIds visits).Nodup ∧ (visits.Pairwise fun a b => ¬ b.time < a.time) ∧
      OwnCalls ((empty (.ofSeconds 30)).serve visits).1) ∧
    (.ofNat 1 ∈ (start.exchange takeover).ids ∧ .ofNat 1 ∈ (db.exchange again).ids) ∧
    (∀ x ∈ calls, x.caller ≠ takeover.caller ∧ .ofNat 1 ∉ x.ids) ∧
    ∃ last, takeover.time.add? start.lease = some last ∧ ¬ last < again.time := by
  refine ⟨by decide +kernel, by decide +kernel, by decide +kernel, ⟨61, 0⟩, by decide +kernel, by decide +kernel⟩

end PaymentRelay.Database
