import Mathlib.Data.List.Nodup
import PaymentRelay.Proofs.World.Reception

/-!
# From the payment to the customer

Commands, ticks and consumers work on one system, in any order and with any faults, and what comes out at
the end matches the ledger one to one (`payments_reach_customers`): only orders with a payment are paid, no
payment is told twice and nothing but payments is told, and once every event was delivered to both services
each payment has its notification and its order is paid.

The run has to end before a key of a notification expires, the ids of events have to be drawn distinct, and
users have to be numbers of 64 bits with a sign.
-/

namespace PaymentRelay

/-- A system that is still to be used: nothing was paid, announced, sent or told, and every order that is
known is unpaid. -/
structure System.IsUnused (s : System) : Prop where
  payments : s.database.payments = []
  outbox : s.database.outbox = []
  detached : s.detached = []
  records : s.broker.records = []
  sent : s.sent.holders = .empty
  notices : s.notices = []
  created : ∀ o status, s.orders.status? o = some status → status = .created

namespace World

variable {w w' : World} {s : System}

/-! ## Steps -/

/-- Orders and notifications of a world that opened on `s` follow the payments. -/
structure Follows (s : System) (w : World) : Prop where
  paired : w.Paired
  fed : w.Fed
  start : s.elapsed ≤ w.system.elapsed
  orders : w.OrdersFollow s
  notices : w.NoticesFollow s

/-- **Orders and notifications follow the payments step by step.** -/
theorem Follows.step {a : Action} (h : w.Follows s)
    (husers : ∀ p ∈ w.system.database.payments, Text.FitsInt64 p.user.value)
    (hlive : w.system.elapsed < s.elapsed + s.sent.lifetime.toNanos) (hstep : w.step a = some w') :
    w'.Follows s := by
  obtain ⟨hpaired, hfed, hstart, horders, hnotices⟩ := h
  have hpaired' := hpaired.step hstep
  have hfed' := hfed.step hpaired.toTallied hstep
  have hstart' := Nat.le_trans hstart (elapsed_le_of_step hstep)
  have kept : ∀ (_ : w'.system.orders = w.system.orders) (_ : w'.system.sent = w.system.sent)
      (_ : w'.system.notices = w.system.notices) (_ : w'.deliveries = w.deliveries), w'.Follows s :=
    fun ho hs hn hd => ⟨hpaired', hfed', hstart', horders.of_same hpaired hstep ho hd,
      hnotices.of_same hpaired hstep hs hn hd⟩
  cases a with
  | deliver service place =>
    obtain ⟨r, id, p, handled, sys, ha, hkey, hh, rfl⟩ := hfed.deliver hpaired husers hstep
    exact ⟨hpaired', hfed', hstart', horders.delivered ha hkey hh,
      hnotices.delivered ha hkey hh hstart hlive⟩
  | tick place m =>
    obtain ⟨t, -, htick⟩ := Option.bind_eq_some_iff.mp hstep
    obtain ⟨⟨t', sys⟩, hnext, htick⟩ := Option.bind_eq_some_iff.mp htick
    have hfeeds := (Tick.transition_of_step hnext).feeds
    cases htick
    exact kept hfeeds.orders hfeeds.sent hfeeds.notices rfl
  | startTick topic batch =>
    cases hstep
    exact kept rfl rfl rfl rfl
  | _ =>
    obtain ⟨hsame, -, hdeliveries⟩ := sameForConsumers_of_step hstep rfl
    exact kept hsame.orders hsame.sent hsame.notices hdeliveries

/-! ## Runs -/

/-- In a system that is still to be used all follow. -/
theorem follows_opening (hs : s.IsUnused) : (opening s).Follows s where
  paired := paired_opening hs.payments hs.outbox hs.detached
  fed :=
    ⟨fun r hr => absurd (hs.records ▸ hr) List.not_mem_nil, fun t ht => absurd ht List.not_mem_nil⟩
  start := Nat.le_refl _
  orders :=
    ⟨fun o ho => OrderStatus.noConfusion (hs.created o _ ho), fun _ => rfl,
      fun d hd => absurd hd List.not_mem_nil⟩
  notices := by
    have hfree : ∀ key, s.sent.held? key = none := fun key => by
      rw [KeyStore.held?, hs.sent]
      rfl
    constructor
    case lifetime => rfl
    case fresh =>
      intro key held hk
      rw [opening, hfree] at hk
      cases hk
    case held =>
      intro id
      rw [opening, hfree]
      exact ⟨fun h => Bool.noConfusion h, fun hin => absurd hin List.not_mem_nil⟩
    case notices => exact hs.notices
    case distinct => exact .nil
    case genuine => exact fun n hn => absurd hn List.not_mem_nil
    case told => exact fun d hd => absurd hd List.not_mem_nil
    case applied => exact fun d hd => absurd hd List.not_mem_nil

/-- All follow throughout a run that ends before a key of a notification expires. -/
theorem follows_run {as : List Action} (hs : s.IsUnused) (hrun : (opening s).run as = some w)
    (husers : ∀ p ∈ w.system.database.payments, Text.FitsInt64 p.user.value)
    (hlive : w.system.elapsed < s.elapsed + s.sent.lifetime.toNanos) : w.Follows s := by
  -- users and time are asked of the end of the run, and what holds there held before
  refine (run_keeps (P := fun w _ => w.Paired ∧
      ((∀ p ∈ w.system.database.payments, Text.FitsInt64 p.user.value) →
        w.system.elapsed < s.elapsed + s.sent.lifetime.toNanos → w.Follows s))
    (fun w a rest w' ⟨hpaired, hfollows⟩ hstep => ⟨hpaired.step hstep, fun hu hl => ?_⟩)
    ⟨(follows_opening hs).paired, fun _ _ => follows_opening hs⟩ hrun).2 husers hlive
  have hu' := fun p hp => hu p (hpaired.payments_mono hstep hp)
  have hl' := Nat.lt_of_le_of_lt (elapsed_le_of_step hstep) hl
  exact (hfollows hu' hl').step hu' hl' hstep

/-! ## Rows and payments -/

/-- At every place of the ledger there is a row that announces the payment there. -/
theorem Paired.announced (h : w.Paired) {p : Payment} (hp : p ∈ w.system.database.payments) :
    ∃ r ∈ w.system.database.outbox, w.Announces r.event.id p := by
  obtain ⟨i, hlt, rfl⟩ := List.mem_iff_getElem.mp hp
  have hlt' : i < w.system.database.outbox.length := h.length_eq ▸ hlt
  refine ⟨_, List.getElem_mem hlt', i, w.system.database.outbox[i].event.asWritten,
    List.getElem?_eq_getElem hlt, ?_, rfl⟩
  rw [Database.written, List.getElem?_map, List.getElem?_eq_getElem hlt']
  rfl

theorem Announces.row {id : Uuid} {p : Payment} (h : w.Announces id p) :
    ∃ (i : Nat) (r : OutboxRow), w.system.database.payments[i]? = some p ∧
      w.system.database.outbox[i]? = some r ∧ r.event.id = id := by
  obtain ⟨i, e, hp, he, hid⟩ := h
  rw [Database.written, List.getElem?_map, Option.map_eq_some_iff] at he
  obtain ⟨r, hr, rfl⟩ := he
  exact ⟨i, r, hp, hr, hid⟩

/-- Where no id was drawn twice, an id announces one payment. -/
theorem Announces.unique {id : Uuid} {p q : Payment} (hw : w.Paired) (hids : w.drawn.Nodup)
    (hp : w.Announces id p) (hq : w.Announces id q) : p = q := by
  obtain ⟨i, r, hpi, hri, hid⟩ := hp.row
  obtain ⟨j, r', hqj, hrj, hid'⟩ := hq.row
  have hlt : i < (w.system.database.outbox.map (·.event.id)).length := by
    rw [List.length_map]
    exact (List.getElem?_eq_some_iff.mp hri).1
  have hsame : (w.system.database.outbox.map (·.event.id))[i]? =
      (w.system.database.outbox.map (·.event.id))[j]? := by
    rw [List.getElem?_map, List.getElem?_map, hri, hrj, Option.map_some, Option.map_some, hid, hid']
  cases (List.getElem?_inj hlt (hw.nodup_ids hids)).mp hsame
  exact Option.some.inj (hpi.symm.trans hqj)

/-- The order of a payment is paid once its record was handed to the order service, if it was known. -/
theorem Follows.paid_of_delivered (h : w.Follows s) (hids : w.drawn.Nodup) {p : Payment} {r : OutboxRow}
    (ha : w.Announces r.event.id p) {d : Delivered} (hd : d ∈ w.deliveries) (hkey : d.record.key = r.event.id.text)
    (hservice : d.service = .orders) (hknown : (s.orders.status? p.order).isSome = true) :
    w.system.orders.status? p.order = some .paid := by
  -- the record has the key of one event, and the event the id of one payment
  obtain ⟨id, q, hq, hkey', hstatus⟩ := h.orders.told d hd hservice
  cases Uuid.text_inj (hkey.symm.trans hkey')
  cases Announces.unique h.paired hids ha hq
  rw [← h.orders.known] at hknown
  obtain ⟨status, hsome⟩ := Option.isSome_iff_exists.mp hknown
  cases status with
  | created => exact absurd hsome hstatus
  | paid => exact hsome

/-- Where every event has its notification, there are as many notifications as payments. -/
theorem Follows.length_notices (h : w.Follows s) (hids : w.drawn.Nodup)
    (htold : ∀ r ∈ w.system.database.outbox, r.event.id.text ∈ w.sendings.map (·.1)) :
    w.system.notices.length = w.system.database.payments.length := by
  have hdistinct : (w.system.database.outbox.map (·.event.id.text)).Nodup := by
    have htexts := List.Nodup.map (fun _ _ => Uuid.text_inj) (h.paired.nodup_ids hids)
    rwa [List.map_map] at htexts
  -- the ids of notifications are those of the rows, and neither has one twice
  have hperm : (w.sendings.map (·.1)).Perm (w.system.database.outbox.map (·.event.id.text)) := by
    refine (List.perm_ext_iff_of_nodup h.notices.distinct hdistinct).mpr ?_
    intro key
    constructor
    · intro hin
      obtain ⟨n, hn, rfl⟩ := List.mem_map.mp hin
      obtain ⟨id, p, ha, rfl⟩ := h.notices.genuine n hn
      obtain ⟨i, r, -, hr, rfl⟩ := ha.row
      exact List.mem_map.mpr ⟨r, List.mem_of_getElem? hr, rfl⟩
    · intro hin
      obtain ⟨r, hr, rfl⟩ := List.mem_map.mp hin
      exact htold r hr
  have hlength := hperm.length_eq
  rw [List.length_map, List.length_map] at hlength
  rw [h.notices.notices, List.length_map, hlength, h.paired.length_eq]

/-- Every event was handed to the order service, and to the notifying service in a delivery that went through:
its notifier did not fail, or it had nothing to do any more. -/
def AllHandedOver (w : World) : Prop :=
  ∀ r ∈ w.system.database.outbox,
    (∃ d ∈ w.deliveries, d.record.key = r.event.id.text ∧ d.service = .orders) ∧
    ∃ d ∈ w.deliveries, d.record.key = r.event.id.text ∧ d.service.isNotifying = true ∧
      d.dispatch = .handed .done

/-- **Payments reach customers.** In every run in which a system is put to use, whatever fails and however
often records are sent and delivered, an order is paid only if a payment for it was committed; the
notifications are those that deliveries sent, no two for one event, and each tells of the payment at the
place of its event: it is for the user of the payment and names its order and its amount. A delivery whose
notifier does not fail goes through, as long as the clock can show when its key expires. Once every event was
handed over, the orders of all payments are paid, if they were known, and there are as many notifications as
payments. -/
theorem payments_reach_customers {as : List Action} (hs : s.IsUnused) (hrun : (opening s).run as = some w)
    (husers : ∀ c token, .enter c token ∈ as → Text.FitsInt64 c.user.value) (hids : w.drawn.Nodup)
    (hlive : w.system.elapsed < s.elapsed + s.sent.lifetime.toNanos) :
    (∀ o, w.system.orders.status? o = some .paid → ∃ p ∈ w.system.database.payments, p.order = o) ∧
    w.system.notices = w.sendings.map (·.2) ∧ (w.sendings.map (·.1)).Nodup ∧
    (∀ n ∈ w.sendings, ∃ (i : Nat) (p : Payment) (r : OutboxRow),
      w.system.database.payments[i]? = some p ∧ w.system.database.outbox[i]? = some r ∧
        n = (r.event.id.text, .ofEvent p.succeeded) ∧ n.2.user = p.user ∧
        n.2.message = "Thank you for paying order " ++ p.order.text ++ " (" ++ p.amount.text ++ ").") ∧
    (∀ d ∈ w.deliveries, ∀ token, d.service = .notifications token none → d.dispatch = .handed .done ∨
      KeyStore.clockBound ≤ w.system.elapsed + s.sent.lifetime.toNanos) ∧
    (w.AllHandedOver →
      (∀ p ∈ w.system.database.payments, s.orders.status? p.order = some .created →
        w.system.orders.status? p.order = some .paid) ∧
      w.system.notices.length = w.system.database.payments.length) := by
  have hfits : ∀ p ∈ w.system.database.payments, Text.FitsInt64 p.user.value := by
    intro p hp
    obtain ⟨c, token, now, hin, rfl⟩ := payments_entered hs.payments hs.outbox hs.detached hrun p hp
    exact husers c token hin
  have h := follows_run hs hrun hfits hlive
  refine ⟨h.orders.paid, h.notices.notices, h.notices.distinct, fun n hn => ?_, h.notices.applied,
    fun hall => ⟨?_, ?_⟩⟩
  · obtain ⟨id, p, ha, rfl⟩ := h.notices.genuine n hn
    obtain ⟨i, r, hp, hr, rfl⟩ := ha.row
    obtain ⟨huser, hmessage⟩ := Notification.ofEvent_fields p.succeeded
    exact ⟨i, p, r, hp, hr, rfl, huser, hmessage⟩
  · intro p hp hcreated
    obtain ⟨r, hr, ha⟩ := h.paired.announced hp
    obtain ⟨⟨d, hd, hkey, hservice⟩, -⟩ := hall r hr
    exact h.paid_of_delivered hids ha hd hkey hservice (by rw [hcreated]; rfl)
  · refine h.length_notices hids fun r hr => ?_
    obtain ⟨-, d, hd, hkey, hnotifying, hdone⟩ := hall r hr
    exact hkey ▸ h.notices.told d hd hnotifying hdone

/-- A system that is still to be used and knows one order. -/
def unusedSystem : System :=
  { sampleSystem with orders := OrderBook.empty.insert ⟨.ofNat 5⟩ }

/-- A run with one payment, whose event is sent twice because it could not be marked. The notifier fails at
the first delivery; the second one notifies, and a third one has nothing to do any more. -/
def deliveredRun : List Action :=
  accepted (sampleCommand "k") (.ofNat 1) (.ofNat 11) ++
    [.startTick "payments" 10, .tick 0 .fetch, .tick 0 .publish, .tick 0 .markFails,
      .deliver (.notifications (.ofNat 21) (some .redis)) 0, .advance 31000000000,
      .startTick "payments" 10, .tick 1 .fetch, .tick 1 .publish, .tick 1 .mark,
      .deliver (.notifications (.ofNat 22) none) 1, .deliver (.notifications (.ofNat 23) none) 0,
      .deliver .orders 1]

/-- One payment, one notification of it in three deliveries, and a paid order. -/
theorem payments_reach_customers_of_three :
    ∃ w, (opening unusedSystem).run deliveredRun = some w ∧
      w.deliveries.map (·.dispatch) =
        [.handed (.failed .redis), .handed .done, .handed .done, .handed .done] ∧
      w.system.database.payments.length = 1 ∧
      (∃ n, w.system.notices = [n] ∧ n.user = ⟨7⟩ ∧
        n.message = "Thank you for paying order 00000000-0000-0000-0000-000000000005 (12.50).") ∧
      w.system.orders.status? ⟨.ofNat 5⟩ = some .paid := by
  have hunused : unusedSystem.IsUnused := by
    refine ⟨rfl, rfl, rfl, rfl, rfl, rfl, fun o status ho => ?_⟩
    replace ho : (OrderBook.empty.set ⟨.ofNat 5⟩ .created).status? o = some status := ho
    rw [OrderBook.status?_set] at ho
    split at ho
    · exact (Option.some.inj ho).symm
    · cases ho
  have husers : ∀ c token, .enter c token ∈ deliveredRun → Text.FitsInt64 c.user.value := by
    intro c token hin
    simp only [deliveredRun, accepted, List.map_cons, List.map_nil, List.cons_append, List.nil_append,
      List.mem_cons, Action.enter.injEq, reduceCtorEq, List.not_mem_nil, or_self, or_false] at hin
    rw [hin.1]
    decide
  have hread : ((opening unusedSystem).run deliveredRun).map (fun w => decide (
      w.drawn = [.ofNat 11] ∧ w.system.elapsed = 31000000000 ∧
      w.system.database.payments.map (fun p => (p.order, p.user, p.amount.text)) =
        [(⟨.ofNat 5⟩, ⟨7⟩, "12.50")] ∧
      w.system.database.outbox.map (·.event.id) = [.ofNat 11] ∧
      w.deliveries.map (fun d => (d.record.key, d.service, d.dispatch)) =
        [((Uuid.ofNat 11).text, .notifications (.ofNat 21) (some .redis), .handed (.failed .redis)),
          ((Uuid.ofNat 11).text, .notifications (.ofNat 22) none, .handed .done),
          ((Uuid.ofNat 11).text, .notifications (.ofNat 23) none, .handed .done),
          ((Uuid.ofNat 11).text, .orders, .handed .done)])) = some true := by decide +kernel
  obtain ⟨w, hrun, hworld⟩ := Option.map_eq_some_iff.mp hread
  obtain ⟨hdrawn, helapsed, hpayments, houtbox, hdeliveries⟩ := of_decide_eq_true hworld
  have hlive : w.system.elapsed < unusedSystem.elapsed + unusedSystem.sent.lifetime.toNanos := by
    rw [helapsed]
    decide
  obtain ⟨-, hsendings, -, hgenuine, -, hall⟩ :=
    payments_reach_customers hunused hrun husers (by rw [hdrawn]; decide) hlive
  have hhanded : w.AllHandedOver := by
    intro r hr
    have hid : r.event.id = .ofNat 11 :=
      List.mem_singleton.mp (houtbox ▸ List.mem_map_of_mem hr)
    have hseen : ∀ seen ∈ w.deliveries.map fun d => (d.record.key, d.service, d.dispatch),
        ∃ d ∈ w.deliveries, (d.record.key, d.service, d.dispatch) = seen := fun _ => List.mem_map.mp
    rw [hdeliveries] at hseen
    obtain ⟨d, hd, hd'⟩ := hseen _ (List.mem_of_getElem? (i := 3) rfl)
    obtain ⟨e, he, he'⟩ := hseen _ (List.mem_of_getElem? (i := 1) rfl)
    simp only [Prod.mk.injEq] at hd' he'
    obtain ⟨hdkey, hdservice, -⟩ := hd'
    obtain ⟨hekey, heservice, hedone⟩ := he'
    rw [hid]
    exact ⟨⟨d, hd, hdkey, hdservice⟩, e, he, hekey, by rw [heservice]; rfl, hedone⟩
  obtain ⟨hpaid, hnotices⟩ := hall hhanded
  have hone : w.system.database.payments.length = 1 := by
    rw [← List.length_map, hpayments]
    rfl
  have hfields : ∀ p ∈ w.system.database.payments,
      p.order = ⟨.ofNat 5⟩ ∧ p.user = ⟨7⟩ ∧ p.amount.text = "12.50" := by
    intro p hp
    have hp' := List.mem_singleton.mp (hpayments ▸ List.mem_map_of_mem hp)
    simpa only [Prod.mk.injEq] using hp'
  refine ⟨w, hrun, ?_, hone, ?_, ?_⟩
  · have hdispatches := congrArg (List.map fun d => d.2.2) hdeliveries
    rwa [List.map_map] at hdispatches
  · obtain ⟨n, hn⟩ := List.length_eq_one_iff.mp (hnotices.trans hone)
    obtain ⟨sent, hsent, rfl⟩ := List.mem_map.mp (hsendings ▸ hn ▸ List.mem_singleton_self n)
    obtain ⟨i, p, r, hp, -, -, huser, hmessage⟩ := hgenuine sent hsent
    obtain ⟨horder, huser', hamount⟩ := hfields p (List.mem_of_getElem? hp)
    refine ⟨sent.2, hn, huser.trans huser', hmessage.trans ?_⟩
    rw [horder, hamount]
    decide +kernel
  · obtain ⟨p, hp⟩ := List.exists_mem_of_length_pos (Nat.lt_of_lt_of_eq Nat.zero_lt_one hone.symm)
    obtain ⟨horder, -⟩ := hfields p hp
    exact horder ▸ hpaid p hp (by rw [horder]; rfl)

end World

end PaymentRelay
