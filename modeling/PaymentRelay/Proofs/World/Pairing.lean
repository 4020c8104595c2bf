import PaymentRelay.Proofs.World.Tally

/-!
# Ledger and outbox stay paired

Every row of the outbox announces the payment that stands at its place in the ledger, in every world
that began with empty tables. A step adds both rows of a payment or none (`Tallied.adds`), so what is
paired stays paired.
-/

namespace PaymentRelay

/-- What a payment has to be announced with. -/
def Payment.announcement (p : Payment) : String × Json :=
  (PaymentSucceeded.eventType, p.succeeded.payload)

/-- What an event announces: its type and its payload. -/
def OutboxEvent.content (e : OutboxEvent) : String × Json :=
  (e.type, e.payload)

namespace World

/-! ## The invariant -/

/-- The tables are paired, and what is on its way to them is tallied. -/
structure Paired (w : World) : Prop extends Tallied [] w where
  rows : w.system.database.written.map (·.content) = w.system.database.payments.map (·.announcement)

variable {w w' : World} {token : Uuid} {c : PaymentCommand}

/-- **The tables stay paired step by step.** -/
theorem Paired.step {a : Action} (h : w.Paired) (hstep : w.step a = some w') : w'.Paired := by
  refine ⟨h.toTallied.step hstep, ?_⟩
  rcases h.adds hstep with ⟨hpayments, hwritten⟩ | ⟨c, id, now, hpayments, hwritten⟩
  · rw [hpayments, hwritten, h.rows]
  · rw [hpayments, hwritten, List.map_append, List.map_append, h.rows]
    rfl

/-! ## Whose payments they are -/

/-- All commands have a property: those that have entered, those whose commits are on their way, and those
whose payments are in the ledger. -/
structure OnlyFrom (F : PaymentCommand → Prop) (w : World) : Prop where
  parties : ∀ token p, w.parties.find? token = some p → F p.command
  detached : ∀ d ∈ w.system.detached, ∃ c id now, F c ∧ d.transaction = Transaction.ofCommand c id now
  payments : ∀ p ∈ w.system.database.payments, ∃ c now, F c ∧ p = .ofCommand c now

/-- A commit of a command with the property brings in no payment of another. -/
theorem payments_commit {F : PaymentCommand → Prop} {db : Database}
    (h : ∀ p ∈ db.payments, ∃ c now, F c ∧ p = .ofCommand c now) (hc : F c) (id : Uuid) (now : Instant) :
    ∀ p ∈ (db.commit (.ofCommand c id now)).payments, ∃ c now, F c ∧ p = .ofCommand c now := by
  intro p hp
  rcases List.mem_append.mp hp with hp | hp
  · exact h p hp
  · exact ⟨c, now, hc, List.mem_singleton.mp hp⟩

/-- **Payments are made by commands.** Where every command that enters has a property, no payment is made
without it. -/
theorem OnlyFrom.step {F : PaymentCommand → Prop} {a : Action} (h : w.OnlyFrom F) (hw : w.Paired)
    (ha : ∀ c token, a = .enter c token → F c) (hstep : w.step a = some w') : w'.OnlyFrom F := by
  cases change_of_step hstep with
  | advance => exact ⟨h.parties, h.detached, h.payments⟩
  | enter c token hnew =>
    refine ⟨fun t q hq => ?_, h.detached, h.payments⟩
    rcases find?_entered hq with ⟨-, rfl⟩ | ⟨-, hold⟩
    · exact ha c token rfl
    · exact h.parties t q hold
  | move token m p progress s hp ht =>
    have hparties : ∀ t q, (w.moved token p progress s).parties.find? t = some q → F q.command := by
      intro t q hq
      rcases find?_moved hq with ⟨-, rfl⟩ | ⟨-, hold⟩
      · exact h.parties token p hp
      · exact h.parties t q hold
    cases ht.effect (hw.carried token p hp) with
    | none hdb hdetached | draws _ _ _ _ hdb hdetached =>
      exact ⟨hparties, hdetached ▸ h.detached, hdb ▸ h.payments⟩
    | commits id now _ _ hdb hdetached =>
      exact ⟨hparties, hdetached ▸ h.detached, hdb ▸ payments_commit h.payments (h.parties token p hp) id now⟩
    | detaches id now _ _ hdb hdetached =>
      refine ⟨hparties, fun d hd => ?_, hdb ▸ h.payments⟩
      rcases List.mem_append.mp (hdetached ▸ hd) with hd | hd
      · exact h.detached d hd
      · exact ⟨p.command, id, now, h.parties token p hp, List.mem_singleton.mp hd ▸ rfl⟩
  | finishCommit place d hd =>
    obtain ⟨c, id, now, hc, hrows⟩ := h.detached d (List.mem_of_getElem? hd)
    simp only [System.finishCommit, hd]
    refine ⟨h.parties, fun d' hd' => h.detached d' (List.mem_of_mem_eraseIdx hd'), ?_⟩
    show ∀ p ∈ (w.system.database.commit d.transaction).payments, _
    rw [hrows]
    exact payments_commit h.payments hc id now
  | finishOrphan place isReleased o ho =>
    simp only [System.finishOrphan, ho]
    cases isReleased <;> exact ⟨h.parties, h.detached, h.payments⟩
  | elsewhere a w' _ hparties _ _ hsystem =>
    exact ⟨hparties ▸ h.parties, hsystem.detached ▸ h.detached, hsystem.payments ▸ h.payments⟩

/-! ## Runs -/

/-- A world that opens on empty tables is paired. -/
theorem paired_opening {s : System} (hpayments : s.database.payments = [])
    (houtbox : s.database.outbox = []) (hdetached : s.detached = []) : (opening s).Paired where
  toTallied := by
    have htallied := tallied_opening hdetached
    rwa [Database.written, houtbox, List.map_nil] at htallied
  rows := by simp only [opening, Database.written, hpayments, houtbox, List.map_nil]

/-- The tables are paired throughout a run that began with empty ones. -/
theorem paired_run {s : System} {as : List Action} (hpayments : s.database.payments = [])
    (houtbox : s.database.outbox = []) (hdetached : s.detached = [])
    (hrun : (opening s).run as = some w) : w.Paired :=
  run_keeps (P := fun w _ => w.Paired) (fun _ _ _ _ h hstep => h.step hstep)
    (paired_opening hpayments houtbox hdetached) hrun

/-- **Every payment is one of a command that entered.** -/
theorem payments_entered {s : System} {as : List Action} (hpayments : s.database.payments = [])
    (houtbox : s.database.outbox = []) (hdetached : s.detached = [])
    (hrun : (opening s).run as = some w) :
    ∀ p ∈ w.system.database.payments, ∃ c token now, .enter c token ∈ as ∧ p = .ofCommand c now := by
  let Entered : PaymentCommand → Prop := fun c => ∃ token, .enter c token ∈ as
  have hopening : (opening s).OnlyFrom Entered :=
    ⟨fun _ _ hp => absurd hp find?_opening, fun d hd => absurd (hdetached ▸ hd) List.not_mem_nil,
      fun p hp => absurd (hpayments ▸ hp) List.not_mem_nil⟩
  have hend := run_keeps
    (P := fun w rest => w.Paired ∧ w.OnlyFrom Entered ∧ ∀ c token, .enter c token ∈ rest → Entered c)
    (fun w a rest w' ⟨hw, hfrom, hrest⟩ hstep =>
      ⟨hw.step hstep, hfrom.step hw (fun c token ha => hrest c token (ha ▸ List.mem_cons_self)) hstep,
        fun c token hin => hrest c token (List.mem_cons_of_mem _ hin)⟩)
    ⟨paired_opening hpayments houtbox hdetached, hopening, fun _ token hin => ⟨token, hin⟩⟩ hrun
  intro p hp
  obtain ⟨c, now, ⟨token, hin⟩, rfl⟩ := hend.2.1.payments p hp
  exact ⟨c, token, now, hin, rfl⟩

theorem Paired.length_eq (h : w.Paired) :
    w.system.database.payments.length = w.system.database.outbox.length := by
  have hlength := congrArg List.length h.rows
  simp only [Database.written, List.length_map] at hlength
  exact hlength.symm

/-- The event at a place of the outbox announces the payment at that place of the ledger. -/
theorem Paired.announces (h : w.Paired) {i : Nat} {p : Payment} {r : OutboxRow}
    (hp : w.system.database.payments[i]? = some p) (hr : w.system.database.outbox[i]? = some r) :
    r.event.type = PaymentSucceeded.eventType ∧ r.event.payload = p.succeeded.payload := by
  have hrow := congrArg (·[i]?) h.rows
  simp only [Database.written, List.getElem?_map, hp, hr, Option.map_some, Option.some.injEq] at hrow
  exact Prod.mk.inj hrow

/-- **Ledger and outbox stay paired.** In every world that began with empty tables and no commit on its
way, the two tables have the same length, the event at each place announces the payment at that place,
and no two events have one id, if none was drawn twice. Each further step adds a payment and its event,
or neither. -/
theorem ledger_and_outbox_paired {s : System} {as : List Action}
    (hpayments : s.database.payments = []) (houtbox : s.database.outbox = [])
    (hdetached : s.detached = []) (hrun : (opening s).run as = some w) (hids : w.drawn.Nodup) :
    w.system.database.payments.length = w.system.database.outbox.length ∧
    (∀ (i : Nat) (p : Payment) (r : OutboxRow), w.system.database.payments[i]? = some p →
      w.system.database.outbox[i]? = some r → r.event.type = "payment.successful" ∧
        r.event.payload = p.succeeded.payload) ∧
    (w.system.database.outbox.map (·.event.id)).Nodup ∧
    ∀ a w', w.step a = some w' →
      (w'.system.database.payments = w.system.database.payments ∧
        w'.system.database.written = w.system.database.written) ∨
      ∃ c id now, w'.system.database.payments = w.system.database.payments ++ [.ofCommand c now] ∧
        w'.system.database.written = w.system.database.written ++
          [.record (Payment.ofCommand c now).succeeded id now] := by
  have h := paired_run hpayments houtbox hdetached hrun
  exact ⟨h.length_eq, fun i p r hp hr => h.announces hp hr, h.nodup_ids hids, fun a w' hstep => h.adds hstep⟩

/-- A run with two payments, one of which comes in after its command was dropped, while a poller has
claimed and published the other one's event. -/
def pairedRun : List Action :=
  accepted (sampleCommand "k") (.ofNat 1) (.ofNat 11) ++
    [.enter (sampleCommand "l") (.ofNat 2), .move (.ofNat 2) .reserve,
      .move (.ofNat 2) (.reply (.ofNat 12)), .fetch 10, .move (.ofNat 2) .writePayment,
      .move (.ofNat 2) .writeEvent, .mark (.ofNat 11), .move (.ofNat 2) .detach,
      .move (.ofNat 2) (.drop true), .finishCommit 0]

/-- Two payments and their events, with an event that was published and one that is pending. -/
theorem ledger_and_outbox_paired_of_two :
    ∃ w, (opening sampleSystem).run pairedRun = some w ∧
      w.system.database.outbox.map (fun r => r.event.isPending) = [false, true] ∧
      w.system.database.payments.length = 2 ∧
      w.system.database.payments.length = w.system.database.outbox.length ∧
      (w.system.database.outbox.map (·.event.id)).Nodup := by
  obtain ⟨w, hrun⟩ : ∃ w, (opening sampleSystem).run pairedRun = some w :=
    Option.isSome_iff_exists.mp (by decide +kernel)
  have hread : ((opening sampleSystem).run pairedRun).map (fun w =>
      (w.drawn, w.system.database.outbox.map fun r => r.event.isPending)) =
        some ([.ofNat 11, .ofNat 12], [false, true]) := by decide +kernel
  have hworld := read_run hrun hread
  obtain ⟨hdrawn, hpending⟩ := Prod.mk.inj hworld
  obtain ⟨hlength, -, hnodup, -⟩ :=
    ledger_and_outbox_paired rfl rfl rfl hrun (by rw [hdrawn]; decide)
  refine ⟨w, hrun, hpending, ?_, hlength, hnodup⟩
  rw [hlength, ← List.length_map, hpending]
  rfl

end World

end PaymentRelay
