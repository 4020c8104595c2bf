import PaymentRelay.Proofs.Delivery.Isolation
import PaymentRelay.Proofs.Delivery.Mailroom
import PaymentRelay.Proofs.World.Separation

/-!
# Commands and notifications in one key store

Payment commands and the service that notifies customers may be given one key store. `Shared` is a world and a
mailroom over one system that has a single store: whatever either of them does to its keys is done to those of the
other (`Shared.step`).

The keys of both kinds lie in one space. The key of an event begins with a mark of its own, but a client may choose
any text, and so a key with this mark too; then a command may hold the key of an event, and a delivery that finds it
takes the notification for sent (`client_key_silences`). `one_store_for_two` says that nothing else can go wrong: the
deliveries of an event go as if there were no commands, unless one comes with the key of the event, and the commands
with a key go as if nothing were delivered, unless an event with this key is. Each of these is shown by a run that is
cut down to what concerns the event or the key (`cut`), with a relation that every step keeps (`BesideEvent`,
`BesideKey`).
-/

namespace PaymentRelay

open Delivery (keyOf)

/-- Whether a delivery is one of an event. -/
def Delivery.isOf (id : Uuid) (d : Delivery) : Bool := d.eventId == id

theorem Delivery.isOf_iff {id : Uuid} {d : Delivery} : d.isOf id = true ↔ d.eventId = id := beq_iff_eq

theorem Delivery.isOf_eq_false_iff {id : Uuid} {d : Delivery} : d.isOf id = false ↔ d.eventId ≠ id :=
  beq_eq_false_iff_ne

/-- A world and a mailroom over one system, in which the keys of commands and those of notifications are one. -/
structure Shared where
  world : World
  errands : List Errand
  /-- The deliveries that have sent, as they were at that time, the first to send first. -/
  sendings : List Delivery

namespace Shared

/-- What happens in a world or in a mailroom over one system. -/
inductive Action where
  | work (a : World.Action)
  | handle (a : Mailroom.Action)
deriving Repr

/-- Nothing has been done or delivered yet. -/
def opening (s : System) : Shared := ⟨.opening s, [], []⟩

/-- The mailroom. -/
def room (x : Shared) : Mailroom := ⟨x.world.system, x.errands, x.sendings⟩

/-- One action, after which the keys of both kinds are what it has made of those of one. Deliveries to the service that
notifies customers are those of the mailroom. -/
def step (x : Shared) : Action → Option Shared
  | .work (.deliver (.notifications ..) _) => none
  | .work a => (x.world.step a).map fun w =>
    { x with world := { w with system := { w.system with sent := w.system.keys } } }
  | .handle a => (x.room.step a).map fun r =>
    ⟨{ x.world with system := { r.system with keys := r.system.sent } }, r.errands, r.sendings⟩

/-- The actions of a list, the first first. -/
def run (x : Shared) : List Action → Option Shared
  | [] => some x
  | a :: rest => (x.step a).bind fun x => x.run rest

/-! ## A run cut down -/

/-- A delivery comes and asks for the key of its event. -/
def deliveryAsks (x : Shared) (id : Uuid) (event : PaymentSucceeded) (channel : Channel) (token : Uuid) : List Action :=
  [.handle (.accept id event channel token), .handle (.move x.errands.length .reserve),
    .handle (.move x.errands.length .reply)]

/-- A command comes and asks for its key. -/
def commandAsks (c : PaymentCommand) (token drawn : Uuid) : List Action :=
  [.work (.enter c token), .work (.move token .reserve), .work (.move token (.reply drawn))]

/-- A run with only what is kept of its actions. -/
def cut {β : Type} (keep : Shared → Action → Option β) (x : Shared) : List Action → List β
  | [] => []
  | a :: rest => match x.step a with
    | some next => (keep x a).toList ++ next.cut keep rest
    | none => []

/-- What an action is to the deliveries of an event, which are counted among themselves. -/
def keepEvent (id : Uuid) (x : Shared) : Action → Option Mailroom.Action
  | .work (.advance nanos) | .handle (.advance nanos) => some (.advance nanos)
  | .handle (.accept eventId event channel token) =>
    if eventId = id then some (.accept eventId event channel token) else none
  | .handle (.move place m) => do
    let e ← x.errands[place]?
    if e.delivery.eventId = id then some (.move (placeAmong (·.delivery.isOf id) x.errands place) m) else none
  | .work _ => none

/-- What an action is to the commands with a key. -/
def keepKey (key : IdempotencyKey) (x : Shared) : Action → Option World.Action
  | .work a => x.world.keep key a
  | .handle (.advance nanos) => some (.advance nanos)
  | .handle _ => none

/-- The key of the command that enters, if one does. -/
def Action.key? : Action → Option IdempotencyKey
  | .work (.enter c _) => some c.key
  | _ => none

/-- The event whose delivery begins, if one does. -/
def Action.eventId? : Action → Option Uuid
  | .handle (.accept id ..) => some id
  | _ => none

variable {s : System} {x x' : Shared} {a : Action} {as : List Action} {id : Uuid} {key : IdempotencyKey} {w v : World}
  {r : Mailroom}

/-- An action of the world is one of its steps. -/
theorem step_work {b : World.Action} (h : x.step (.work b) = some x') : ∃ w, x.world.step b = some w ∧
    x' = { x with world := { w with system := { w.system with sent := w.system.keys } } } := by
  have hmap : x.step (.work b) = (x.world.step b).map (fun w =>
      { x with world := { w with system := { w.system with sent := w.system.keys } } }) ∨ x.step (.work b) = none := by
    cases b with
    | deliver service => cases service <;> simp only [step, or_true, true_or]
    | _ => exact .inl rfl
  rcases hmap with hmap | hnone
  · obtain ⟨w, hw, rfl⟩ := Option.map_eq_some_iff.mp (hmap.symm.trans h)
    exact ⟨w, hw, rfl⟩
  · rw [hnone] at h
    cases h

/-- An action of the mailroom is one of its steps. -/
theorem step_handle {b : Mailroom.Action} (h : x.step (.handle b) = some x') : ∃ r, x.room.step b = some r ∧
    x' = ⟨{ x.world with system := { r.system with keys := r.system.sent } }, r.errands, r.sendings⟩ := by
  obtain ⟨r, hr, rfl⟩ := Option.map_eq_some_iff.mp h
  exact ⟨r, hr, rfl⟩

/-- What is left when the delivery at a place has taken a step. -/
def moved (x : Shared) (place : Nat) (e : Errand) (m : Delivery.Move) (d : Delivery) (sys : System) : Shared where
  world := { x.world with system := { sys with keys := sys.sent } }
  errands := x.errands.set place (e.advanced d x.world.system.elapsed)
  sendings := if m = .send then x.sendings ++ [e.delivery] else x.sendings

theorem step_move {place : Nat} {m : Delivery.Move} : x.step (.handle (.move place m)) = some x' ↔
    ∃ e d sys, x.errands[place]? = some e ∧ e.delivery.step m x.world.system = some (d, sys) ∧
      x.moved place e m d sys = x' := by
  simp only [step, room, Mailroom.step, Option.map_eq_some_iff, Option.bind_eq_bind, Option.bind_eq_some_iff]
  constructor
  · rintro ⟨r, ⟨e, he, ⟨d, sys⟩, hd, hr⟩, rfl⟩
    cases hr
    exact ⟨e, d, sys, he, hd, rfl⟩
  · rintro ⟨e, d, sys, he, hd, rfl⟩
    exact ⟨_, ⟨e, he, ⟨d, sys⟩, hd, rfl⟩, rfl⟩

/-- There is one store after every step. -/
theorem one_store_of_step (h : x.step a = some x') : x'.world.system.sent = x'.world.system.keys := by
  cases a with
  | work b =>
    obtain ⟨w, -, rfl⟩ := step_work h
    rfl
  | handle b =>
    obtain ⟨r, -, rfl⟩ := step_handle h
    rfl

/-! ## The deliveries of an event -/

/-- The system of a mailroom as commands would see it if the keys of notifications were theirs and nothing were on its
way. -/
def asCommandsSee (s : System) : System :=
  { s with keys := s.sent, detached := [], orphans := [] }

/-- A mailroom with the deliveries of one event, beside the full one. -/
structure BesideEvent (id : Uuid) (x : Shared) (r : Mailroom) : Prop where
  one : x.world.system.sent = x.world.system.keys
  /-- No commit and no orphan on its way concerns the event. -/
  part : x.world.system.Part (fun _ => false) (keyOf id) (asCommandsSee r.system)
  others : ∀ token p, x.world.parties.find? token = some p → p.command.key ≠ keyOf id
  errands : r.errands = x.errands.filter (·.delivery.isOf id)
  sendings : r.sendings = x.sendings.filter (·.isOf id)

theorem BesideEvent.agree (h : BesideEvent id x r) : x.world.system.AgreeOnSent (keyOf id) r.system :=
  ⟨h.part.elapsed, h.one ▸ h.part.keys⟩

/-- A step of the world that keeps the part keeps the mailroom beside it. -/
theorem BesideEvent.worked (h : BesideEvent id x r)
    (hpart : w.system.Part (fun _ => false) (keyOf id) (asCommandsSee r.system))
    (hothers : ∀ token p, w.parties.find? token = some p → p.command.key ≠ keyOf id) :
    BesideEvent id { x with world := { w with system := { w.system with sent := w.system.keys } } } r :=
  ⟨rfl, hpart.ofSame rfl rfl rfl rfl rfl, hothers, h.errands, h.sendings⟩

/-- What happens in the world is no matter to the deliveries of the event. -/
theorem BesideEvent.work {b : World.Action} (h : BesideEvent id x r)
    (hspares : (Action.work b).key? ≠ some (keyOf id)) (hstep : x.step (.work b) = some x') :
    ∃ r', r.run (keepEvent id x (.work b)).toList = some r' ∧ BesideEvent id x' r' := by
  obtain ⟨w, hw, rfl⟩ := step_work hstep
  cases World.change_of_step hw with
  | advance nanos =>
    exact ⟨{ r with system := r.system.advance nanos }, rfl, rfl,
      (h.part.advance nanos).ofSame rfl rfl rfl rfl rfl, h.others, h.errands, h.sendings⟩
  | enter c token hnew =>
    refine ⟨r, rfl, h.worked h.part fun other p hp => ?_⟩
    rcases World.find?_entered hp with ⟨-, rfl⟩ | ⟨-, hp⟩
    · exact fun hkey => hspares (congrArg some hkey)
    · exact h.others other p hp
  | move token m p progress sys hp ht =>
    refine ⟨r, rfl, h.worked (ht.aside h.part (h.others token p hp).symm rfl) fun other q hq => ?_⟩
    rcases World.find?_moved hq with ⟨-, rfl⟩ | ⟨-, hq⟩
    · exact h.others token p hp
    · exact h.others other q hq
  | finishCommit place d hd => exact ⟨r, rfl, h.worked (h.part.finishCommit_aside hd rfl) h.others⟩
  | finishOrphan place isReleased o ho =>
    have hnone : ∀ o ∈ x.world.system.orphans, ¬(o.key == keyOf id) = true :=
      List.filter_eq_nil_iff.mp h.part.orphans.symm
    have hkey : o.key ≠ keyOf id := fun hkey => hnone o (List.mem_of_getElem? ho) (beq_iff_eq.mpr hkey)
    exact ⟨r, rfl, h.worked (h.part.finishOrphan_aside ho hkey isReleased) h.others⟩
  | elsewhere _ _ ha hparties _ _ hsystem =>
    have hkeep : keepEvent id x (.work b) = none := by
      cases b with
      | advance => cases ha
      | _ => rfl
    refine ⟨r, by rw [hkeep]; rfl, h.worked ?_ (hparties ▸ h.others)⟩
    exact h.part.ofSame hsystem.start hsystem.elapsed hsystem.keys hsystem.detached hsystem.orphans

/-- A step of a delivery that keeps the agreement keeps the part. -/
theorem BesideEvent.part_of_agree (h : BesideEvent id x r) {sys : System} {r' : Mailroom}
    (hsame : x.world.system.SameForCommands sys) (hagree : sys.AgreeOnSent (keyOf id) r'.system)
    (hstart : r'.system.start = r.system.start) :
    { sys with keys := sys.sent }.Part (fun _ => false) (keyOf id) (asCommandsSee r'.system) where
  start := hstart.trans (h.part.start.trans hsame.start.symm)
  elapsed := hagree.elapsed
  keys := hagree.sent
  detached := hsame.detached ▸ h.part.detached
  orphans := hsame.orphans ▸ h.part.orphans

theorem BesideEvent.advance (h : BesideEvent id x r) {nanos : Nat}
    (hstep : x.step (.handle (.advance nanos)) = some x') :
    ∃ r', r.run (keepEvent id x (.handle (.advance nanos))).toList = some r' ∧ BesideEvent id x' r' := by
  cases hstep
  exact ⟨{ r with system := r.system.advance nanos }, rfl, rfl,
    (h.part.advance nanos).ofSame rfl rfl h.one rfl rfl, h.others, h.errands, h.sendings⟩

/-- A delivery begins, in both mailrooms if it is one of the event. -/
theorem BesideEvent.accept (h : BesideEvent id x r) {eventId token : Uuid} {event : PaymentSucceeded}
    {channel : Channel} (hstep : x.step (.handle (.accept eventId event channel token)) = some x') :
    ∃ r', r.run (keepEvent id x (.handle (.accept eventId event channel token))).toList = some r' ∧
      BesideEvent id x' r' := by
  cases hstep
  have hpart : { x.world.system with keys := x.world.system.sent }.Part (fun _ => false) (keyOf id)
      (asCommandsSee r.system) := h.part.ofSame rfl rfl h.one rfl rfl
  by_cases hid : eventId = id
  · refine ⟨{ r with errands := r.errands ++ [⟨.start eventId event channel token, none⟩] }, ?_, rfl, hpart, h.others,
      ?_, h.sendings⟩
    · simp only [keepEvent, if_pos hid]
      rfl
    · rw [h.errands]
      refine Eq.symm (filter_concat_of_pos ?_)
      exact Delivery.isOf_iff.mpr hid
  · refine ⟨r, ?_, rfl, hpart, h.others, ?_, h.sendings⟩
    · simp only [keepEvent, if_neg hid]
      rfl
    · rw [h.errands]
      refine Eq.symm (filter_concat_of_neg ?_)
      exact Delivery.isOf_eq_false_iff.mpr hid

/-- A delivery of the event takes its step beside the mailroom too. -/
theorem BesideEvent.move_own (h : BesideEvent id x r) {place : Nat} {e : Errand} {m : Delivery.Move} {d : Delivery}
    {sys : System} (he : x.errands[place]? = some e) (ht : e.delivery.Transition x.world.system m d sys)
    (hid : e.delivery.eventId = id) : ∃ r', r.step (.move (placeAmong (·.delivery.isOf id) x.errands place) m) = some r' ∧
      BesideEvent id (x.moved place e m d sys) r' := by
  subst hid
  obtain ⟨sys', hown, hagree⟩ := ht.mirrored h.agree
  have hpos : e.delivery.isOf e.delivery.eventId = true := Delivery.isOf_iff.mpr rfl
  have hplace : r.errands[placeAmong (·.delivery.isOf e.delivery.eventId) x.errands place]? = some e := by
    rw [h.errands]
    exact getElem?_placeAmong he hpos
  have helapsed : r.system.elapsed = x.world.system.elapsed := h.part.elapsed
  refine ⟨⟨sys', r.errands.set (placeAmong (·.delivery.isOf e.delivery.eventId) x.errands place)
    (e.advanced d r.system.elapsed), if m = .send then r.sendings ++ [e.delivery] else r.sendings⟩, ?_, rfl, ?_,
    h.others, ?_, ?_⟩
  · simp only [Mailroom.step, hplace, hown, Option.bind_eq_bind, Option.bind_some]
    rfl
  · exact h.part_of_agree ht.sameForCommands hagree (Delivery.transition_of_step hown).sameForCommands.start
  · rw [h.errands, helapsed]
    exact (filter_set_of_pos he hpos (Delivery.isOf_iff.mpr ht.frame.1)).symm
  · show _ = (if m = .send then x.sendings ++ [e.delivery] else x.sendings).filter _
    split
    · rw [h.sendings, filter_concat_of_pos hpos]
    · exact h.sendings

/-- A step of another delivery is no matter. -/
theorem BesideEvent.move_other (h : BesideEvent id x r) {place : Nat} {e : Errand} {m : Delivery.Move} {d : Delivery}
    {sys : System} (he : x.errands[place]? = some e) (ht : e.delivery.Transition x.world.system m d sys)
    (hid : e.delivery.eventId ≠ id) : BesideEvent id (x.moved place e m d sys) r := by
  have hagree := ht.aside h.agree fun heq => hid (Delivery.keyOf_inj heq).symm
  have hneg : e.delivery.isOf id = false := Delivery.isOf_eq_false_iff.mpr hid
  refine ⟨rfl, h.part_of_agree ht.sameForCommands hagree rfl, h.others, ?_, ?_⟩
  · rw [h.errands]
    exact (filter_set_of_neg he hneg (Delivery.isOf_eq_false_iff.mpr (ht.frame.1 ▸ hid))).symm
  · show _ = (if m = .send then x.sendings ++ [e.delivery] else x.sendings).filter _
    split
    · rw [h.sendings, filter_concat_of_neg hneg]
    · exact h.sendings

/-- A delivery takes a step, in both mailrooms if it is one of the event. -/
theorem BesideEvent.move (h : BesideEvent id x r) {place : Nat} {m : Delivery.Move}
    (hstep : x.step (.handle (.move place m)) = some x') :
    ∃ r', r.run (keepEvent id x (.handle (.move place m))).toList = some r' ∧ BesideEvent id x' r' := by
  obtain ⟨e, d, sys, he, hd, rfl⟩ := step_move.mp hstep
  have ht := Delivery.transition_of_step hd
  simp only [keepEvent, he, Option.bind_eq_bind, Option.bind_some]
  split
  next hid =>
    obtain ⟨r', hr', h'⟩ := h.move_own he ht hid
    exact ⟨r', by rw [Option.toList_some, Mailroom.run, hr']; rfl, h'⟩
  next hid => exact ⟨r, rfl, h.move_other he ht hid⟩

/-- **Every step leaves the mailroom of the event beside the full one**, if no command enters with its key. -/
theorem BesideEvent.step (h : BesideEvent id x r) (hspares : a.key? ≠ some (keyOf id))
    (hstep : x.step a = some x') : ∃ r', r.run (keepEvent id x a).toList = some r' ∧ BesideEvent id x' r' := by
  cases a with
  | work b => exact h.work hspares hstep
  | handle b =>
    cases b with
    | advance nanos => exact h.advance hstep
    | accept eventId event channel token => exact h.accept hstep
    | move place m => exact h.move hstep

theorem besideEvent_opening (hone : s.sent = s.keys) (hdetached : s.detached = []) (horphans : s.orphans = [])
    (id : Uuid) : BesideEvent id (opening s) (.opening s) where
  one := hone
  part := by
    have hagree : s.keys.AgreeOn (keyOf id) s.elapsed s.sent := hone ▸ ⟨rfl, rfl⟩
    refine ⟨rfl, rfl, hagree, ?_, ?_⟩
    · rw [opening, World.opening, hdetached]
      rfl
    · rw [opening, World.opening, horphans]
      rfl
  others _ _ hp := absurd hp World.find?_opening
  errands := rfl
  sendings := rfl

/-! ## The commands with a key -/

/-- A world with the commands of one key, beside the full one. -/
structure BesideKey (key : IdempotencyKey) (s : System) (x : Shared) (v : World) : Prop where
  one : x.world.system.sent = x.world.system.keys
  beside : World.Beside key s x.world v
  others : ∀ e ∈ x.errands, keyOf e.delivery.eventId ≠ key

/-- The world is beside another system that has the same for it. -/
theorem beside_withSystem (h : World.Beside key s w v) {sys : System} (hpart : sys.Part (w.isOf key) key v.system)
    (hpayments : sys.database.payments = w.system.database.payments)
    (hwritten : sys.database.written = w.system.database.written) (hdetached : sys.detached = w.system.detached) :
    World.Beside key s { w with system := sys } v := by
  obtain ⟨rows, hlog, hlog'⟩ := h.log
  exact ⟨hpart, h.parties, ⟨rows, hlog.of_same rfl hpayments hwritten, hlog'⟩, h.drawn,
    h.full.of_same rfl rfl hwritten hdetached, h.tallied⟩

/-- What happens in the world happens beside it, as far as it is about the key. -/
theorem BesideKey.work {b : World.Action} (h : BesideKey key s x v) (hids : World.NewIds s x.world.drawn)
    (hstep : x.step (.work b) = some x') :
    ∃ v', v.run (keepKey key x (.work b)).toList = some v' ∧ BesideKey key s x' v' := by
  obtain ⟨w, hw, rfl⟩ := step_work hstep
  obtain ⟨v', hv', hbeside⟩ := h.beside.step hids hw
  exact ⟨v', hv', rfl, beside_withSystem hbeside (hbeside.part.ofSame rfl rfl rfl rfl rfl) rfl rfl rfl, h.others⟩

/-- What happens in the mailroom is no matter to the commands with the key. -/
theorem BesideKey.handle {b : Mailroom.Action} (h : BesideKey key s x v)
    (hspares : (Action.handle b).eventId?.map keyOf ≠ some key) (hstep : x.step (.handle b) = some x') :
    ∃ v', v.run (keepKey key x (.handle b)).toList = some v' ∧ BesideKey key s x' v' := by
  obtain ⟨full, hfull, rfl⟩ := step_handle hstep
  cases b with
  | advance nanos =>
    cases hfull
    obtain ⟨v', hv', hbeside⟩ := h.beside.advance nanos
    exact ⟨v', hv', rfl, beside_withSystem hbeside (hbeside.part.ofSame rfl rfl h.one rfl rfl) rfl rfl rfl, h.others⟩
  | accept id event channel token =>
    cases hfull
    refine ⟨v, rfl, rfl, beside_withSystem h.beside (h.beside.part.ofSame rfl rfl h.one rfl rfl) rfl rfl rfl, ?_⟩
    intro e he
    rcases List.mem_append.mp he with he | he
    · exact h.others e he
    · rw [List.mem_singleton.mp he]
      exact fun hkey => hspares (congrArg some hkey)
  | move place m =>
    obtain ⟨e, d, sys, he, hd, hmoved⟩ := step_move.mp hstep
    rw [← hmoved]
    have ht := Delivery.transition_of_step hd
    have hsame := ht.sameForCommands
    have hne : keyOf e.delivery.eventId ≠ key := h.others e (List.mem_of_getElem? he)
    have hagree : x.world.system.AgreeOnSent key { v.system with sent := v.system.keys } :=
      ⟨h.beside.part.elapsed, h.one ▸ h.beside.part.keys⟩
    obtain ⟨helapsed, hsent⟩ := ht.aside hagree hne.symm
    refine ⟨v, rfl, rfl, beside_withSystem h.beside ?_ hsame.payments hsame.written hsame.detached, ?_⟩
    · exact ⟨h.beside.part.start.trans hsame.start.symm, helapsed, hsent, hsame.detached ▸ h.beside.part.detached,
        hsame.orphans ▸ h.beside.part.orphans⟩
    · intro other hother
      rcases List.mem_or_eq_of_mem_set hother with hother | rfl
      · exact h.others other hother
      · show keyOf d.eventId ≠ key
        rwa [ht.frame.1]

/-- **Every step leaves the world of the key beside the full one**, if no event with the key is delivered. -/
theorem BesideKey.step (h : BesideKey key s x v) (hids : World.NewIds s x.world.drawn)
    (hspares : a.eventId?.map keyOf ≠ some key) (hstep : x.step a = some x') :
    ∃ v', v.run (keepKey key x a).toList = some v' ∧ BesideKey key s x' v' := by
  cases a with
  | work b => exact h.work hids hstep
  | handle b => exact h.handle hspares hstep

theorem besideKey_opening (hone : s.sent = s.keys) (hdetached : s.detached = []) (horphans : s.orphans = [])
    (key : IdempotencyKey) : BesideKey key s (opening s) (.opening s) :=
  ⟨hone, World.beside_opening hdetached horphans key, fun _ he => absurd he List.not_mem_nil⟩

/-! ## Runs -/

/-- Ids that were drawn stay drawn. -/
theorem drawn_prefix_of_step (hstep : x.step a = some x') : x.world.drawn <+: x'.world.drawn := by
  cases a with
  | work b =>
    obtain ⟨w, hw, rfl⟩ := step_work hstep
    have hprefix : x.world.drawn <+: w.drawn := World.drawn_prefix_of_step hw
    exact hprefix
  | handle b =>
    obtain ⟨full, -, rfl⟩ := step_handle hstep
    exact List.prefix_rfl

theorem drawn_prefix_of_run (hrun : x.run as = some x') : x.world.drawn <+: x'.world.drawn := by
  induction as generalizing x with
  | nil =>
    cases hrun
    exact List.prefix_rfl
  | cons a rest ih =>
    obtain ⟨next, hnext, hrest⟩ := Option.bind_eq_some_iff.mp hrun
    exact (drawn_prefix_of_step hnext).trans (ih hrest)

/-- **The cut-down run goes beside the full one**, if every step does. -/
theorem run_beside {β ρ : Type} (keep : Shared → Action → Option β) {go : ρ → List β → Option ρ}
    {Beside : Shared → ρ → Prop} {last : Shared} {y : ρ} (hnil : ∀ y, go y [] = some y)
    (happend : ∀ y bs cs, go y (bs ++ cs) = (go y bs).bind (go · cs))
    (hstep : ∀ x a x' y rest, a ∈ as → Beside x y → x.step a = some x' → x'.run rest = some last →
      ∃ y', go y (keep x a).toList = some y' ∧ Beside x' y')
    (h : Beside x y) (hrun : x.run as = some last) : ∃ y', go y (x.cut keep as) = some y' ∧ Beside last y' := by
  induction as generalizing x y with
  | nil =>
    cases hrun
    exact ⟨y, hnil y, h⟩
  | cons a rest ih =>
    obtain ⟨next, hnext, hrest⟩ := Option.bind_eq_some_iff.mp hrun
    obtain ⟨y₁, hy₁, h₁⟩ := hstep x a next y rest (List.mem_cons_self ..) h hnext hrest
    obtain ⟨y', hy', h'⟩ := ih (fun x b x' y more hb => hstep x b x' y more (List.mem_cons_of_mem _ hb)) h₁ hrest
    refine ⟨y', ?_, h'⟩
    rw [cut, hnext]
    dsimp only
    rw [happend, hy₁]
    exact hy'

/-- There is one store after a run. -/
theorem one_store_of_run (hone : x.world.system.sent = x.world.system.keys) (hrun : x.run as = some x') :
    x'.world.system.sent = x'.world.system.keys := by
  induction as generalizing x with
  | nil =>
    cases hrun
    exact hone
  | cons a rest ih =>
    obtain ⟨next, hnext, hrest⟩ := Option.bind_eq_some_iff.mp hrun
    exact ih (one_store_of_step hnext) hrest

/-! ## Keys that are live -/

/-- The last delivery takes a step. -/
theorem step_last {before : List Errand} {e : Errand} {m : Delivery.Move} {d : Delivery} {sys : System}
    (hx : x.errands = before ++ [e]) (hd : e.delivery.step m x.world.system = some (d, sys)) :
    x.step (.handle (.move before.length m)) = some ⟨{ x.world with system := { sys with keys := sys.sent } },
      before ++ [e.advanced d x.world.system.elapsed],
      if m = .send then x.sendings ++ [e.delivery] else x.sendings⟩ := by
  have hlast : x.errands[before.length]? = some e := by
    rw [hx]
    exact List.getElem?_concat_length
  rw [step_move.mpr ⟨e, d, sys, hlast, hd, rfl⟩, moved, hx, List.set_append_right _ _ (Nat.le_refl _), Nat.sub_self]
  rfl

/-- A delivery that finds the key live is done, and has sent nothing. -/
theorem delivery_of_held (hone : x.world.system.sent = x.world.system.keys)
    (hheld : x.world.system.keys.contains (keyOf id) x.world.system.elapsed = true) (event : PaymentSucceeded)
    (channel : Channel) (token : Uuid) :
    ∃ x', x.run (x.deliveryAsks id event channel token) = some x' ∧
      x'.errands = x.errands ++ [⟨(Delivery.start id event channel token).become (.ended .done), none⟩] ∧
      x'.sendings = x.sendings := by
  have htaken : x.world.system.sent.reserve (keyOf id) token x.world.system.elapsed =
      (.taken, x.world.system.sent) := by
    rw [hone]
    exact KeyStore.reserve_of_contains hheld token
  set d := Delivery.start id event channel token with hd
  set sys : System := { x.world.system with keys := x.world.system.sent } with hsys
  -- it begins, finds the key taken, and hears of it
  have hfirst : x.step (.handle (.accept id event channel token)) =
      some ⟨{ x.world with system := sys }, x.errands ++ [⟨d, none⟩], x.sendings⟩ := rfl
  have hreserve : d.step .reserve sys = some (d.become (.reserving (some false)), sys) := by
    simp only [Delivery.step, hd, Delivery.start, hsys, htaken]
  have hreply : (d.become (.reserving (some false))).step .reply sys =
      some (d.become (.ended .done), sys.log .notificationSentAlready) := rfl
  refine ⟨⟨{ x.world with system := { sys.log .notificationSentAlready with keys := sys.sent } },
    x.errands ++ [⟨d.become (.ended .done), none⟩], x.sendings⟩, ?_, rfl, rfl⟩
  rw [deliveryAsks, run, hfirst, Option.bind_some, run, step_last rfl hreserve, Option.bind_some, run,
    step_last rfl hreply]
  rfl

/-- A command takes a step. -/
theorem step_command {token : Uuid} {p : Party} {m : Job.Move} {progress : Progress} {sys : System}
    (hp : x.world.parties.find? token = some p)
    (ht : Job.Transition p.command token x.world.system p.progress m progress sys) :
    ∃ x', x.step (.work (.move token m)) = some x' ∧
      x'.world.parties.find? token = some (p.advanced progress x.world.system.elapsed) ∧
      x'.world.system = { sys with sent := sys.keys } := by
  have hw : x.world.step (.move token m) = some (x.world.moved token p progress sys) := by
    simp only [World.step, hp, Option.bind_eq_bind, Option.bind_some, Job.step_of_transition ht]
    rfl
  refine ⟨_, congrArg (Option.map _) hw, ?_, rfl⟩
  exact World.find?_moved_self ..

/-- A command that finds the key live is rejected. -/
theorem command_of_held {c : PaymentCommand} {token : Uuid} (hkey : c.key = keyOf id) (hnew : token ∉ x.world.tokens)
    (hheld : x.world.system.keys.contains (keyOf id) x.world.system.elapsed = true) (drawn : Uuid) :
    ∃ x', x.run (commandAsks c token drawn) = some x' ∧
      (x'.world.parties.find? token).map (·.progress) = some (.ended (.failed .duplicatePayment)) := by
  have hw : x.world.step (.enter c token) = some (x.world.entered c token) := if_neg hnew
  set x₁ : Shared := { x with world := { x.world.entered c token with
    system := { x.world.system with sent := x.world.system.keys } } } with hx₁
  have henter : x.step (.work (.enter c token)) = some x₁ := congrArg (Option.map _) hw
  have hp : x₁.world.parties.find? token = some ⟨c, .reserving none, none⟩ := by
    show (x.world.entered c token).parties.find? token = _
    rw [World.entered, Register.find?_put, if_pos rfl]
  have htaken : (x₁.world.system.keys.reserve c.key token x₁.world.system.elapsed).1 = .taken := by
    rw [KeyStore.reserve_taken_iff, hkey]
    exact hheld
  obtain ⟨x₂, hreserve, hp₂, -⟩ := step_command hp (.taken htaken)
  obtain ⟨x₃, hreply, hp₃, -⟩ := step_command hp₂ (.rejects drawn)
  refine ⟨x₃, ?_, by rw [hp₃]; rfl⟩
  rw [commandAsks, run, henter, Option.bind_some, run, hreserve, Option.bind_some, run, hreply]
  rfl

/-! ## The law -/

/-- **One store for two.** Commands and deliveries to the service that notifies customers work on one key store, in
any order and with whatever faults.

* The deliveries of an event go as they would if there were no commands, unless a command has come with the key of the
  event. Whether they send depends on nothing else.
* The commands with a key go as they would if nothing were delivered, unless an event with that key was. This holds
  where every payment's event was given a new id.
* The key of every event is one that a client may choose. While it is live, whoever has reserved it, a delivery of the
  event that asks for it is done and has sent nothing, and a command that asks for it is rejected. -/
theorem one_store_for_two (hone : s.sent = s.keys) (hdetached : s.detached = []) (horphans : s.orphans = [])
    (hrun : (opening s).run as = some x) :
    (∀ id, (∀ a ∈ as, a.key? ≠ some (keyOf id)) → ∃ r,
      (Mailroom.opening s).run ((opening s).cut (keepEvent id) as) = some r ∧
      r.errands = x.errands.filter (·.delivery.isOf id) ∧ r.sendings = x.sendings.filter (·.isOf id)) ∧
    (x.world.drawn.Nodup → (∀ id ∈ x.world.drawn, s.database.hasEvent id = false) → ∀ key,
      (∀ a ∈ as, a.eventId?.map keyOf ≠ some key) → ∃ v,
        (World.opening s).run ((opening s).cut (keepKey key) as) = some v ∧
        ∀ token, v.parties.find? token = (x.world.parties.find? token).filter (·.command.key == key)) ∧
    ∀ id, IdempotencyKey.ofString (keyOf id).text = .ok (keyOf id) ∧
      (x.world.system.keys.contains (keyOf id) x.world.system.elapsed = true →
        (∀ event channel token, ∃ x', x.run (x.deliveryAsks id event channel token) = some x' ∧
          x'.errands = x.errands ++ [⟨(Delivery.start id event channel token).become (.ended .done), none⟩] ∧
          x'.sendings = x.sendings) ∧
        ∀ c token drawn, c.key = keyOf id → token ∉ x.world.tokens → ∃ x', x.run (commandAsks c token drawn) = some x' ∧
          (x'.world.parties.find? token).map (·.progress) = some (.ended (.failed .duplicatePayment))) := by
  refine ⟨?deliveries, ?commands, ?live⟩
  case deliveries =>
    intro id hspares
    obtain ⟨r, hr, h⟩ := run_beside (keepEvent id) (fun _ => rfl) Mailroom.run_append
      (fun x a x' r rest ha h hstep _ => h.step (hspares a ha) hstep)
      (besideEvent_opening hone hdetached horphans id) hrun
    exact ⟨r, hr, h.errands, h.sendings⟩
  case commands =>
    intro hdistinct hnew key hspares
    have hids : World.NewIds s x.world.drawn := ⟨hdistinct, hnew⟩
    obtain ⟨v, hv, h⟩ := run_beside (keepKey key) (fun _ => rfl) World.run_append
      (fun y a y' v rest ha h hstep hrest => h.step
        (hids.sublist ((drawn_prefix_of_step hstep).trans (drawn_prefix_of_run hrest)).sublist) (hspares a ha) hstep)
      (besideKey_opening hone hdetached horphans key) hrun
    exact ⟨v, hv, h.beside.parties⟩
  case live =>
    have hone' : x.world.system.sent = x.world.system.keys := one_store_of_run hone hrun
    intro id
    refine ⟨Delivery.ofString_keyOf id, fun hheld => ⟨delivery_of_held hone' hheld, ?_⟩⟩
    intro c token drawn hkey hnew
    exact command_of_held hkey hnew hheld drawn

/-- A command with a key of its own, and one that has the key of the second of two events. Both events are
delivered. -/
def sharedRun : List Action :=
  [.work (.enter (sampleCommand "k") (.ofNat 1)), .handle (.accept (.ofNat 11) sampleEvent .mail (.ofNat 3)),
    .work (.move (.ofNat 1) .reserve), .work (.enter (sampleCommand (keyOf (.ofNat 12)).text) (.ofNat 2)),
    .handle (.move 0 .reserve), .work (.move (.ofNat 2) .reserve),
    .handle (.accept (.ofNat 12) sampleEvent .mail (.ofNat 4)), .handle (.move 0 .reply), .handle (.move 1 .reserve),
    .work (.move (.ofNat 1) (.reply (.ofNat 21))), .handle (.move 0 .send), .handle (.move 1 .reply)]

/-- The first event is notified without the commands too, and the first command goes on without the deliveries. The
second event is done without a notification, and so is every further delivery of it. -/
theorem one_store_for_two_of_shared :
    ∃ x, (opening sampleSystem).run sharedRun = some x ∧
      (∃ r, (Mailroom.opening sampleSystem).run [.accept (.ofNat 11) sampleEvent .mail (.ofNat 3), .move 0 .reserve,
          .move 0 .reply, .move 0 .send] = some r ∧ r.sendings = x.sendings.filter (·.isOf (.ofNat 11))) ∧
      (∃ v, (World.opening sampleSystem).run [.enter (sampleCommand "k") (.ofNat 1), .move (.ofNat 1) .reserve,
          .move (.ofNat 1) (.reply (.ofNat 21))] = some v ∧
        v.parties.find? (.ofNat 1) = (x.world.parties.find? (.ofNat 1)).filter (·.command.key == ⟨"k"⟩)) ∧
      (x.errands.map (·.delivery.progress), x.sendings.length) = ([.ended .done, .ended .done], 1) ∧
      ∃ x', x.run (x.deliveryAsks (.ofNat 12) sampleEvent .mail (.ofNat 5)) = some x' ∧ x'.sendings = x.sendings := by
  obtain ⟨x, hrun⟩ : ∃ x, (opening sampleSystem).run sharedRun = some x :=
    Option.isSome_iff_exists.mp (by decide +kernel)
  have hread : ((opening sampleSystem).run sharedRun).map (fun x => (x.world.drawn,
      x.world.system.keys.contains (keyOf (.ofNat 12)) x.world.system.elapsed, x.errands.map (·.delivery.progress),
      x.sendings.length)) = some ([.ofNat 21], true, [.ended .done, .ended .done], 1) := by decide +kernel
  rw [hrun, Option.map_some, Option.some.injEq, Prod.mk.injEq, Prod.mk.injEq] at hread
  obtain ⟨hdrawn, hlive, hends⟩ := hread
  obtain ⟨hdeliveries, hcommands, hheld⟩ := one_store_for_two rfl rfl rfl hrun
  obtain ⟨r, hr, -, hsendings⟩ := hdeliveries (.ofNat 11) (by decide +kernel)
  obtain ⟨v, hv, hparties⟩ := hcommands (by rw [hdrawn]; decide +kernel) (fun _ _ => rfl) ⟨"k"⟩ (by decide +kernel)
  obtain ⟨x', hx', -, hsendings'⟩ := ((hheld (.ofNat 12)).2 hlive).1 sampleEvent .mail (.ofNat 5)
  exact ⟨x, hrun, ⟨r, hr, hsendings⟩, ⟨v, hv, hparties _⟩, hends, x', hx', hsendings'⟩

/-- **A client's key silences a notification, and a notification turns a client away.** With the store to itself the
delivery of an event goes on to send, and a command goes on to write its payment. But a command with the key of the
event, if it is accepted first, leaves the delivery done without a notification; and if the notification is sent first,
the command is rejected. -/
theorem client_key_silences :
    let c := sampleCommand "notification:00000000-0000-0000-0000-00000000000b"
    let delivery := (opening sampleSystem).deliveryAsks (.ofNat 11) sampleEvent .mail (.ofNat 3)
    let ends (as : List Action) := ((opening sampleSystem).run as).map fun x =>
      (x.errands.map (·.delivery.progress), (x.world.parties.find? (.ofNat 1)).bind Party.outcome?,
        x.world.system.notices.length)
    (IdempotencyKey.ofString c.key.text = .ok c.key ∧ c.key = keyOf (.ofNat 11)) ∧
    (ends delivery = some ([.sending], none, 0) ∧
      ends ((World.accepted c (.ofNat 1) (.ofNat 21)).map .work ++ delivery) =
        some ([.ended .done], some (.accepted (.ofNat 21)), 0)) ∧
    ends ((World.accepted c (.ofNat 1) (.ofNat 21)).map .work) = some ([], some (.accepted (.ofNat 21)), 0) ∧
      ends (delivery ++ .handle (.move 0 .send) :: commandAsks c (.ofNat 1) (.ofNat 21)) =
        some ([.ended .done], some (.failed .duplicatePayment), 1) := by
  refine ⟨⟨?_, ?_⟩, ⟨?_, ?_⟩, ?_, ?_⟩
  · exact Delivery.ofString_keyOf (.ofNat 11)
  all_goals decide +kernel

end Shared

end PaymentRelay
