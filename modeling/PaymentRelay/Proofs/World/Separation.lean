import PaymentRelay.Proofs.Command.Isolation
import PaymentRelay.Proofs.World.Tally

/-!
# Commands with different keys

A run can be cut down to what concerns one key (`World.only`): time passes as before, the commands with the key
take the steps they took, and the system finishes what it finished for them. All other commands, pollers and
consumers are not there at all.

What is left is a run, and none of the commands with the key can tell the difference
(`other_keys_do_not_matter`): at every point they have come exactly as far, the key is live or not as it was, and
the payments and events that have come in are those which these commands wrote. The invariant is `Beside`, which
keeps the cut-down world next to the full one.
-/

namespace PaymentRelay

/-- What a command has added to the tables: a payment and the event of it. -/
structure Posting where
  author : Uuid
  payment : Payment
  event : OutboxEvent

/-- What the commit of a transaction adds to the tables. -/
def Transaction.postings (t : Transaction) (author : Uuid) : List Posting :=
  (t.payments.zip (t.events.map (·.asWritten))).map fun row => ⟨author, row.1, row.2⟩

/-- A transaction of nothing or of a command's rows adds all that it has. -/
theorem Transaction.map_postings {t : Transaction} (ht : t = .empty ∨ ∃ c id now, t = .ofCommand c id now)
    (author : Uuid) : (t.postings author).map (·.author) = .replicate t.payments.length author ∧
      (t.postings author).map (·.payment) = t.payments ∧
      (t.postings author).map (·.event) = t.events.map (·.asWritten) := by
  obtain rfl | ⟨c, id, now, rfl⟩ := ht
  · exact ⟨rfl, rfl, rfl⟩
  · exact ⟨rfl, rfl, rfl⟩

/-- All that a commit adds has the same author. -/
theorem Transaction.filter_postings (t : Transaction) (author : Uuid) (own : Uuid → Bool) :
    (t.postings author).filter (own ·.author) = if own author then t.postings author else [] := by
  have hauthor : ∀ row ∈ t.postings author, row.author = author := by
    intro row hrow
    obtain ⟨_, -, rfl⟩ := List.mem_map.mp hrow
    rfl
  split
  next hown => exact List.filter_eq_self.mpr fun row hrow => (hauthor row hrow).symm ▸ hown
  next hown => exact List.filter_eq_nil_iff.mpr fun row hrow => (hauthor row hrow).symm ▸ hown

namespace World

/-! ## A run cut down to one key -/

/-- Whether a token is that of a command with the key. -/
def isOf (w : World) (key : IdempotencyKey) (token : Uuid) : Bool :=
  (w.parties.find? token).any (·.command.key == key)

/-- An action as far as it concerns the key. Commits on their way and orphans are counted among those that
concern it. -/
def keep (w : World) (key : IdempotencyKey) : Action → Option Action
  | .advance nanos => some (.advance nanos)
  | .enter c token => if c.key = key then some (.enter c token) else none
  | .move token m => if w.isOf key token then some (.move token m) else none
  | .finishCommit place => do
    let d ← w.system.detached[place]?
    if w.isOf key d.owner then
      some (.finishCommit (placeAmong (w.isOf key ·.owner) w.system.detached place))
    else none
  | .finishOrphan place isReleased => do
    let o ← w.system.orphans[place]?
    if o.key = key then
      some (.finishOrphan (placeAmong (·.key == key) w.system.orphans place) isReleased)
    else none
  | _ => none

/-- A run as far as it concerns the key. -/
def only (w : World) (key : IdempotencyKey) : List Action → List Action
  | [] => []
  | a :: rest => match w.step a with
    | some next => (w.keep key a).toList ++ next.only key rest
    | none => []

/-- The rows that have come to the tables of `s`, the oldest first, with their authors. -/
structure Logged (s : System) (rows : List Posting) (w : World) : Prop where
  authors : w.authors = rows.map (·.author)
  payments : w.system.database.payments = s.database.payments ++ rows.map (·.payment)
  written : w.system.database.written = s.database.written ++ rows.map (·.event)

variable {s : System} {w w' v : World} {key : IdempotencyKey} {token : Uuid} {c : PaymentCommand} {a : Action}
  {as bs : List Action} {rows : List Posting} {t : Transaction} {p : Party} {progress : Progress}

/-- A beginning of the run is cut down to a beginning. -/
theorem only_append (hrun : w.run as = some w') : w.only key (as ++ bs) = w.only key as ++ w'.only key bs := by
  induction as generalizing w with
  | nil =>
    cases hrun
    rfl
  | cons a rest ih =>
    obtain ⟨next, hnext, hrest⟩ := Option.bind_eq_some_iff.mp hrun
    simp only [List.cons_append, only, hnext, ih hrest, List.append_assoc]

/-! ## Whose a token is -/

theorem isOf_moved (hp : w.parties.find? token = some p) (s : System) :
    (w.moved token p progress s).isOf key = w.isOf key := by
  funext other
  rw [isOf, isOf]
  by_cases hne : other = token
  · subst hne
    rw [find?_moved_self, hp]
    rfl
  · rw [find?_moved_of_ne w hne]

theorem isOf_entered (hne : other ≠ token) : (w.entered c token).isOf key other = w.isOf key other := by
  rw [isOf, isOf, entered, Register.find?_put, if_neg hne]

/-! ## What has come in -/

/-- A commit is logged. -/
theorem Logged.commit (h : w.Logged s rows) (ht : t = .empty ∨ ∃ c id now, t = .ofCommand c id now)
    (hdb : w'.system.database = w.system.database.commit t) {author : Uuid}
    (hauthors : w'.authors = w.authors ++
      .replicate (w'.system.database.payments.length - w.system.database.payments.length) author) :
    w'.Logged s (rows ++ t.postings author) := by
  obtain ⟨hmap, hmap', hmap''⟩ := t.map_postings ht author
  refine ⟨?_, ?_, ?_⟩
  · have hlength : w'.system.database.payments.length - w.system.database.payments.length = t.payments.length := by
      rw [hdb, Database.commit, List.length_append, Nat.add_sub_cancel_left]
    rw [hauthors, hlength, h.authors, List.map_append, hmap]
  · rw [hdb, Database.commit, h.payments, List.map_append, hmap', List.append_assoc]
  · rw [hdb, Database.written_commit, h.written, List.map_append, hmap'', List.append_assoc]

/-- Where nothing has come in, nothing is logged. -/
theorem Logged.of_same (h : w.Logged s rows) (hauthors : w'.authors = w.authors)
    (hpayments : w'.system.database.payments = w.system.database.payments)
    (hwritten : w'.system.database.written = w.system.database.written) : w'.Logged s rows :=
  ⟨hauthors.trans h.authors, hpayments.trans h.payments, hwritten.trans h.written⟩

/-- Ids of events that differ from each other and from those in the outbox. -/
structure NewIds (s : System) (ids : List Uuid) : Prop where
  distinct : ids.Nodup
  new : ∀ id ∈ ids, s.database.hasEvent id = false

theorem NewIds.sublist {ids some : List Uuid} (h : NewIds s ids) (hsome : some.Sublist ids) : NewIds s some :=
  ⟨hsome.nodup h.distinct, fun id hid => h.new id (hsome.subset hid)⟩

/-- The event a command has in hand is new to the outbox, if the ids that were drawn are. -/
theorem Tallied.new {id : Uuid} (h : w.Tallied s.database.written) (hlog : w.Logged s rows)
    (hids : NewIds s w.drawn) (hp : w.parties.find? token = some p) (hid : p.progress.eventId? = some id) :
    w.system.database.hasEvent id = false := by
  have hdrawn := h.drawn id
  rw [tally] at hdrawn
  -- the command alone makes up for one time that the id was drawn
  have hheld : 1 ≤ w.parties.total (Party.holds id) := by
    have htotal := Register.total_put hp (Party.holds id) { p with progress := .reserving none }
    rw [Party.holds_of_eventId hid, if_pos rfl, Party.holds_of_none rfl] at htotal
    omega
  have hstays : countId id s.database.written ≤ countId id w.system.database.written := by
    rw [hlog.written, countId, countId, List.countP_append]
    exact Nat.le_add_right ..
  have hin : id ∈ w.drawn := List.count_pos_iff.mp (by omega)
  have hfirst : countId id s.database.written = 0 := by
    have hnone := hids.new id hin
    rw [Database.hasEvent_eq_any, List.any_eq_false] at hnone
    exact List.countP_eq_zero.mpr hnone
  have honce := List.nodup_iff_count.mp hids.distinct id
  have hnone : countId id w.system.database.written = 0 := by omega
  rw [Database.hasEvent_eq_any, List.any_eq_false]
  exact List.countP_eq_zero.mp hnone

/-! ## Side by side -/

/-- A world beside the full one `w`, in which only commands with the key have been at work since both opened on
`s`. -/
structure Beside (key : IdempotencyKey) (s : System) (w v : World) : Prop where
  part : w.system.Part (w.isOf key) key v.system
  parties : ∀ token, v.parties.find? token = (w.parties.find? token).filter (·.command.key == key)
  log : ∃ rows, w.Logged s rows ∧ v.Logged s (rows.filter (w.isOf key ·.author))
  drawn : v.drawn.Sublist w.drawn
  full : w.Tallied s.database.written
  tallied : v.Tallied s.database.written

/-- The cut-down run has come to a world beside the one the full run has come to. -/
def GoesBeside (key : IdempotencyKey) (s : System) (w w' v : World) (a : Action) : Prop :=
  ∃ v', v.run (w.keep key a).toList = some v' ∧ Beside key s w' v'

/-- A step that is kept. -/
theorem goesBeside_of_keep {b : Action} {v' : World} (hkeep : w.keep key a = some b) (hstep : v.step b = some v')
    (h : v'.Tallied s.database.written → Beside key s w' v') (htallied : v.Tallied s.database.written) :
    GoesBeside key s w w' v a := by
  refine ⟨v', ?_, h (htallied.step hstep)⟩
  rw [hkeep]
  show (v.step b).bind _ = _
  rw [hstep]
  rfl

/-- A step that is left out. -/
theorem goesBeside_of_drop (hkeep : w.keep key a = none) (h : Beside key s w' v) : GoesBeside key s w w' v a := by
  refine ⟨v, ?_, h⟩
  rw [hkeep]
  rfl

/-- A command with the key is in both worlds. -/
theorem Beside.find?_own (h : Beside key s w v) (hp : w.parties.find? token = some p) (hkey : p.command.key = key) :
    v.parties.find? token = some p := by
  rw [h.parties, hp, Option.filter_some, if_pos (beq_iff_eq.mpr hkey)]

/-- What is in use in the cut-down world is in use in the full one. -/
theorem Beside.tokens (h : Beside key s w v) (hnew : token ∉ w.tokens) : token ∉ v.tokens := by
  obtain ⟨rows, hlog, hlog'⟩ := h.log
  have hparty : token ∉ v.parties.entries.map (·.1) := by
    intro hin
    obtain ⟨⟨_, q⟩, hmem, rfl⟩ := List.mem_map.mp hin
    have hq := (Register.find?_eq_some_iff _).mpr hmem
    rw [h.parties] at hq
    exact ne_of_new hnew (Option.filter_eq_some_iff.mp hq).1 rfl
  simp only [World.tokens, List.mem_append, not_or] at hnew ⊢
  obtain ⟨⟨⟨-, hauthors⟩, hdetached⟩, horphans⟩ := hnew
  refine ⟨⟨⟨hparty, ?_⟩, ?_⟩, ?_⟩
  · rw [hlog'.authors]
    rw [hlog.authors] at hauthors
    exact fun hin => hauthors ((List.filter_sublist.map _).subset hin)
  · rw [h.part.detached]
    exact fun hin => hdetached ((List.filter_sublist.map _).subset hin)
  · rw [h.part.orphans]
    exact fun hin => horphans ((List.filter_sublist.map _).subset hin)

/-! ## Step by step -/

theorem Beside.advance (h : Beside key s w v) (nanos : Nat) :
    GoesBeside key s w { w with system := w.system.advance nanos } v (.advance nanos) := by
  obtain ⟨rows, hlog, hlog'⟩ := h.log
  exact goesBeside_of_keep rfl rfl (fun htallied => ⟨h.part.advance nanos, h.parties,
    ⟨rows, hlog.of_same rfl rfl rfl, hlog'.of_same rfl rfl rfl⟩, h.drawn, h.full.of_same rfl rfl rfl rfl,
    htallied⟩) h.tallied

theorem Beside.enter (h : Beside key s w v) (hnew : token ∉ w.tokens) :
    GoesBeside key s w (w.entered c token) v (.enter c token) := by
  obtain ⟨rows, hlog, hlog'⟩ := h.log
  have hne : ∀ other, other ∈ w.authors ∨ other ∈ w.system.detached.map (·.owner) →
      (w.entered c token).isOf key other = w.isOf key other := by
    rintro other hin
    refine isOf_entered fun heq => hnew ?_
    subst heq
    simp only [World.tokens, List.mem_append]
    obtain hin | hin := hin
    · exact .inl (.inl (.inr hin))
    · exact .inl (.inr hin)
  have hpart : w.system.Part ((w.entered c token).isOf key) key v.system :=
    h.part.congr fun d hd => hne _ (.inr (List.mem_map_of_mem hd))
  have hrows : rows.filter (w.isOf key ·.author) = rows.filter ((w.entered c token).isOf key ·.author) :=
    List.filter_congr fun row hrow => (hne _ (.inl (hlog.authors ▸ List.mem_map_of_mem hrow))).symm
  have hno : w.parties.find? token = none :=
    Option.eq_none_iff_forall_ne_some.mpr fun q hq => ne_of_new hnew hq rfl
  by_cases hkey : c.key = key
  · refine goesBeside_of_keep (if_pos hkey) (if_neg (h.tokens hnew)) (fun htallied => ?_) h.tallied
    refine ⟨hpart, fun other => ?_, ⟨rows, hlog.of_same rfl rfl rfl, hrows ▸ hlog'.of_same rfl rfl rfl⟩, h.drawn,
      h.full.entered hnew, htallied⟩
    rw [World.entered, World.entered, Register.find?_put, Register.find?_put]
    split
    · rw [Option.filter_some, if_pos (beq_iff_eq.mpr hkey)]
    · exact h.parties other
  · refine goesBeside_of_drop (if_neg hkey) ⟨hpart, fun other => ?_, ⟨rows, hlog.of_same rfl rfl rfl, hrows ▸ hlog'⟩,
      h.drawn, h.full.entered hnew, h.tallied⟩
    rw [World.entered, Register.find?_put, h.parties]
    split
    next heq => rw [heq, hno, Option.filter_some, if_neg (fun hk => hkey (beq_iff_eq.mp hk))]; rfl
    next => rfl

/-- A command with the key takes the step in both worlds. -/
theorem Beside.move_own (h : Beside key s w v) {m : Job.Move} {sys : System}
    (hids : NewIds s w.drawn) (hp : w.parties.find? token = some p)
    (hkey : p.command.key = key) (ht : Job.Transition p.command token w.system p.progress m progress sys) :
    GoesBeside key s w (w.moved token p progress sys) v (.move token m) := by
  subst hkey
  obtain ⟨rows, hlog, hlog'⟩ := h.log
  have hown : w.isOf p.command.key token = true := by
    rw [isOf, hp, Option.any_some]
    exact beq_self_eq_true _
  have hp' := h.find?_own hp rfl
  -- no id was drawn twice, so the event in hand is new in both worlds
  obtain ⟨t, sys', hmirrored⟩ := ht.mirrored h.part hown fun e t hwriting => by
    have hin : p.progress.eventId? = some e.id := by rw [hwriting]; rfl
    rw [h.full.new hlog hids hp hin, h.tallied.new hlog' (hids.sublist h.drawn) hp' hin]
  obtain ⟨hdb, hdb'⟩ := hmirrored.tables
  have hrows : t = .empty ∨ ∃ c id now, t = .ofCommand c id now := by
    obtain hempty | ⟨id, hcommitting⟩ := hmirrored.rows
    · exact .inl hempty
    · obtain ⟨now, hrows⟩ := (hcommitting ▸ h.full.carried token p hp : Progress.Carries _ _).committing
      exact .inr ⟨_, id, now, hrows⟩
  have hstep : v.step (.move token m) = some (v.moved token p progress sys') := by
    simp only [World.step, hp', Option.bind_eq_bind, Option.bind_some, Job.step_of_transition hmirrored.transition]
    rfl
  refine goesBeside_of_keep (if_pos hown) hstep (fun htallied => ?_) h.tallied
  refine ⟨isOf_moved hp sys ▸ hmirrored.part, fun other => ?_,
    ⟨rows ++ t.postings token, hlog.commit hrows hdb rfl, ?_⟩, h.drawn.append ?_, h.full.moved hp ht, htallied⟩
  · rw [World.moved, World.moved, Register.find?_put, Register.find?_put, h.part.elapsed]
    split
    · exact (if_pos (beq_self_eq_true _)).symm
    · exact h.parties other
  · rw [isOf_moved hp sys, List.filter_append, Transaction.filter_postings, if_pos hown]
    exact hlog'.commit hrows hdb' rfl
  · exact List.Sublist.refl _

/-- A step of another command is no matter. -/
theorem Beside.move_other (h : Beside key s w v) {m : Job.Move} {sys : System}
    (hp : w.parties.find? token = some p) (hkey : p.command.key ≠ key)
    (ht : Job.Transition p.command token w.system p.progress m progress sys) :
    GoesBeside key s w (w.moved token p progress sys) v (.move token m) := by
  obtain ⟨rows, hlog, hlog'⟩ := h.log
  have hown : w.isOf key token = false := by
    rw [isOf, hp, Option.any_some]
    exact beq_eq_false_iff_ne.mpr hkey
  have hpart := ht.aside h.part hkey.symm hown
  obtain ⟨t, hrows, hdb⟩ : ∃ t, (t = .empty ∨ ∃ c id now, t = Transaction.ofCommand c id now) ∧
      sys.database = w.system.database.commit t := by
    cases ht.effect (h.full.carried token p hp) with
    | none hdb | draws _ _ _ _ hdb | detaches _ _ _ _ hdb =>
      exact ⟨.empty, .inl rfl, hdb.trans (Database.commit_empty _).symm⟩
    | commits id now _ _ hdb => exact ⟨_, .inr ⟨_, id, now, rfl⟩, hdb⟩
  refine goesBeside_of_drop (if_neg (Bool.eq_false_iff.mp hown)) ?_
  refine ⟨isOf_moved hp sys ▸ hpart, fun other => ?_, ⟨rows ++ t.postings token, hlog.commit hrows hdb rfl, ?_⟩,
    h.drawn.trans (List.sublist_append_left _ _), h.full.moved hp ht, h.tallied⟩
  · rw [h.parties, World.moved, Register.find?_put]
    split
    next heq =>
      have hno : (p.command.key == key) ≠ true := fun hk => hkey (beq_iff_eq.mp hk)
      rw [heq, hp, Option.filter_some, if_neg hno]
      exact (if_neg hno).symm
    next => rfl
  · rw [isOf_moved hp sys, List.filter_append, Transaction.filter_postings, hown, if_neg Bool.false_ne_true,
      List.append_nil]
    exact hlog'

/-- The system finishes a commit, in both worlds if it is one for the key. -/
theorem Beside.finishCommit (h : Beside key s w v) {place : Nat} {d : Detached}
    (hd : w.system.detached[place]? = some d) :
    GoesBeside key s w (w.commitAs d.owner (w.system.finishCommit place)) v (.finishCommit place) := by
  obtain ⟨rows, hlog, hlog'⟩ := h.log
  have hrows : d.transaction = .empty ∨ ∃ c id now, d.transaction = .ofCommand c id now :=
    .inr (h.full.detached d (List.mem_of_getElem? hd))
  have hdb : ∀ {sys : System} {i : Nat}, sys.detached[i]? = some d →
      (sys.finishCommit i).database = sys.database.commit d.transaction := by
    intro sys i hi
    rw [System.finishCommit, hi]
    rfl
  have hkeep : w.keep key (.finishCommit place) = if w.isOf key d.owner then
      some (.finishCommit (placeAmong (w.isOf key ·.owner) w.system.detached place)) else none := by
    simp only [keep, hd, Option.bind_eq_bind, Option.bind_some]
  cases hown : w.isOf key d.owner with
  | true =>
    rw [hown, if_pos rfl] at hkeep
    obtain ⟨hd', hpart⟩ := h.part.finishCommit hd hown
    have hstep : v.step (.finishCommit (placeAmong (w.isOf key ·.owner) w.system.detached place)) =
        some (v.commitAs d.owner
          (v.system.finishCommit (placeAmong (w.isOf key ·.owner) w.system.detached place))) := by
      simp only [World.step, hd', Option.bind_eq_bind, Option.bind_some]
      rfl
    refine goesBeside_of_keep hkeep hstep (fun htallied => ?_) h.tallied
    refine ⟨hpart, h.parties, ⟨_, hlog.commit hrows (hdb hd) rfl, ?_⟩, h.drawn, h.full.finishCommit hd, htallied⟩
    rw [List.filter_append, Transaction.filter_postings]
    show Logged s (_ ++ if w.isOf key d.owner then _ else _) _
    rw [hown, if_pos rfl]
    exact hlog'.commit hrows (hdb hd') rfl
  | false =>
    rw [hown, if_neg Bool.false_ne_true] at hkeep
    refine goesBeside_of_drop hkeep ?_
    refine ⟨h.part.finishCommit_aside hd hown, h.parties, ⟨_, hlog.commit hrows (hdb hd) rfl, ?_⟩, h.drawn,
      h.full.finishCommit hd, h.tallied⟩
    rw [List.filter_append, Transaction.filter_postings]
    show Logged s (_ ++ if w.isOf key d.owner then _ else _) _
    rw [hown, if_neg Bool.false_ne_true, List.append_nil]
    exact hlog'

/-- The system releases an orphan, in both worlds if it has the key. -/
theorem Beside.finishOrphan (h : Beside key s w v) {place : Nat} {isReleased : Bool} {o : Orphan}
    (ho : w.system.orphans[place]? = some o) :
    GoesBeside key s w { w with system := w.system.finishOrphan place isReleased } v
      (.finishOrphan place isReleased) := by
  obtain ⟨rows, hlog, hlog'⟩ := h.log
  obtain ⟨hdb, hdetached⟩ := System.finishOrphan_keeps ho isReleased
  have hlogged : ({ w with system := w.system.finishOrphan place isReleased } : World).Logged s rows :=
    hlog.of_same rfl (congrArg Database.payments hdb) (congrArg Database.written hdb)
  have hfull : ({ w with system := w.system.finishOrphan place isReleased } : World).Tallied s.database.written :=
    h.full.of_same rfl rfl (congrArg Database.written hdb) hdetached
  have hkeep : w.keep key (.finishOrphan place isReleased) = if o.key = key then
      some (.finishOrphan (placeAmong (·.key == key) w.system.orphans place) isReleased) else none := by
    simp only [keep, ho, Option.bind_eq_bind, Option.bind_some]
  by_cases hkey : o.key = key
  · rw [if_pos hkey] at hkeep
    obtain ⟨ho', hpart⟩ := h.part.finishOrphan ho hkey isReleased
    obtain ⟨hdb', -⟩ := System.finishOrphan_keeps ho' isReleased
    have hstep : v.step (.finishOrphan (placeAmong (·.key == key) w.system.orphans place) isReleased) =
        some { v with system :=
          v.system.finishOrphan (placeAmong (·.key == key) w.system.orphans place) isReleased } := by
      simp only [World.step, ho', Option.bind_eq_bind, Option.bind_some]
      rfl
    refine goesBeside_of_keep hkeep hstep (fun htallied => ?_) h.tallied
    exact ⟨hpart, h.parties, ⟨rows, hlogged,
      hlog'.of_same rfl (congrArg Database.payments hdb') (congrArg Database.written hdb')⟩, h.drawn, hfull, htallied⟩
  · rw [if_neg hkey] at hkeep
    exact goesBeside_of_drop hkeep ⟨h.part.finishOrphan_aside ho hkey isReleased, h.parties,
      ⟨rows, hlogged, hlog'⟩, h.drawn, hfull, h.tallied⟩

/-- **Every step of the full run leaves the worlds side by side.** -/
theorem Beside.step (h : Beside key s w v) (hids : NewIds s w.drawn) (hstep : w.step a = some w') :
    GoesBeside key s w w' v a := by
  cases change_of_step hstep with
  | advance nanos => exact h.advance nanos
  | enter c token hnew => exact h.enter hnew
  | move token m p progress sys hp ht =>
    by_cases hkey : p.command.key = key
    · exact h.move_own hids hp hkey ht
    · exact h.move_other hp hkey ht
  | finishCommit place d hd => exact h.finishCommit hd
  | finishOrphan place isReleased o ho => exact h.finishOrphan ho
  | elsewhere a w' ha hparties hauthors hdrawn hsystem =>
    obtain ⟨rows, hlog, hlog'⟩ := h.log
    have hkeep : w.keep key a = none := by
      cases a with
      | startTick | tick | fetch | mark | unclaim | deliver => rfl
      | _ => cases ha
    have hisOf : w'.isOf key = w.isOf key := by
      funext token
      rw [isOf, isOf, hparties]
    refine goesBeside_of_drop hkeep ⟨?_, fun token => hparties ▸ h.parties token, ⟨rows, ?_, hisOf ▸ hlog'⟩,
      hdrawn ▸ h.drawn, h.full.of_same hparties hdrawn hsystem.written hsystem.detached, h.tallied⟩
    · exact hisOf ▸ h.part.ofSame hsystem.start hsystem.elapsed hsystem.keys hsystem.detached hsystem.orphans
    · exact hlog.of_same hauthors hsystem.payments hsystem.written

/-! ## Runs -/

theorem drawn_prefix_of_step (hstep : w.step a = some w') : w.drawn <+: w'.drawn := by
  cases change_of_step hstep with
  | move => exact List.prefix_append ..
  | elsewhere a w' _ _ _ hdrawn => exact hdrawn ▸ List.prefix_rfl
  | _ => exact List.prefix_rfl

/-- Ids that were drawn stay drawn, in the order in which they were. -/
theorem drawn_prefix_of_run (hrun : w.run as = some w') : w.drawn <+: w'.drawn :=
  run_keeps (P := fun now _ => w.drawn <+: now.drawn) (fun _ _ _ _ h hstep => h.trans (drawn_prefix_of_step hstep))
    List.prefix_rfl hrun

/-- **The cut-down run goes beside the full one.** -/
theorem Beside.run (h : Beside key s w v) (hrun : w.run as = some w')
    (hids : NewIds s w'.drawn) : ∃ v', v.run (w.only key as) = some v' ∧ Beside key s w' v' := by
  induction as generalizing w v with
  | nil =>
    cases hrun
    exact ⟨v, rfl, h⟩
  | cons a rest ih =>
    obtain ⟨next, hnext, hrest⟩ := Option.bind_eq_some_iff.mp hrun
    have hdrawn : w.drawn <+: w'.drawn := (drawn_prefix_of_step hnext).trans (drawn_prefix_of_run hrest)
    obtain ⟨v₁, hrun₁, h₁⟩ := h.step (hids.sublist hdrawn.sublist) hnext
    obtain ⟨v', hrun', h'⟩ := ih h₁ hrest
    refine ⟨v', ?_, h'⟩
    simp only [only, hnext]
    rw [run_append, hrun₁]
    exact hrun'

/-- Both worlds open on the same system. -/
theorem beside_opening (hdetached : s.detached = []) (horphans : s.orphans = []) (key : IdempotencyKey) :
    Beside key s (opening s) (opening s) where
  part := ⟨rfl, rfl, ⟨rfl, rfl⟩, by rw [opening, hdetached]; rfl, by rw [opening, horphans]; rfl⟩
  parties _ := rfl
  log := ⟨[], ⟨rfl, (List.append_nil _).symm, (List.append_nil _).symm⟩,
    ⟨rfl, (List.append_nil _).symm, (List.append_nil _).symm⟩⟩
  drawn := List.Sublist.refl _
  full := tallied_opening hdetached
  tallied := tallied_opening hdetached

/-! ## What is left of a run -/

/-- Whether an action is of the passing of time or of a command with the key. -/
def concerns (w : World) (key : IdempotencyKey) : Action → Bool
  | .advance _ => true
  | .enter c _ => c.key == key
  | .move token _ => w.isOf key token
  | _ => false

/-- Whether the system finishes what was left to it. -/
def Action.isFinish : Action → Bool
  | .finishCommit _ | .finishOrphan .. => true
  | _ => false

/-- A command stays the one it is. -/
theorem isOf_step (hp : w.parties.find? token = some p) (hstep : w.step a = some w') :
    ∃ q, w'.parties.find? token = some q ∧ q.command = p.command := by
  cases change_of_step hstep with
  | enter c other hnew =>
    have hne := ne_of_new hnew hp
    exact ⟨p, by rw [entered, Register.find?_put, if_neg hne, hp], rfl⟩
  | move other m q progress sys hq ht =>
    by_cases hne : token = other
    · subst hne
      cases hp.symm.trans hq
      exact ⟨_, find?_moved_self .., rfl⟩
    · exact ⟨p, by rw [find?_moved_of_ne w hne, hp], rfl⟩
  | elsewhere a w' _ hparties => exact ⟨p, hparties ▸ hp, rfl⟩
  | _ => exact ⟨p, hp, rfl⟩

theorem isOf_run (hp : w.parties.find? token = some p) (hrun : w.run as = some w') :
    w'.isOf key token = w.isOf key token := by
  obtain ⟨q, hq, hcommand⟩ := run_keeps
    (P := fun now _ => ∃ q, now.parties.find? token = some q ∧ q.command = p.command)
    (fun now a rest next ⟨q, hq, hcommand⟩ hstep =>
      let ⟨q', hq', hcommand'⟩ := isOf_step hq hstep
      ⟨q', hq', hcommand'.trans hcommand⟩) ⟨p, hp, rfl⟩ hrun
  rw [isOf, isOf, hq, hp, Option.any_some, Option.any_some, hcommand]

/-- **Nothing but the others is left out.** Apart from what the system finishes, a run that is cut down has just
the actions that concern the key. -/
theorem filter_only (hrun : w.run as = some w') :
    (w.only key as).filter (!·.isFinish) = as.filter (w'.concerns key) := by
  induction as generalizing w with
  | nil => rfl
  | cons a rest ih =>
    obtain ⟨next, hnext, hrest⟩ := Option.bind_eq_some_iff.mp hrun
    simp only [only, hnext, List.filter_append, ih hrest]
    rw [← List.singleton_append, List.filter_append]
    congr 1
    cases a with
    | advance => rfl
    | enter c token =>
      by_cases hkey : c.key = key
      · simp only [keep, if_pos hkey, Option.toList_some, List.filter_cons, concerns, beq_iff_eq.mpr hkey]
        rfl
      · simp only [keep, if_neg hkey, Option.toList_none, List.filter_cons, concerns,
          beq_eq_false_iff_ne.mpr hkey]
        rfl
    | move token m =>
      obtain ⟨p, progress, sys, hp, -, -⟩ := moved_of_step hnext
      have hsame : w'.isOf key token = w.isOf key token := isOf_run hp hrun
      cases hown : w.isOf key token with
      | true =>
        simp only [keep, hown, if_true, Option.toList_some, List.filter_cons, concerns, hsame]
        rfl
      | false =>
        simp only [keep, hown, Bool.false_eq_true, if_false, Option.toList_none, List.filter_cons, concerns, hsame]
        rfl
    | finishCommit place =>
      obtain ⟨d, hd, -⟩ := Option.bind_eq_some_iff.mp hnext
      simp only [keep, hd, Option.bind_eq_bind, Option.bind_some]
      split <;> rfl
    | finishOrphan place isReleased =>
      obtain ⟨o, ho, -⟩ := Option.bind_eq_some_iff.mp hnext
      simp only [keep, ho, Option.bind_eq_bind, Option.bind_some]
      split <;> rfl
    | _ => rfl

/-! ## The law -/

/-- **Commands with other keys do not matter.** Take away from a run, in which every event was given a new id, all
steps of commands that have another key than one. What is left of the run can be taken, and at every point of it

* every command with the key is as far as it was, so it ends as it did if it ends;
* it is as late as it was, and the key is live, now and at any later time, exactly if it was;
* the payments and events that have come in are those of commands with the key which came in before, in the same
  order and with the same content. -/
theorem other_keys_do_not_matter (hdetached : s.detached = []) (horphans : s.orphans = [])
    (hrun : (opening s).run as = some w) (hdistinct : w.drawn.Nodup)
    (hnew : ∀ id ∈ w.drawn, s.database.hasEvent id = false) (key : IdempotencyKey) :
    ((opening s).only key as).filter (!·.isFinish) = as.filter (w.concerns key) ∧
    ∀ before, before <+: as → ∃ u v rows,
      (opening s).run before = some u ∧
      (opening s).only key before <+: (opening s).only key as ∧
      (opening s).run ((opening s).only key before) = some v ∧
      (∀ token, v.parties.find? token = (u.parties.find? token).filter (·.command.key == key)) ∧
      v.system.elapsed = u.system.elapsed ∧
      (∀ later, u.system.elapsed ≤ later → v.system.keys.contains key later = u.system.keys.contains key later) ∧
      u.Logged s rows ∧ v.Logged s (rows.filter (u.isOf key ·.author)) := by
  refine ⟨filter_only hrun, fun before hbefore => ?_⟩
  obtain ⟨after, rfl⟩ := hbefore
  rw [run_append] at hrun
  obtain ⟨u, hu, hrest⟩ := Option.bind_eq_some_iff.mp hrun
  have hids : NewIds s w.drawn := ⟨hdistinct, hnew⟩
  obtain ⟨v, hv, h⟩ :=
    (beside_opening hdetached horphans key).run hu (hids.sublist (drawn_prefix_of_run hrest).sublist)
  obtain ⟨rows, hlog, hlog'⟩ := h.log
  refine ⟨u, v, rows, hu, ?_, hv, h.parties, h.part.elapsed, fun later hl => h.part.keys.contains hl, hlog, hlog'⟩
  rw [only_append hu]
  exact List.prefix_append ..

/-- Two commands with one key and one with another: the second is told that the key is taken, and the commit of the
third goes on by itself. -/
def mixedRun : List Action :=
  [.enter (sampleCommand "k") (.ofNat 1), .enter (sampleCommand "l") (.ofNat 3), .move (.ofNat 3) .reserve,
    .move (.ofNat 1) .reserve, .move (.ofNat 3) (.reply (.ofNat 13)), .move (.ofNat 1) (.reply (.ofNat 11)),
    .move (.ofNat 3) .writePayment, .move (.ofNat 3) .writeEvent, .move (.ofNat 3) .detach,
    .move (.ofNat 1) .writePayment, .enter (sampleCommand "k") (.ofNat 2), .move (.ofNat 2) .reserve,
    .move (.ofNat 1) .writeEvent, .move (.ofNat 1) .detach, .move (.ofNat 2) (.reply (.ofNat 12)),
    .finishCommit 1, .finishCommit 0, .move (.ofNat 1) .acknowledge]

/-- Without the third command, the first is accepted and the second turned away as before, and the commit of the
first is the only one that was on its way. -/
theorem other_keys_do_not_matter_of_mixed :
    ∃ v, (opening sampleSystem).only ⟨"k"⟩ mixedRun =
        [.enter (sampleCommand "k") (.ofNat 1), .move (.ofNat 1) .reserve, .move (.ofNat 1) (.reply (.ofNat 11)),
          .move (.ofNat 1) .writePayment, .enter (sampleCommand "k") (.ofNat 2), .move (.ofNat 2) .reserve,
          .move (.ofNat 1) .writeEvent, .move (.ofNat 1) .detach, .move (.ofNat 2) (.reply (.ofNat 12)),
          .finishCommit 0, .move (.ofNat 1) .acknowledge] ∧
      (opening sampleSystem).run ((opening sampleSystem).only ⟨"k"⟩ mixedRun) = some v ∧
      (v.parties.find? (.ofNat 1)).map Party.outcome? = some (some (.accepted (.ofNat 11))) ∧
      (v.parties.find? (.ofNat 2)).map Party.outcome? = some (some (.failed .duplicatePayment)) ∧
      (v.parties.find? (.ofNat 3)).map Party.outcome? = none ∧ v.system.keys.contains ⟨"k"⟩ 0 = true ∧
      v.system.database.payments.length = 1 := by
  obtain ⟨w, hrun⟩ : ∃ w, (opening sampleSystem).run mixedRun = some w :=
    Option.isSome_iff_exists.mp (by decide +kernel)
  have hdrawn : ((opening sampleSystem).run mixedRun).map (·.drawn) = some [.ofNat 13, .ofNat 11] := by
    decide +kernel
  obtain ⟨-, hall⟩ := other_keys_do_not_matter rfl rfl hrun (by rw [read_run hrun hdrawn]; decide +kernel)
    (fun _ _ => rfl) ⟨"k"⟩
  obtain ⟨u, v, rows, hu, -, hv, hparties, -, hlive, hlog, hlog'⟩ := hall mixedRun List.prefix_rfl
  have houtcomes : ((opening sampleSystem).run mixedRun).map (fun w => [1, 2, 3].map fun token =>
      ((w.parties.find? (.ofNat token)).filter (·.command.key == ⟨"k"⟩)).map Party.outcome?) =
        some [some (some (.accepted (.ofNat 11))), some (some (.failed .duplicatePayment)), none] := by
    decide +kernel
  have hkey : ((opening sampleSystem).run mixedRun).map (fun w =>
      (w.system.elapsed, w.system.keys.contains ⟨"k"⟩ 0, (w.authors.filter (w.isOf ⟨"k"⟩)).length)) =
        some (0, true, 1) := by decide +kernel
  have hends := read_run hu houtcomes
  simp only [List.map_cons, List.map_nil, List.cons.injEq, and_true, ← hparties] at hends
  obtain ⟨hfirst, hsecond, hthird⟩ := hends
  have hread := read_run hu hkey
  simp only [Prod.mk.injEq] at hread
  obtain ⟨hnow, hcontains, hlength⟩ := hread
  refine ⟨v, rfl, hv, hfirst, hsecond, hthird, (hlive 0 (Nat.le_of_eq hnow)).trans hcontains, ?_⟩
  rw [hlog.authors, List.filter_map, List.length_map] at hlength
  rw [hlog'.payments, List.length_append, List.length_map]
  exact (Nat.zero_add _).trans hlength

end World

end PaymentRelay
