import Mathlib.Data.List.Basic
import Mathlib.Data.List.Nodup
import Mathlib.Data.List.Perm.Basic
import PaymentRelay.Store.Database

/-!
# What pollers do to outbox rows

A mark and the end of a claim change the first row that fits (`updateFirst`). A fetch changes the rows it
claims and no other: up to order the outbox falls into the rows that are claimed and the rest, and after the
fetch it falls into the claimed rows, locked, and the same rest (`fetch_perm`). So whatever is counted of the
rows, a call changes the count by what it changes in the rows that it touches.

What was written to the outbox (`Database.written`) is changed by none of them, and grows with every commit.
-/

namespace PaymentRelay

/-- An event as it was written to the outbox, whether or not it was sent since. -/
def OutboxEvent.asWritten (e : OutboxEvent) : OutboxEvent :=
  { e with publishedAt := none }

namespace Database

variable {db after : Database} {rows : List OutboxRow} {r : OutboxRow} {p q : OutboxRow → Bool}
  {f : OutboxRow → OutboxRow}

/-! ## One row -/

/-- Changing the first row that fits takes the old row out of every count and puts the new one in. -/
theorem countP_updateFirst (h : rows.find? q = some r) (p : OutboxRow → Bool) :
    (updateFirst q f rows).countP p + (p r).toNat = rows.countP p + (p (f r)).toNat := by
  induction rows with
  | nil => cases h
  | cons first rest ih =>
    by_cases hq : q first = true
    · rw [List.find?_cons_of_pos hq] at h
      cases h
      rw [updateFirst, if_pos hq, List.countP_cons, List.countP_cons]
      cases p r <;> cases p (f r) <;> simp
    · rw [List.find?_cons_of_neg hq] at h
      have hcount := ih h
      rw [updateFirst, if_neg hq, List.countP_cons, List.countP_cons]
      omega

/-- Changing the first row that fits keeps what the change keeps of a row. -/
theorem map_updateFirst {g : OutboxRow → α} {p : OutboxRow → Bool} {f : OutboxRow → OutboxRow}
    (h : ∀ r, g (f r) = g r) (rows : List OutboxRow) :
    (updateFirst p f rows).map g = rows.map g := by
  induction rows with
  | nil => rfl
  | cons r rest ih =>
    unfold updateFirst
    split
    · rw [List.map_cons, List.map_cons, h]
    · rw [List.map_cons, List.map_cons, ih]

/-- Where at most one row fits, changing the first that does is changing all that do. -/
theorem updateFirst_eq_map (h : rows.Pairwise fun a b => p a = true → p b = false) :
    updateFirst p f rows = rows.map fun r => if p r then f r else r := by
  induction rows with
  | nil => rfl
  | cons first rest ih =>
    obtain ⟨hfirst, hrest⟩ := List.pairwise_cons.mp h
    unfold updateFirst
    split
    next hp =>
      have hothers : rest.map (fun r => if p r then f r else r) = rest.map id :=
        List.map_congr_left fun r hr => if_neg (Bool.eq_false_iff.mp (hfirst r hr hp))
      rw [List.map_cons, if_pos hp, hothers, List.map_id]
    next hp => rw [List.map_cons, if_neg hp, ih hrest]

/-- Where no row fits, nothing is changed. -/
theorem updateFirst_of_none (h : ∀ r ∈ rows, p r = false) : updateFirst p f rows = rows := by
  induction rows with
  | nil => rfl
  | cons first rest ih =>
    obtain ⟨hfirst, hrest⟩ := List.forall_mem_cons.mp h
    rw [updateFirst, if_neg (Bool.eq_false_iff.mp hfirst), ih hrest]

/-- A row of the changed outbox was there before, or is the change of one that fits. -/
theorem mem_updateFirst (h : r ∈ updateFirst q f rows) :
    r ∈ rows ∨ ∃ old ∈ rows, q old = true ∧ r = f old := by
  induction rows with
  | nil => cases h
  | cons first rest ih =>
    unfold updateFirst at h
    split at h
    next hq =>
      rcases List.mem_cons.mp h with rfl | h
      · exact .inr ⟨first, List.mem_cons_self, hq, rfl⟩
      · exact .inl (List.mem_cons_of_mem _ h)
    next =>
      rcases List.mem_cons.mp h with rfl | h
      · exact .inl List.mem_cons_self
      · rcases ih h with hold | ⟨old, hold, hq, rfl⟩
        · exact .inl (List.mem_cons_of_mem _ hold)
        · exact .inr ⟨old, List.mem_cons_of_mem _ hold, hq, rfl⟩

/-- The only row that fits is the first one. -/
theorem find?_of_unique (hr : r ∈ rows) (hq : q r = true) (h : ∀ other ∈ rows, q other = true → other = r) :
    rows.find? q = some r := by
  cases hfind : rows.find? q with
  | none => exact absurd hq (List.find?_eq_none.mp hfind r hr)
  | some other => rw [h other (List.mem_of_find?_eq_some hfind) (List.find?_some hfind)]

/-! ## A batch -/

/-- **A fetch locks what it claims.** The events that are handed out are those of the claimed rows, all of
which may be claimed; and if none is claimed, none may be, unless none was asked for. -/
theorem fetch_perm {limit : Nat} {now : Instant} {events : List OutboxEvent}
    (h : db.fetch limit now = some (events, after)) :
    ∃ (last : Instant) (claimed rest : List OutboxRow),
      events = claimed.map (·.event) ∧ db.outbox.Perm (claimed ++ rest) ∧
      after.outbox.Perm (claimed.map (·.lock last) ++ rest) ∧
      (∀ r ∈ claimed, r.isClaimable now = true) ∧
      (claimed = [] → 0 < limit → ∀ r ∈ db.outbox, r.isClaimable now = false) := by
  obtain ⟨last, -, hafter⟩ := Option.map_eq_some_iff.mp h
  obtain ⟨rfl, rfl⟩ := Prod.mk.inj hafter
  set taken := (db.claimable now).take limit with htaken
  set left := (db.claimable now).drop limit ++
    db.outbox.zipIdx.filter fun r => !r.1.isClaimable now with hleft
  -- the rows with their places fall into those that are taken and those that are left
  have hplaced : db.outbox.zipIdx.Perm (taken ++ left) := by
    rw [hleft, ← List.append_assoc, htaken, List.take_append_drop]
    refine (List.filter_append_perm (fun r => r.1.isClaimable now) db.outbox.zipIdx).symm.trans ?_
    exact (List.mergeSort_perm _ _).symm.append_right _
  have hplaces : ((taken ++ left).map (·.2)).Nodup := by
    refine (hplaced.map _).nodup_iff.mp ?_
    rw [List.zipIdx_map_snd]
    exact List.nodup_range'
  have hrows : db.outbox.Perm (taken.map (·.1) ++ left.map (·.1)) := by
    have hmap := hplaced.map Prod.fst
    rwa [List.zipIdx_map_fst, List.map_append] at hmap
  refine ⟨last, taken.map (·.1), left.map (·.1), ?_, hrows, ?_, ?_, ?_⟩
  · rw [List.map_map]
    rfl
  · rw [List.mapIdx_eq_zipIdx_map]
    refine (hplaced.map _).trans (List.Perm.of_eq ?_)
    rw [List.map_append, List.map_map]
    congr 1
    · refine List.map_congr_left fun r hr => ?_
      have hin : (taken.any fun other => other.2 == r.2) = true :=
        List.any_eq_true.mpr ⟨r, hr, beq_self_eq_true _⟩
      exact if_pos hin
    · refine List.map_congr_left fun r hr => if_neg fun hany => ?_
      obtain ⟨other, hother, hplace⟩ := List.any_eq_true.mp hany
      rw [List.map_append, List.nodup_append] at hplaces
      exact hplaces.2.2 other.2 (List.mem_map_of_mem hother) r.2 (List.mem_map_of_mem hr)
        (beq_iff_eq.mp hplace)
  · intro r hr
    obtain ⟨placed, hplaced, rfl⟩ := List.mem_map.mp hr
    exact (List.mem_filter.mp (List.mem_mergeSort.mp (List.mem_of_mem_take hplaced))).2
  · intro hnone hlimit r hr
    have hempty : db.claimable now = [] := by
      rcases List.take_eq_nil_iff.mp (List.map_eq_nil_iff.mp hnone) with hzero | hempty
      · exact absurd hzero (Nat.ne_of_gt hlimit)
      · exact hempty
    obtain ⟨i, hi⟩ := List.mem_iff_getElem?.mp hr
    refine Bool.eq_false_iff.mpr fun hclaimable => ?_
    have hin : (r, i) ∈ db.claimable now :=
      List.mem_mergeSort.mpr
        (List.mem_filter.mpr ⟨List.mem_zipIdx_iff_getElem?.mpr hi, hclaimable⟩)
    rw [hempty] at hin
    cases hin

/-- Where ids are distinct, a fetch locks the rows of the events that it hands out, where they stand. Their claims
last as long as the lease. -/
theorem outbox_fetch {limit : Nat} {now : Instant} {events : List OutboxEvent}
    (hids : (db.outbox.map (·.event.id)).Nodup) (h : db.fetch limit now = some (events, after)) :
    ∃ last, now.add? db.lease = some last ∧ after.outbox = db.outbox.map fun r =>
      if r.event.id ∈ events.map (·.id) then r.lock last else r := by
  obtain ⟨last, hlast, hafter⟩ := Option.map_eq_some_iff.mp h
  obtain ⟨rfl, rfl⟩ := Prod.mk.inj hafter
  refine ⟨last, hlast, ?_⟩
  set claimed := (db.claimable now).take limit with hclaimed
  have hplace : ∀ r ∈ claimed, db.outbox[r.2]? = some r.1 := fun r hr =>
    List.mem_zipIdx_iff_getElem?.mp (List.mem_filter.mp (List.mem_mergeSort.mp (List.mem_of_mem_take hr))).1
  apply List.ext_getElem?
  intro i
  rw [List.getElem?_mapIdx, List.getElem?_map]
  cases hrow : db.outbox[i]? with
  | none => rfl
  | some r =>
    have hiff : (claimed.any fun other => other.2 == i) = true ↔
        r.event.id ∈ (claimed.map (·.1.event)).map (·.id) := by
      rw [List.any_eq_true, List.map_map, List.mem_map]
      constructor
      · rintro ⟨other, hother, hi⟩
        have hsame := hplace other hother
        rw [beq_iff_eq.mp hi, hrow] at hsame
        exact ⟨other, hother, by rw [Option.some.inj hsame]; rfl⟩
      · rintro ⟨other, hother, hid⟩
        refine ⟨other, hother, beq_iff_eq.mpr ?_⟩
        -- two places with one id are one place
        have hlt := (List.getElem?_eq_some_iff.mp (hplace other hother)).1
        refine (List.getElem?_inj (by rwa [List.length_map]) hids).mp ?_
        rw [List.getElem?_map, List.getElem?_map, hplace other hother, hrow]
        exact congrArg some hid
    rw [Option.map_some, Option.map_some]
    exact congrArg some (if_congr hiff rfl rfl)

/-- A fetch changes no event. -/
theorem event_mem_of_fetch {limit : Nat} {now : Instant} {events : List OutboxEvent}
    (h : db.fetch limit now = some (events, after)) (hr : r ∈ after.outbox) :
    ∃ old ∈ db.outbox, r.event = old.event := by
  obtain ⟨last, claimed, rest, -, hbefore, hafter, -, -⟩ := fetch_perm h
  rcases List.mem_append.mp (hafter.mem_iff.mp hr) with hr | hr
  · obtain ⟨old, hold, rfl⟩ := List.mem_map.mp hr
    exact ⟨old, hbefore.mem_iff.mpr (List.mem_append_left _ hold), rfl⟩
  · exact ⟨r, hbefore.mem_iff.mpr (List.mem_append_right _ hr), rfl⟩

/-- A fetch that asks for enough hands out all that may be claimed. -/
theorem mem_fetch_of_claimable {limit : Nat} {now : Instant} {events : List OutboxEvent}
    (h : db.fetch limit now = some (events, after)) (hlimit : db.outbox.length ≤ limit) (hr : r ∈ db.outbox)
    (hclaimable : r.isClaimable now = true) : r.event ∈ events := by
  obtain ⟨last, -, hafter⟩ := Option.map_eq_some_iff.mp h
  obtain ⟨rfl, -⟩ := Prod.mk.inj hafter
  have hfew : (db.claimable now).length ≤ limit := by
    rw [claimable, List.length_mergeSort]
    exact Nat.le_trans (List.length_filter_le ..) (by rwa [List.length_zipIdx])
  obtain ⟨i, hi⟩ := List.mem_iff_getElem?.mp hr
  rw [List.take_of_length_le hfew]
  exact List.mem_map.mpr ⟨(r, i), List.mem_mergeSort.mpr (List.mem_filter.mpr
    ⟨List.mem_zipIdx_iff_getElem?.mpr hi, hclaimable⟩), rfl⟩

/-! ## Claims, counted by id -/

/-- How many rows of an id are claimed. -/
def countLocked (db : Database) (id : Uuid) : Nat :=
  db.outbox.countP fun r => r.event.id == id && r.lockedUntil.isSome

/-- How many rows of an id are marked published. -/
def countPublished (db : Database) (id : Uuid) : Nat :=
  db.outbox.countP fun r => r.event.id == id && !r.event.isPending

/-- Only events that are still to be sent are claimed. -/
def ClaimsPending (db : Database) : Prop :=
  ∀ r ∈ db.outbox, r.lockedUntil.isSome = true → r.event.isPending = true

/-- Where ids are distinct, no row but one counts for its id. -/
theorem countP_row (hids : (db.outbox.map (·.event.id)).Nodup) (hr : r ∈ db.outbox) (p : OutboxRow → Bool) :
    (db.outbox.countP fun row => row.event.id == r.event.id && p row) = (p r).toNat := by
  have hsame : ∀ row ∈ db.outbox, row.event.id = r.event.id → row = r :=
    fun row hrow => List.inj_on_of_nodup_map hids hrow hr
  cases hp : p r with
  | false =>
    refine List.countP_eq_zero.mpr fun row hrow h => ?_
    obtain ⟨hid, hrow'⟩ := Bool.and_eq_true_iff.mp h
    rw [hsame row hrow (beq_iff_eq.mp hid), hp] at hrow'
    cases hrow'
  | true =>
    have hone := List.nodup_iff_count.mp hids r.event.id
    rw [List.count, List.countP_map] at hone
    apply Nat.le_antisymm
    · refine Nat.le_trans (List.countP_mono_left fun row _ h => ?_) hone
      exact (Bool.and_eq_true_iff.mp h).1
    · refine List.countP_pos_iff.mpr ⟨r, hr, ?_⟩
      rw [beq_self_eq_true, hp, Bool.and_self]

/-- The row of an id that is claimed is the only one of that id. -/
theorem exists_locked (hids : (db.outbox.map (·.event.id)).Nodup) {id : Uuid} (h : 0 < db.countLocked id) :
    ∃ r ∈ db.outbox, r.event.id = id ∧ r.lockedUntil.isSome = true ∧
      ∀ other ∈ db.outbox, other.event.id = id → other = r := by
  obtain ⟨r, hr, hrow⟩ := List.countP_pos_iff.mp h
  obtain ⟨hid, hlocked⟩ := Bool.and_eq_true_iff.mp hrow
  refine ⟨r, hr, beq_iff_eq.mp hid, hlocked, fun other hother hsame => ?_⟩
  exact List.inj_on_of_nodup_map hids hother hr (hsame.trans (beq_iff_eq.mp hid).symm)

/-- The one row of an id is claimed, or published, or neither. -/
theorem countLocked_add_countPublished_le (hids : (db.outbox.map (·.event.id)).Nodup)
    (hpending : db.ClaimsPending) (hr : r ∈ db.outbox) :
    db.countLocked r.event.id + db.countPublished r.event.id ≤ 1 := by
  rw [countLocked, countPublished, countP_row hids hr, countP_row hids hr]
  cases hlocked : r.lockedUntil.isSome with
  | false => exact Nat.le_trans (Nat.le_of_eq (Nat.zero_add _)) (Bool.toNat_le _)
  | true =>
    rw [hpending r hr hlocked]
    exact Nat.le_refl 1

/-- Where no claim is over, a fetch claims rows that nobody has claimed. -/
theorem count_fetch {limit : Nat} {now : Instant} {events : List OutboxEvent}
    (h : db.fetch limit now = some (events, after))
    (hclaims : ∀ r ∈ db.outbox, ∀ last, r.lockedUntil = some last → ¬ last < now) (id : Uuid) :
    after.countLocked id = db.countLocked id + events.countP (·.id == id) ∧
      after.countPublished id = db.countPublished id := by
  obtain ⟨last, claimed, rest, rfl, hbefore, hafter, hclaimable, -⟩ := fetch_perm h
  have hfree : ∀ r ∈ claimed, r.lockedUntil = none := by
    intro r hr
    cases hlocked : r.lockedUntil with
    | none => rfl
    | some last =>
      have hover := hclaims r (hbefore.mem_iff.mpr (List.mem_append_left _ hr)) last hlocked
      have hmay := hclaimable r hr
      simp only [OutboxRow.isClaimable, hlocked, Bool.and_eq_true, decide_eq_true_eq] at hmay
      exact absurd hmay.2 hover
  have hnone : (claimed.countP fun r => r.event.id == id && r.lockedUntil.isSome) = 0 := by
    refine List.countP_eq_zero.mpr fun r hr => ?_
    simp only [hfree r hr, Option.isSome_none, Bool.and_false, Bool.false_eq_true, not_false_iff]
  constructor
  · rw [countLocked, countLocked, hbefore.countP_eq, hafter.countP_eq, List.countP_append, List.countP_append,
      List.countP_map, List.countP_map, hnone, Nat.zero_add, Nat.add_comm]
    congr 1
    refine List.countP_congr fun r _ => ?_
    simp only [Function.comp_apply, OutboxRow.lock, Option.isSome_some, Bool.and_true]
  · rw [countPublished, countPublished, hbefore.countP_eq, hafter.countP_eq, List.countP_append,
      List.countP_append, List.countP_map]
    rfl

theorem ClaimsPending.fetch (hpending : db.ClaimsPending) {limit : Nat} {now : Instant}
    {events : List OutboxEvent} (h : db.fetch limit now = some (events, after)) : after.ClaimsPending := by
  obtain ⟨last, claimed, rest, -, hbefore, hafter, hclaimable, -⟩ := fetch_perm h
  intro r hr hlocked
  rcases List.mem_append.mp (hafter.mem_iff.mp hr) with hr | hr
  · obtain ⟨old, hold, rfl⟩ := List.mem_map.mp hr
    exact (Bool.and_eq_true_iff.mp (hclaimable old hold)).1
  · exact hpending r (hbefore.mem_iff.mpr (List.mem_append_right _ hr)) hlocked

/-- A mark ends the claim of an event and makes it published. -/
theorem count_markPublished (hids : (db.outbox.map (·.event.id)).Nodup) (hpending : db.ClaimsPending)
    {id : Uuid} (h : 0 < db.countLocked id) (now : Instant) (other : Uuid) :
    (db.markPublished id now).countLocked other + (id == other).toNat = db.countLocked other ∧
      (db.markPublished id now).countPublished other = db.countPublished other + (id == other).toNat := by
  obtain ⟨r, hr, rfl, hlocked, hunique⟩ := exists_locked hids h
  have hfind : db.outbox.find? (·.event.id == r.event.id) = some r :=
    find?_of_unique hr (beq_self_eq_true _) fun row hrow hsame => hunique row hrow (beq_iff_eq.mp hsame)
  have hcount := countP_updateFirst hfind (f := (·.publish now))
  constructor
  · have hclaims := hcount fun r => r.event.id == other && r.lockedUntil.isSome
    simp only [OutboxRow.publish, hlocked, Bool.and_true, Option.isSome_none, Bool.and_false,
      Bool.toNat_false, Nat.add_zero] at hclaims
    exact hclaims
  · have hmarks := hcount fun r => r.event.id == other && !r.event.isPending
    have hmarked : (r.publish now).event.isPending = false := rfl
    simp only [hpending r hr hlocked, hmarked, Bool.not_true, Bool.not_false, Bool.and_true, Bool.and_false,
      Bool.toNat_false, Nat.add_zero] at hmarks
    exact hmarks

theorem ClaimsPending.markPublished (hpending : db.ClaimsPending) (id : Uuid) (now : Instant) :
    (db.markPublished id now).ClaimsPending := by
  intro r hr hlocked
  rcases mem_updateFirst hr with hold | ⟨old, -, -, rfl⟩
  · exact hpending r hold hlocked
  · cases hlocked

/-- The end of a claim leaves an event pending and free. -/
theorem count_releaseClaim (hids : (db.outbox.map (·.event.id)).Nodup) (hpending : db.ClaimsPending)
    {id : Uuid} (h : 0 < db.countLocked id) (other : Uuid) :
    (db.releaseClaim id).countLocked other + (id == other).toNat = db.countLocked other ∧
      (db.releaseClaim id).countPublished other = db.countPublished other := by
  obtain ⟨r, hr, rfl, hlocked, hunique⟩ := exists_locked hids h
  have hfind : db.outbox.find? (fun row => row.event.id == r.event.id && row.event.isPending) = some r := by
    refine find?_of_unique hr ?_ fun row hrow hsame => hunique row hrow ?_
    · rw [hpending r hr hlocked, beq_self_eq_true, Bool.and_true]
    · exact beq_iff_eq.mp (Bool.and_eq_true_iff.mp hsame).1
  have hcount := countP_updateFirst hfind (f := (·.unlock))
  constructor
  · have hclaims := hcount fun r => r.event.id == other && r.lockedUntil.isSome
    simp only [OutboxRow.unlock, hlocked, Bool.and_true, Option.isSome_none, Bool.and_false,
      Bool.toNat_false, Nat.add_zero] at hclaims
    exact hclaims
  · exact Nat.add_right_cancel (hcount fun r => r.event.id == other && !r.event.isPending)

theorem ClaimsPending.releaseClaim (hpending : db.ClaimsPending) (id : Uuid) :
    (db.releaseClaim id).ClaimsPending := by
  intro r hr hlocked
  rcases mem_updateFirst hr with hold | ⟨old, -, -, rfl⟩
  · exact hpending r hold hlocked
  · cases hlocked

/-- Rows come in unclaimed. -/
theorem countLocked_commit (db : Database) (t : Transaction) (id : Uuid) :
    (db.commit t).countLocked id = db.countLocked id := by
  rw [countLocked, countLocked, commit, List.countP_append, List.countP_map]
  refine Nat.add_eq_left.mpr (List.countP_eq_zero.mpr fun e _ => ?_)
  simp only [Function.comp_apply, OutboxRow.ofEvent, Option.isSome_none, Bool.and_false, Bool.false_eq_true,
    not_false_iff]

theorem countPublished_commit (db : Database) {t : Transaction} (ht : ∀ e ∈ t.events, e.isPending = true)
    (id : Uuid) : (db.commit t).countPublished id = db.countPublished id := by
  rw [countPublished, countPublished, commit, List.countP_append, List.countP_map]
  refine Nat.add_eq_left.mpr (List.countP_eq_zero.mpr fun e he => ?_)
  simp only [Function.comp_apply, OutboxRow.ofEvent, ht e he, Bool.not_true, Bool.and_false, Bool.false_eq_true,
    not_false_iff]

theorem ClaimsPending.commit (hpending : db.ClaimsPending) (t : Transaction) : (db.commit t).ClaimsPending := by
  intro r hr hlocked
  rcases List.mem_append.mp hr with hr | hr
  · exact hpending r hr hlocked
  · obtain ⟨e, -, rfl⟩ := List.mem_map.mp hr
    cases hlocked

/-! ## Nothing left to claim -/

/-- Every event that is still to be sent is claimed. -/
def AllClaimed (db : Database) : Prop :=
  ∀ r ∈ db.outbox, r.event.isPending = true → r.lockedUntil.isSome = true

theorem AllClaimed.fetch (hall : db.AllClaimed) {limit : Nat} {now : Instant} {events : List OutboxEvent}
    (h : db.fetch limit now = some (events, after)) : after.AllClaimed := by
  obtain ⟨last, claimed, rest, -, hbefore, hafter, -, -⟩ := fetch_perm h
  intro r hr hpending
  rcases List.mem_append.mp (hafter.mem_iff.mp hr) with hr | hr
  · obtain ⟨old, -, rfl⟩ := List.mem_map.mp hr
    rfl
  · exact hall r (hbefore.mem_iff.mpr (List.mem_append_right _ hr)) hpending

/-- Whoever finds nothing to claim has found everything claimed. -/
theorem allClaimed_of_fetch_nil {limit : Nat} {now : Instant} (h : db.fetch limit now = some ([], after))
    (hlimit : 0 < limit) : after.AllClaimed := by
  obtain ⟨last, claimed, rest, hevents, hbefore, hafter, -, hnone⟩ := fetch_perm h
  have hclaimed : claimed = [] := List.map_eq_nil_iff.mp hevents.symm
  intro r hr hpending
  have hrow : r ∈ db.outbox := by
    rw [hclaimed, List.map_nil] at hafter
    rw [hclaimed] at hbefore
    exact hbefore.mem_iff.mpr (hafter.mem_iff.mp hr)
  have hclaimable := hnone hclaimed hlimit r hrow
  cases hlocked : r.lockedUntil with
  | none =>
    simp only [OutboxRow.isClaimable, hpending, hlocked, Bool.and_self, Bool.true_eq_false] at hclaimable
  | some last => rfl

theorem AllClaimed.markPublished (hall : db.AllClaimed) (id : Uuid) (now : Instant) :
    (db.markPublished id now).AllClaimed := by
  intro r hr hpending
  rcases mem_updateFirst hr with hold | ⟨old, -, -, rfl⟩
  · exact hall r hold hpending
  · cases hpending

/-! ## What pollers leave alone -/

/-- The events of the outbox as they were written. -/
def written (db : Database) : List OutboxEvent :=
  db.outbox.map (·.event.asWritten)

/-- The outbox has an event exactly if one with its id was written. -/
theorem hasEvent_eq_any (db : Database) (id : Uuid) :
    db.hasEvent id = db.written.any fun e => e.id == id := by
  rw [written, List.any_map]
  rfl

/-- A commit appends the events of the transaction. -/
theorem written_commit (db : Database) (t : Transaction) :
    (db.commit t).written = db.written ++ t.events.map (·.asWritten) := by
  simp only [written, commit, List.map_append, List.map_map]
  rfl

/-- Marking an event published writes nothing. -/
theorem written_markPublished (db : Database) (id : Uuid) (now : Instant) :
    (db.markPublished id now).written = db.written :=
  map_updateFirst (f := (·.publish now)) (fun _ => rfl) db.outbox

/-- Ending a claim writes nothing. -/
theorem written_releaseClaim (db : Database) (id : Uuid) :
    (db.releaseClaim id).written = db.written :=
  map_updateFirst (f := (·.unlock)) (fun _ => rfl) db.outbox

/-- Claiming events writes nothing. -/
theorem written_fetch {db after : Database} {limit : Nat} {now : Instant}
    {events : List OutboxEvent} (h : db.fetch limit now = some (events, after)) :
    after.written = db.written ∧ after.payments = db.payments := by
  obtain ⟨last, -, hafter⟩ := Option.map_eq_some_iff.mp h
  cases hafter
  refine ⟨?_, rfl⟩
  apply List.ext_getElem?
  intro i
  simp only [written, List.getElem?_map, List.getElem?_mapIdx, Option.map_map]
  congr 1
  funext r
  dsimp only [Function.comp_apply]
  split <;> rfl

end Database

end PaymentRelay
