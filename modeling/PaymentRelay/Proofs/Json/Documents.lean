import Mathlib.Data.String.Basic
import PaymentRelay.Proofs.Json.Readings
import PaymentRelay.Proofs.Json.Texts

/-!
# Which values come back

An object that begins with `documentKey` is written as any other object is, but read as the document that its only
member holds as a string. So of the values without doubles that nest no deeper than the reader allows, those come back
from their text that have no such object in them, and no others (`IsIntegral.ofString_write_iff`).

That the others do not come back needs two facts. Nothing that is read is an object with `documentKey` alone, for
whatever begins with that key is replaced by its document (`readValue_ne_document`). And what is read of a text that
was written takes exactly that text and has the form of what was written, with something else in the place of each
document (`IsIntegral.isTaken`).
-/

namespace PaymentRelay.Json

/-! ## Brackets and documents -/

mutual

/-- The brackets deep that a value nests. -/
def depth : Json → Nat
  | .array items => itemsDepth items + 1
  | .object members => membersDepth members + 1
  | _ => 0

/-- The brackets deep that the items of an array nest. -/
def itemsDepth : List Json → Nat
  | [] => 0
  | v :: items => max (depth v) (itemsDepth items)

/-- The brackets deep that the members of an object nest. -/
def membersDepth : List (String × Json) → Nat
  | [] => 0
  | (_, v) :: members => max (depth v) (membersDepth members)

end

theorem depth_le_itemsDepth {v : Json} {items : List Json} (h : v ∈ items) : v.depth ≤ itemsDepth items := by
  induction items with
  | nil => cases h
  | cons w items ih =>
    rw [itemsDepth]
    rcases List.mem_cons.mp h with rfl | h
    · exact Nat.le_max_left ..
    · exact Nat.le_trans (ih h) (Nat.le_max_right ..)

theorem depth_le_membersDepth {m : String × Json} {members : Members} (h : m ∈ members) :
    m.2.depth ≤ membersDepth members := by
  induction members with
  | nil => cases h
  | cons n members ih =>
    rw [membersDepth]
    rcases List.mem_cons.mp h with rfl | h
    · exact Nat.le_max_left ..
    · exact Nat.le_trans (ih h) (Nat.le_max_right ..)

/-- Somewhere in a value there is an object that begins with the key of a document. -/
inductive HoldsDocument : Json → Prop
  | here (v : Json) (members : Members) : HoldsDocument (.object ((documentKey, v) :: members))
  | item {items : List Json} {v : Json} (hv : v ∈ items) (h : HoldsDocument v) : HoldsDocument (.array items)
  | member {members : Members} {m : String × Json} (hm : m ∈ members) (h : HoldsDocument m.2) :
      HoldsDocument (.object members)

theorem IsScalar.not_holdsDocument {v : Json} (hs : v.IsScalar) : ¬ v.HoldsDocument := by
  intro h
  cases h <;> exact hs

theorem holdsDocument_array {items : List Json} :
    HoldsDocument (.array items) ↔ ∃ v ∈ items, v.HoldsDocument := by
  refine ⟨fun h => ?_, fun ⟨v, hv, h⟩ => .item hv h⟩
  cases h with
  | item hv h => exact ⟨_, hv, h⟩

theorem holdsDocument_object {members : Members} :
    HoldsDocument (.object members) ↔
      (∃ m ∈ members.head?, m.1 = documentKey) ∨ ∃ m ∈ members, m.2.HoldsDocument := by
  refine ⟨fun h => ?_, fun h => ?_⟩
  · cases h with
    | here v members => exact .inl ⟨_, rfl, rfl⟩
    | member hm h => exact .inr ⟨_, hm, h⟩
  · rcases h with ⟨⟨key, v⟩, hm, hkey⟩ | ⟨m, hm, h⟩
    · obtain ⟨rest, rfl⟩ := List.head?_eq_some_iff.mp hm
      obtain rfl : key = documentKey := hkey
      exact .here v rest
    · exact .member hm h

/-- A value without doubles and without documents comes back, if there is room for its brackets. -/
theorem IsIntegral.readsBack {v : Json} (h : v.IsIntegral) (hno : ¬ v.HoldsDocument) {room : Nat}
    (hdepth : v.depth ≤ room) : ReadsBack room v := by
  induction h generalizing room with
  | null => exact .null room
  | boolean b => exact .boolean room b
  | text s => exact .text room s
  | integer i hi => exact .integer room i hi
  | array items h ih =>
    rw [depth] at hdepth
    obtain ⟨room, rfl⟩ : ∃ n, room = n + 1 := ⟨room - 1, by omega⟩
    exact .array room items fun v hv => ih v hv (fun hd => hno (.item hv hd))
      (Nat.le_trans (depth_le_itemsDepth hv) (Nat.le_of_succ_le_succ hdepth))
  | object members hascending h ih =>
    rw [depth] at hdepth
    obtain ⟨room, rfl⟩ : ∃ n, room = n + 1 := ⟨room - 1, by omega⟩
    exact .object room members hascending (fun m hm hkey => hno (holdsDocument_object.mpr (.inl ⟨m, hm, hkey⟩)))
      fun m hm => ih m hm (fun hd => hno (.member hm hd))
        (Nat.le_trans (depth_le_membersDepth hm) (Nat.le_of_succ_le_succ hdepth))

/-! ## What is read is no document -/

/-- An object with nothing but the key of a document. -/
def IsDocument (v : Json) : Prop := ∃ u, v = .object [(documentKey, u)]

/-- What is no object is no document. -/
theorem not_isDocument_of_head {v : Json} (h : v.head ≠ .object) : ¬ IsDocument v := by
  rintro ⟨u, rfl⟩
  exact h rfl

/-- An object with some other key in it is no document. -/
theorem not_isDocument_of_key {members : Members} (h : ∃ k ∈ members.map (·.1), k ≠ documentKey) :
    ¬ IsDocument (.object members) := by
  rintro ⟨u, hu⟩
  obtain ⟨k, hk, hne⟩ := h
  rw [Json.object.inj hu] at hk
  exact hne (List.mem_singleton.mp hk)

/-- Adding a member adds its key and takes none away. -/
theorem mem_keys_insert {key : String} {v : Json} {acc : Members} (k : String) :
    k ∈ (acc.insert key v).map (·.1) ↔ k = key ∨ k ∈ acc.map (·.1) := by
  induction acc with
  | nil => simp only [Members.insert, List.map_cons, List.map_nil, List.mem_cons]
  | cons m acc ih =>
    obtain ⟨k', u⟩ := m
    rw [Members.insert]
    split
    next => simp only [List.map_cons, List.mem_cons]
    next heq => simp only [compare_eq_iff_eq.mp heq, List.map_cons, List.mem_cons, or_self_left]
    next => simp only [List.map_cons, List.mem_cons, ih, or_left_comm]

/-- Items are read into an array. -/
theorem exists_array_of_readItems {fuel room : Nat} {acc : List Json} {s : Octets} {r : Json × Octets}
    (h : readItems fuel room acc s = .ok r) : ∃ items, r.1 = .array items := by
  induction fuel generalizing acc s with
  | zero => cases h
  | succ fuel ih =>
    rw [readItems_succ] at h
    obtain ⟨⟨v, s₁⟩, -, h⟩ := bind_eq_ok.mp h
    unfold goOn at h
    split at h
    next => exact ih h
    next =>
      obtain ⟨s₂, -, h⟩ := bind_eq_ok.mp h
      cases h
      exact ⟨_, rfl⟩

/-- A whole text is read as the value at its front. -/
theorem exists_read_of_finish {α : Type} {read : Reader α} {s : Octets} {a : α} (h : finish read s = .ok a) :
    ∃ rest, read s = .ok (a, rest) := by
  obtain ⟨⟨a', rest⟩, hread, h⟩ := bind_eq_ok.mp h
  dsimp only at h
  split at h
  next =>
    cases h
    exact ⟨rest, hread⟩
  next => cases h

/-- A reader that reads no document. -/
def NeverDocument (read : Reader Json) : Prop :=
  ∀ s r, read s = .ok r → ¬ IsDocument r.1

/-- Whether a value is a document depends on its members, if it has any. -/
theorem neverDocument_readValue {fuel : Nat} (hmembers : ∀ room, NeverDocument (readMembers fuel room []))
    (room : Nat) : NeverDocument (readValue (fuel + 1) room) := by
  intro s r h
  rw [readValue] at h
  obtain ⟨⟨head, s₁⟩, -, h⟩ := bind_eq_ok.mp h
  cases head with
  | null | boolean | number | text =>
    cases h
    exact not_isDocument_of_head Head.noConfusion
  | array =>
    dsimp only at h
    split at h
    next => cases h
    next =>
      split at h
      next =>
        cases h
        exact not_isDocument_of_head Head.noConfusion
      next =>
        obtain ⟨items, hitems⟩ := exists_array_of_readItems h
        rw [hitems]
        exact not_isDocument_of_head Head.noConfusion
  | object =>
    dsimp only at h
    split at h
    next => cases h
    next =>
      split at h
      next =>
        cases h
        rintro ⟨u, hu⟩
        cases hu
      next => exact hmembers _ _ _ h

/-- With the first member, or before it, a key other than that of a document is there, and stays. -/
theorem neverDocument_readMembers {fuel room : Nat} (hdocument : NeverDocument (readDocument fuel))
    (hmembers : ∀ acc : Members, (∃ k ∈ acc.map (·.1), k ≠ documentKey) → NeverDocument (readMembers fuel room acc))
    {acc : Members} (hacc : acc = [] ∨ ∃ k ∈ acc.map (·.1), k ≠ documentKey) :
    NeverDocument (readMembers (fuel + 1) room acc) := by
  intro s r h
  rw [readMembers] at h
  obtain ⟨s₁, -, h⟩ := bind_eq_ok.mp h
  obtain ⟨⟨key, s₂⟩, -, h⟩ := bind_eq_ok.mp h
  obtain ⟨s₃, -, h⟩ := bind_eq_ok.mp h
  dsimp only at h
  split at h
  next => exact hdocument _ _ h
  next hkey =>
    obtain ⟨⟨v, s₄⟩, -, h⟩ := bind_eq_ok.mp h
    have hother : ∃ k ∈ (Members.insert key v acc).map (·.1), k ≠ documentKey := by
      rcases hacc with rfl | ⟨k, hk, hne⟩
      · exact ⟨key, (mem_keys_insert key).mpr (.inl rfl), fun he => hkey (by rw [he]; rfl)⟩
      · exact ⟨k, (mem_keys_insert k).mpr (.inr hk), hne⟩
    dsimp only at h
    split at h
    next => exact hmembers _ hother _ _ h
    next =>
      obtain ⟨s₅, -, h⟩ := bind_eq_ok.mp h
      cases h
      exact not_isDocument_of_key hother

/-- A document is a value that was read, on less fuel. -/
theorem neverDocument_readDocument {fuel : Nat} (hvalue : NeverDocument (readValue fuel maxDepth)) :
    NeverDocument (readDocument (fuel + 1)) := by
  intro s r h
  rw [readDocument] at h
  obtain ⟨⟨head, s₁⟩, -, h⟩ := bind_eq_ok.mp h
  cases head with
  | text t =>
    dsimp only at h
    split at h
    next v hv =>
      obtain ⟨s₂, -, h⟩ := bind_eq_ok.mp h
      cases h
      obtain ⟨rest, hread⟩ := exists_read_of_finish hv
      exact hvalue _ (v, rest) hread
    next => cases h
  | null | boolean | number | array | object => cases h

/-- **No value that is read is a document.** The induction is on the fuel, for all parts of the reader at once. -/
theorem neverDocument (fuel : Nat) :
    (∀ room, NeverDocument (readValue fuel room)) ∧
    (∀ room (acc : Members), (acc = [] ∨ ∃ k ∈ acc.map (·.1), k ≠ documentKey) →
      NeverDocument (readMembers fuel room acc)) ∧
    NeverDocument (readDocument fuel) := by
  induction fuel with
  | zero =>
    refine ⟨fun room s r h => ?_, fun room acc _ s r h => ?_, fun s r h => ?_⟩
    all_goals cases h
  | succ fuel ih =>
    obtain ⟨ihvalue, ihmembers, ihdocument⟩ := ih
    exact ⟨neverDocument_readValue fun room => ihmembers room [] (.inl rfl),
      fun room _ hacc => neverDocument_readMembers ihdocument (fun acc hacc => ihmembers room acc (.inr hacc)) hacc,
      neverDocument_readDocument (ihvalue maxDepth)⟩

/-! ## What is read of what was written -/

/-- What was read of a value that holds a document is another value. -/
def Differs (v u : Json) : Prop :=
  v.HoldsDocument → u ≠ v

/-- What is read of a text that was written, if anything is, takes exactly that text. -/
def IsTaken (v : Json) : Prop :=
  ∀ fuel room rest r, IsEnd rest → readValue fuel room (v.octets ++ rest) = .ok r → r.2 = rest ∧ Differs v r.1

theorem differs_array {items us : List Json} (h : List.Forall₂ Differs items us) :
    Differs (.array items) (.array us) := by
  intro hholds heq
  rw [Json.array.inj heq] at h
  obtain ⟨v, hv, hd⟩ := holdsDocument_array.mp hholds
  exact List.forall₂_same.mp h v hv hd rfl

theorem differs_object {members us : Members} (hfirst : ∀ m ∈ members.head?, m.1 ≠ documentKey)
    (h : List.Forall₂ (fun m n => n.1 = m.1 ∧ Differs m.2 n.2) members us) :
    Differs (.object members) (.object us) := by
  intro hholds heq
  rw [Json.object.inj heq] at h
  rcases holdsDocument_object.mp hholds with ⟨m, hm, hkey⟩ | ⟨m, hm, hd⟩
  · exact hfirst m hm hkey
  · exact (List.forall₂_same.mp h m hm).2 hd rfl

/-- A row with nothing further is over. -/
theorem goOn_further_nil {α β : Type} (close : Char) (hb : isBlank (octet close) = false)
    (hne : octet close ≠ octet ',') (enc : β → Octets) (last : α) (next : Reader α) (rest : Octets) :
    goOn close last next (further enc [] ++ octet close :: rest) = .ok (last, rest) :=
  goOn_close close hb hne last next rest

/-- A row with something further goes on with it. -/
theorem goOn_further_cons {α β : Type} (close : Char) (enc : β → Octets) (b : β) (bs : List β) (last : α)
    (next : Reader α) (rest : Octets) :
    goOn close last next (further enc (b :: bs) ++ octet close :: rest) =
      next (enc b ++ (further enc bs ++ octet close :: rest)) := by
  rw [further_cons, List.cons_append, List.append_assoc, goOn_comma]

/-- Of items that were written an array with as many items is read. -/
theorem readItems_row {v : Json} {items : List Json} (h : ∀ u ∈ v :: items, IsTaken u) {fuel room : Nat}
    {acc : List Json} {rest : Octets} {r : Json × Octets}
    (hread : readItems fuel room acc (v.octets ++ (further octets items ++ octet ']' :: rest)) = .ok r) :
    ∃ us, r = (.array (acc.reverse ++ us), rest) ∧ List.Forall₂ Differs (v :: items) us := by
  induction items generalizing v fuel acc with
  | nil =>
    cases fuel with
    | zero => cases hread
    | succ fuel =>
      rw [readItems_succ] at hread
      obtain ⟨⟨u, s⟩, hu, hread⟩ := bind_eq_ok.mp hread
      obtain ⟨rfl, hdiffers⟩ := h v List.mem_cons_self _ _ _ _ (isEnd_further (.inr (.inl rfl)) [] rest) hu
      dsimp only at hread
      rw [goOn_further_nil ']' (by decide) (by decide)] at hread
      cases hread
      exact ⟨[u], by rw [List.reverse_cons], .cons hdiffers .nil⟩
  | cons w items ih =>
    cases fuel with
    | zero => cases hread
    | succ fuel =>
      rw [readItems_succ] at hread
      obtain ⟨⟨u, s⟩, hu, hread⟩ := bind_eq_ok.mp hread
      obtain ⟨rfl, hdiffers⟩ := h v List.mem_cons_self _ _ _ _ (isEnd_further (.inr (.inl rfl)) (w :: items) rest) hu
      dsimp only at hread
      rw [goOn_further_cons] at hread
      obtain ⟨us, rfl, hus⟩ := ih (fun x hx => h x (List.mem_cons_of_mem _ hx)) hread
      exact ⟨u :: us, by rw [List.reverse_cons, List.append_assoc]; rfl, .cons hdiffers hus⟩

/-- A member behind others is read and comes last. -/
theorem readMembers_eq_ok {key : String} {v : Json} (hv : IsTaken v) {acc : Members}
    (hkeys : ∀ m ∈ acc, compare key m.1 = .gt) (hfirst : acc = [] → key ≠ documentKey) {fuel room : Nat}
    {s : Octets} (hs : IsEnd s) {r : Json × Octets}
    (hread : readMembers fuel room acc (memberOctets (key, v) ++ s) = .ok r) :
    ∃ fuel' u, Differs v u ∧ goOn '\x7d' (.object (acc ++ [(key, u)]))
      (readMembers fuel' room (acc ++ [(key, u)])) s = .ok r := by
  cases fuel with
  | zero => cases hread
  | succ fuel =>
    have hkey : (acc.isEmpty && key == documentKey) = false := by
      cases acc with
      | nil => exact beq_eq_false_iff_ne.mpr (hfirst rfl)
      | cons => rfl
    rw [memberOctets_append, readMembers_member, hkey, if_neg Bool.false_ne_true] at hread
    obtain ⟨⟨u, s'⟩, hu, hgoOn⟩ := bind_eq_ok.mp hread
    obtain ⟨hrest, hdiffers⟩ := hv _ _ _ _ hs hu
    obtain rfl : s' = s := hrest
    refine ⟨fuel, u, hdiffers, ?_⟩
    rw [← insert_eq_append hkeys]
    exact hgoOn

/-- Of members that were written an object with the same keys is read, if the first of them is not that of a
document. -/
theorem readMembers_row {m : String × Json} {members : Members} (h : ∀ n ∈ m :: members, IsTaken n.2)
    {acc : Members} (hkeys : ((acc ++ m :: members).map (·.1)).Pairwise fun a b => compare b a = .gt)
    (hfirst : acc = [] → m.1 ≠ documentKey) {fuel room : Nat} {rest : Octets} {r : Json × Octets}
    (hread : readMembers fuel room acc (memberOctets m ++ (further memberOctets members ++ octet '\x7d' :: rest)) =
      .ok r) :
    ∃ us, r = (.object (acc ++ us), rest) ∧
      List.Forall₂ (fun m n => n.1 = m.1 ∧ Differs m.2 n.2) (m :: members) us := by
  have hend : ∀ members, IsEnd (further memberOctets members ++ octet '\x7d' :: rest) := fun members =>
    isEnd_further (.inr (.inr rfl)) members rest
  induction members generalizing m fuel acc with
  | nil =>
    have hlast : ∀ n ∈ acc, compare m.1 n.1 = .gt := fun n hn =>
      (List.pairwise_append.mp (List.pairwise_map.mp hkeys)).2.2 n hn _ List.mem_cons_self
    obtain ⟨_, u, hdiffers, hread⟩ := readMembers_eq_ok (h m List.mem_cons_self) hlast hfirst (hend []) hread
    rw [goOn_further_nil '\x7d' (by decide) (by decide)] at hread
    cases hread
    exact ⟨[(m.1, u)], rfl, .cons ⟨rfl, hdiffers⟩ .nil⟩
  | cons m' members ih =>
    have hlast : ∀ n ∈ acc, compare m.1 n.1 = .gt := fun n hn =>
      (List.pairwise_append.mp (List.pairwise_map.mp hkeys)).2.2 n hn _ List.mem_cons_self
    obtain ⟨_, u, hdiffers, hread⟩ := readMembers_eq_ok (h m List.mem_cons_self) hlast hfirst (hend _) hread
    rw [goOn_further_cons] at hread
    obtain ⟨us, rfl, hus⟩ := ih (fun n hn => h n (List.mem_cons_of_mem _ hn))
      (by rw [List.append_assoc]; simpa using hkeys) (fun hnil => by simp at hnil) hread
    exact ⟨(m.1, u) :: us, by rw [List.append_assoc]; rfl, .cons ⟨rfl, hdiffers⟩ hus⟩

/-- A member with the key of a document has to be the only one, and its document is no document. -/
theorem readMembers_document {x : Json} (hx : x.IsIntegral) {members : Members} {fuel room : Nat} {rest : Octets}
    {r : Json × Octets}
    (hread : readMembers fuel room [] (memberOctets (documentKey, x) ++
      (further memberOctets members ++ octet '\x7d' :: rest)) = .ok r) :
    members = [] ∧ r.2 = rest ∧ ¬ IsDocument r.1 := by
  have hnever := (neverDocument fuel).2.1 room [] (.inl rfl) _ _ hread
  cases fuel with
  | zero => cases hread
  | succ fuel =>
    have hfirst : (List.isEmpty ([] : Members) && documentKey == documentKey) = true := beq_self_eq_true documentKey
    rw [memberOctets_append, readMembers_member, if_pos hfirst] at hread
    cases fuel with
    | zero => cases hread
    | succ fuel =>
      rw [readDocument] at hread
      obtain ⟨⟨head, s⟩, hhead, hread⟩ := bind_eq_ok.mp hread
      rw [octets, hx.readHead (isEnd_further (.inr (.inr rfl)) members rest)] at hhead
      cases x with
      | text t =>
        obtain ⟨rfl, rfl⟩ := Prod.mk.inj (Except.ok.inj hhead)
        dsimp only [head] at hread
        split at hread
        next =>
          obtain ⟨s', hs', hread⟩ := bind_eq_ok.mp hread
          cases hread
          cases members with
          | nil => exact ⟨rfl, (Except.ok.inj hs').symm, hnever⟩
          | cons m members => cases hs'
        next => cases hread
      | null | boolean | number | array | object =>
        obtain ⟨rfl, rfl⟩ := Prod.mk.inj (Except.ok.inj hhead)
        cases hread

/-- A scalar holds nothing, and is read with its head. -/
theorem isTaken_scalar {v : Json} (h : v.IsIntegral) (hs : v.IsScalar) : IsTaken v := by
  intro fuel room rest r hend hread
  cases fuel with
  | zero => cases hread
  | succ fuel =>
    rw [readValue, octets, h.readHead hend] at hread
    cases v with
    | array => exact hs.elim
    | object => exact hs.elim
    | null | boolean | number | text =>
      cases hread
      exact ⟨rfl, fun hholds => absurd hholds hs.not_holdsDocument⟩

/-- **What is read of a value that was written takes exactly its text, and differs from it if it holds a document.** -/
theorem IsIntegral.isTaken {v : Json} (h : v.IsIntegral) : IsTaken v := by
  induction h with
  | null => exact isTaken_scalar .null trivial
  | boolean b => exact isTaken_scalar (.boolean b) trivial
  | text s => exact isTaken_scalar (.text s) trivial
  | integer i hi => exact isTaken_scalar (.integer i hi) trivial
  | array items h ih =>
    intro fuel room rest r hend hread
    cases fuel with
    | zero => cases hread
    | succ fuel =>
      cases items with
      | nil =>
        have hempty : readValue (fuel + 1) room ((Json.array []).octets ++ rest) =
            if room = 0 then .error .malformed else .ok (.array [], rest) := rfl
        rw [hempty] at hread
        split at hread
        next => cases hread
        next =>
          cases hread
          exact ⟨rfl, differs_array .nil⟩
      | cons v items =>
        rw [octets, readValue_array (h v List.mem_cons_self)] at hread
        split at hread
        next => cases hread
        next =>
          rw [encode_itemChars, row, List.append_assoc] at hread
          obtain ⟨us, rfl, hus⟩ := readItems_row ih hread
          exact ⟨rfl, differs_array hus⟩
  | object members hascending h ih =>
    intro fuel room rest r hend hread
    cases fuel with
    | zero => cases hread
    | succ fuel =>
      cases members with
      | nil =>
        have hempty : readValue (fuel + 1) room ((Json.object []).octets ++ rest) =
            if room = 0 then .error .malformed else .ok (.object [], rest) := rfl
        rw [hempty] at hread
        split at hread
        next => cases hread
        next =>
          cases hread
          exact ⟨rfl, differs_object (fun m hm => absurd hm (Option.not_mem_none m)) .nil⟩
      | cons m members =>
        rw [octets, readValue_object] at hread
        split at hread
        next => cases hread
        next =>
          rw [encode_memberChars, row, List.append_assoc] at hread
          by_cases hkey : m.1 = documentKey
          · obtain ⟨key, x⟩ := m
            obtain rfl : key = documentKey := hkey
            obtain ⟨rfl, hrest, hno⟩ := readMembers_document (h _ List.mem_cons_self) hread
            exact ⟨hrest, fun _ heq => hno ⟨x, heq⟩⟩
          · have hkeys : ((([] : Members) ++ m :: members).map (·.1)).Pairwise fun a b => compare b a = .gt :=
              List.pairwise_map.mpr hascending
            obtain ⟨us, rfl, hus⟩ := readMembers_row ih hkeys (fun _ => hkey) hread
            refine ⟨rfl, differs_object (fun n hn => ?_) hus⟩
            cases hn
            exact hkey

/-- **Of the values without doubles those come back in which no object begins with the key of a document**, as long as
they nest no deeper than the reader allows. -/
theorem IsIntegral.ofString_write_iff {v : Json} (h : v.IsIntegral) (hdepth : v.depth ≤ maxDepth) :
    ofString v.write = .ok v ↔ ¬ v.HoldsDocument := by
  refine ⟨fun hread hholds => ?_, fun hno => ofString_write (h.readsBack hno hdepth)⟩
  rw [ofString, write, octetsOf_ofList] at hread
  obtain ⟨rest, hread⟩ := exists_read_of_finish hread
  rw [← List.append_nil (encode v.chars)] at hread
  exact (h.isTaken _ _ [] _ trivial hread).2 hholds rfl

/-! ## Records -/

section Records

variable {ρ : Type}

/-- A field that is read from the text of a value takes exactly that text. -/
def Field.Takes (field : Field ρ) (room : Nat) (v : Json) : Prop :=
  ∀ rest r, IsEnd rest → field.read room (v.octets ++ rest) = .ok r → r.2 = rest

theorem Field.takes_ofHead {β : Type} {name : String} {get : ρ → Option β} {put : β → ρ → ρ}
    {accept : Head → Except Problem β} {v : Json} (h : v.IsIntegral) (hs : v.IsScalar) (room : Nat) :
    (Field.ofHead name get put accept).Takes room v := by
  intro rest r hend hread
  obtain ⟨⟨head, s⟩, hhead, hread⟩ := bind_eq_ok.mp hread
  obtain ⟨b, -, hread⟩ := bind_eq_ok.mp hread
  cases hread
  rw [octets, h.readHead hend] at hhead
  cases v with
  | array => exact hs.elim
  | object => exact hs.elim
  | null | boolean | number | text => exact (Prod.mk.inj (Except.ok.inj hhead)).2.symm

theorem Field.takes_untyped {name : String} {get : ρ → Option Json} {put : Json → ρ → ρ} {v : Json}
    (h : v.IsIntegral) (room : Nat) : (Field.untyped name get put).Takes room v := by
  intro rest r hend hread
  obtain ⟨⟨u, s⟩, hu, rfl⟩ := map_eq_ok.mp hread
  exact (h.isTaken _ _ _ _ hend hu).1

/-- How a member is read: by the field of its name, from its own text. -/
def ReadsMember (fields : List (Field ρ)) (room : Nat) (m : String × Json) (put : ρ → ρ) : Prop :=
  ∃ field rest, fields.find? (·.name == m.1) = some field ∧ IsEnd rest ∧
    field.read room (m.2.octets ++ rest) = .ok (put, rest)

/-- A member of a field is read and put into the draft. -/
theorem readNamed_eq_ok {fields : List (Field ρ)} {room : Nat} {m : String × Json} {field : Field ρ}
    (hfind : fields.find? (·.name == m.1) = some field) (htakes : field.Takes room m.2) {s : Octets} (hs : IsEnd s)
    {fuel : Nat} {draft : ρ} {r : ρ × Octets} (hread : readNamed room fields fuel draft (memberOctets m ++ s) = .ok r) :
    ∃ fuel' put, ReadsMember fields room m put ∧
      goOn '\x7d' (put draft) (readNamed room fields fuel' (put draft)) s = .ok r := by
  cases fuel with
  | zero => cases hread
  | succ fuel =>
    rw [memberOctets_append, readNamed_member hfind] at hread
    split at hread
    next => cases hread
    next =>
      obtain ⟨⟨put, s'⟩, hput, hgoOn⟩ := bind_eq_ok.mp hread
      obtain rfl : s' = s := htakes _ _ hs hput
      exact ⟨fuel, put, ⟨field, s', hfind, hs, hput⟩, hgoOn⟩

/-- **Members that were written are read one after the other**, each by its field and from its own text. -/
theorem readNamed_row {fields : List (Field ρ)} {room : Nat} {m : String × Json} {members : Members}
    (hknown : ∀ n ∈ m :: members, ∃ field, fields.find? (·.name == n.1) = some field ∧ field.Takes room n.2)
    {fuel : Nat} {draft : ρ} {rest : Octets} {r : ρ × Octets}
    (hread : readNamed room fields fuel draft
      (memberOctets m ++ (further memberOctets members ++ octet '\x7d' :: rest)) = .ok r) :
    ∃ puts, List.Forall₂ (ReadsMember fields room) (m :: members) puts ∧
      r = (puts.foldl (fun draft put => put draft) draft, rest) := by
  have hend : ∀ members, IsEnd (further memberOctets members ++ octet '\x7d' :: rest) := fun members =>
    isEnd_further (.inr (.inr rfl)) members rest
  induction members generalizing m fuel draft with
  | nil =>
    obtain ⟨field, hfind, htakes⟩ := hknown m List.mem_cons_self
    obtain ⟨_, put, hput, hread⟩ := readNamed_eq_ok hfind htakes (hend []) hread
    rw [goOn_further_nil '\x7d' (by decide) (by decide)] at hread
    cases hread
    exact ⟨[put], .cons hput .nil, rfl⟩
  | cons m' members ih =>
    obtain ⟨field, hfind, htakes⟩ := hknown m List.mem_cons_self
    obtain ⟨_, put, hput, hread⟩ := readNamed_eq_ok hfind htakes (hend _) hread
    rw [goOn_further_cons] at hread
    obtain ⟨puts, hputs, rfl⟩ := ih (fun n hn => hknown n (List.mem_cons_of_mem _ hn)) hread
    exact ⟨put :: puts, .cons hput hputs, rfl⟩

end Records

end PaymentRelay.Json
