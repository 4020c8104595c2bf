import PaymentRelay.Proofs.Json.Records

/-!
# A text is the text of one value

No two values without doubles have the same text (`IsIntegral.eq_of_encode_eq`). This does not follow from reading
them back, for not all of them come back: some nest too deep, and some have an object that stands for a document.

What shows it is where a text ends. Of two texts with an end behind each, none goes on where the other stops
(`EndsItself`); so a row of them with commas between can be cut in one way only, and by induction on the value the
items of arrays and the members of objects are cut out one after the other. The head of a value and what is left
behind it are told by the reader of heads (`IsIntegral.readHead`), which knows no bound and no special key.
-/

namespace PaymentRelay.Json

/-! ## Rows -/

section Rows

variable {α : Type} {P : α → Prop} {enc : α → Octets} {close : Char} {r r' : Octets}

/-- A text is that of one thing only, as soon as an end stands behind it: whoever has the same text up to an end is
that thing. -/
def EndsItself (P : α → Prop) (enc : α → Octets) (a : α) : Prop :=
  ∀ b, P b → ∀ r r', IsEnd r → IsEnd r' → enc a ++ r = enc b ++ r' → a = b ∧ r = r'

/-- What follows the first element of a row: the others, each behind a comma. -/
def further (enc : α → Octets) (as : List α) : Octets :=
  as.flatMap fun a => octet ',' :: enc a

theorem further_cons (a : α) (as : List α) : further enc (a :: as) = octet ',' :: (enc a ++ further enc as) :=
  List.flatMap_cons

/-- Between two elements of a row there is an end. -/
theorem isEnd_further (hclose : IsEnd [octet close]) (as : List α) (r : Octets) :
    IsEnd (further enc as ++ octet close :: r) := by
  cases as with
  | nil => exact hclose
  | cons a as => exact .inl rfl

/-- The further elements of a row are told by their text. -/
theorem further_inj (hclose : IsEnd [octet close]) (hne : octet close ≠ octet ',') {as bs : List α}
    (has : ∀ a ∈ as, EndsItself P enc a) (hbs : ∀ b ∈ bs, P b)
    (h : further enc as ++ octet close :: r = further enc bs ++ octet close :: r') : as = bs ∧ r = r' := by
  induction as generalizing bs with
  | nil =>
    cases bs with
    | nil => exact ⟨rfl, List.tail_eq_of_cons_eq h⟩
    | cons b bs => exact absurd (List.head_eq_of_cons_eq h) hne
  | cons a as ih =>
    cases bs with
    | nil => exact absurd (List.head_eq_of_cons_eq h).symm hne
    | cons b bs =>
      rw [further_cons, further_cons, List.cons_append, List.cons_append, List.append_assoc, List.append_assoc] at h
      obtain ⟨rfl, hrest⟩ := has a List.mem_cons_self b (hbs b List.mem_cons_self) _ _ (isEnd_further hclose as r)
        (isEnd_further hclose bs r') (List.tail_eq_of_cons_eq h)
      obtain ⟨rfl, rfl⟩ := ih (fun a ha => has a (List.mem_cons_of_mem _ ha))
        (fun b hb => hbs b (List.mem_cons_of_mem _ hb)) hrest
      exact ⟨rfl, rfl⟩

/-- A row: its first element and the further ones. -/
def row (enc : α → Octets) : List α → Octets
  | [] => []
  | a :: as => enc a ++ further enc as

/-- A row is told by its text, if no element begins with the bracket that closes the row. -/
theorem row_inj (hclose : IsEnd [octet close]) (hne : octet close ≠ octet ',')
    (hbegins : ∀ a, P a → ∃ o os, enc a = o :: os ∧ o ≠ octet close) {as bs : List α} (has : ∀ a ∈ as, P a)
    (hends : ∀ a ∈ as, EndsItself P enc a) (hbs : ∀ b ∈ bs, P b)
    (h : row enc as ++ octet close :: r = row enc bs ++ octet close :: r') : as = bs ∧ r = r' := by
  -- a row with an element does not begin as an empty one does
  have hsome : ∀ (a : α) (as : List α) (s s' : Octets), P a → row enc (a :: as) ++ s ≠ octet close :: s' := by
    intro a as s s' ha he
    obtain ⟨o, os, hcons, ho⟩ := hbegins a ha
    rw [row, hcons] at he
    exact ho (List.head_eq_of_cons_eq he)
  cases as with
  | nil =>
    cases bs with
    | nil => exact ⟨rfl, List.tail_eq_of_cons_eq h⟩
    | cons b bs => exact absurd h.symm (hsome b bs _ _ (hbs b List.mem_cons_self))
  | cons a as =>
    cases bs with
    | nil => exact absurd h (hsome a as _ _ (has a List.mem_cons_self))
    | cons b bs =>
      rw [row, row, List.append_assoc, List.append_assoc] at h
      obtain ⟨rfl, hrest⟩ := hends a List.mem_cons_self b (hbs b List.mem_cons_self) _ _ (isEnd_further hclose as r)
        (isEnd_further hclose bs r') h
      obtain ⟨rfl, rfl⟩ := further_inj hclose hne (fun a ha => hends a (List.mem_cons_of_mem _ ha))
        (fun b hb => hbs b (List.mem_cons_of_mem _ hb)) hrest
      exact ⟨rfl, rfl⟩

end Rows

/-- The octets of a value. -/
def octets (v : Json) : Octets := encode v.chars

/-- The octets of a member. -/
def memberOctets (m : String × Json) : Octets := encode (quoted m.1 ++ ':' :: m.2.chars)

/-- The items of an array are a row. -/
theorem encode_itemChars (items : List Json) : encode (itemChars items) = row octets items := by
  cases items with
  | nil => rfl
  | cons v items =>
    induction items generalizing v with
    | nil =>
      rw [itemChars]
      exact (List.append_nil _).symm
    | cons w items ih =>
      rw [itemChars, encode_append, encode_cons_ascii (by decide), ih]
      rfl

/-- The members of an object are a row. -/
theorem encode_memberChars (members : Members) : encode (memberChars members) = row memberOctets members := by
  cases members with
  | nil => rfl
  | cons m members =>
    induction members generalizing m with
    | nil =>
      rw [memberChars]
      exact (List.append_nil _).symm
    | cons m' members ih =>
      rw [memberChars, encode_append, encode_cons_ascii (by decide), ih]
      rfl

/-! ## Members and values -/

/-- The members whose values are without doubles. -/
def IsIntegralMember (m : String × Json) : Prop := m.2.IsIntegral

theorem memberOctets_append (m : String × Json) (r : Octets) :
    memberOctets m ++ r =
      octet '"' :: (encode (m.1.toList.flatMap escape) ++ octet '"' :: octet ':' :: (m.2.octets ++ r)) := by
  rw [memberOctets, encode_member, List.cons_append, List.append_assoc]
  rfl

/-- A member ends itself if its value does: its key ends at the closing quote. -/
theorem endsItself_member {m : String × Json} (h : EndsItself IsIntegral octets m.2) :
    EndsItself IsIntegralMember memberOctets m := by
  intro m' hm' r r' hr hr' heq
  obtain ⟨key, v⟩ := m
  obtain ⟨key', v'⟩ := m'
  rw [memberOctets_append, memberOctets_append] at heq
  have hkeys := congrArg readString (List.tail_eq_of_cons_eq heq)
  rw [readString_escapes, readString_escapes] at hkeys
  obtain ⟨rfl, hrest⟩ := Prod.mk.inj (Except.ok.inj hkeys)
  obtain ⟨rfl, rfl⟩ := h v' hm' r r' hr hr' (List.tail_eq_of_cons_eq hrest)
  exact ⟨rfl, rfl⟩

theorem begins_member (m : String × Json) : ∃ o os, memberOctets m = o :: os ∧ o ≠ octet '\x7d' :=
  ⟨_, _, encode_member m.1 m.2.chars, by decide⟩

/-- Members are told by their text. -/
theorem members_inj {members members' : Members} {r r' : Octets} (h : ∀ m ∈ members, m.2.IsIntegral)
    (hends : ∀ m ∈ members, EndsItself IsIntegral octets m.2) (h' : ∀ m ∈ members', m.2.IsIntegral)
    (heq : encode (memberChars members) ++ octet '\x7d' :: r = encode (memberChars members') ++ octet '\x7d' :: r') :
    members = members' ∧ r = r' := by
  rw [encode_memberChars, encode_memberChars] at heq
  exact row_inj (.inr (.inr rfl)) (by decide) (fun m _ => begins_member m) h
    (fun m hm => endsItself_member (hends m hm)) h' heq

/-- Items are told by their text. -/
theorem items_inj {items items' : List Json} {r r' : Octets} (h : ∀ v ∈ items, v.IsIntegral)
    (hends : ∀ v ∈ items, EndsItself IsIntegral octets v) (h' : ∀ v ∈ items', v.IsIntegral)
    (heq : encode (itemChars items) ++ octet ']' :: r = encode (itemChars items') ++ octet ']' :: r') :
    items = items' ∧ r = r' := by
  rw [encode_itemChars, encode_itemChars] at heq
  refine row_inj (.inr (.inl rfl)) (by decide) (fun v hv => ?_) h hends h' heq
  obtain ⟨b, bs, hcons, -, hne, -⟩ := hv.begins
  exact ⟨b, bs, hcons, hne⟩

/-- The same text has the same head, and the same left behind it. -/
theorem head_body_of_eq {v w : Json} (hv : v.IsIntegral) (hw : w.IsIntegral) {r r' : Octets} (hr : IsEnd r)
    (hr' : IsEnd r') (h : v.octets ++ r = w.octets ++ r') : v.head = w.head ∧ v.body ++ r = w.body ++ r' := by
  have hheads := congrArg readHead h
  rw [octets, octets, hv.readHead hr, hw.readHead hr'] at hheads
  exact Prod.mk.inj (Except.ok.inj hheads)

/-- A scalar is its head. -/
theorem IsScalar.eq_of_head_eq {v w : Json} (hs : v.IsScalar) (h : v.head = w.head) : v = w := by
  cases v with
  | array => exact hs.elim
  | object => exact hs.elim
  | null | boolean | number | text => cases w <;> cases h <;> rfl

theorem endsItself_scalar {v : Json} (h : v.IsIntegral) (hs : v.IsScalar) : EndsItself IsIntegral octets v := by
  intro w hw r r' hr hr' heq
  obtain ⟨hhead, hbody⟩ := head_body_of_eq h hw hr hr' heq
  obtain rfl := hs.eq_of_head_eq hhead
  exact ⟨rfl, List.append_cancel_left hbody⟩

/-- **A value without doubles ends itself.** -/
theorem IsIntegral.endsItself {v : Json} (h : v.IsIntegral) : EndsItself IsIntegral octets v := by
  induction h with
  | null => exact endsItself_scalar .null trivial
  | boolean b => exact endsItself_scalar (.boolean b) trivial
  | text s => exact endsItself_scalar (.text s) trivial
  | integer i hi => exact endsItself_scalar (.integer i hi) trivial
  | array items h ih =>
    intro w hw r r' hr hr' heq
    obtain ⟨hhead, hbody⟩ := head_body_of_eq (.array items h) hw hr hr' heq
    cases hw with
    | array items' h' =>
      rw [body, body, List.append_assoc, List.append_assoc] at hbody
      obtain ⟨rfl, rfl⟩ := items_inj h ih h' hbody
      exact ⟨rfl, rfl⟩
    | _ => cases hhead
  | object members hascending h ih =>
    intro w hw r r' hr hr' heq
    obtain ⟨hhead, hbody⟩ := head_body_of_eq (.object members hascending h) hw hr hr' heq
    cases hw with
    | object members' _ h' =>
      rw [body, body, List.append_assoc, List.append_assoc] at hbody
      obtain ⟨rfl, rfl⟩ := members_inj h ih h' hbody
      exact ⟨rfl, rfl⟩
    | _ => cases hhead

/-- **A text is the text of one value without doubles.** -/
theorem IsIntegral.eq_of_encode_eq {v w : Json} (hv : v.IsIntegral) (hw : w.IsIntegral)
    (h : encode v.chars = encode w.chars) : v = w :=
  (hv.endsItself w hw [] [] trivial trivial (congrArg (· ++ []) h)).1

end PaymentRelay.Json
