import PaymentRelay.Proofs.Json.Numbers

/-!
# Values that are written are read back

`ReadsBack` says which values come back from their own text: those without doubles, whose objects have
their members in the order of the keys and do not begin with the key of a document, and whose brackets
nest no deeper than there is room for. The reader runs on fuel; twice as much as there are octets is
enough.

How a text begins is a matter of the numbers alone. Those lemmas are about `IsIntegral`, which asks
nothing of the first keys and of the brackets.
-/

namespace PaymentRelay.Json

/-! ## Marks -/

theorem expect_self {c : Char} (hb : isBlank (octet c) = false) (rest : Octets) :
    expect c (octet c :: rest) = .ok rest := by
  simp only [expect, skipBlanks, List.dropWhile_cons, hb, Bool.false_eq_true, if_false,
    beq_self_eq_true, if_true]

theorem expect_other {c : Char} {b : UInt8} (hb : isBlank b = false) (hne : b ≠ octet c)
    (rest : Octets) : expect c (b :: rest) = .error .malformed := by
  simp only [expect, skipBlanks, List.dropWhile_cons, hb, Bool.false_eq_true, if_false,
    beq_eq_false_iff_ne.mpr hne]

/-- Goes on behind a comma, and ends at a closing bracket. -/
def goOn {α : Type} (close : Char) (last : α) (next : Reader α) : Reader α := fun s =>
  match expect ',' s with
  | .ok rest => next rest
  | .error _ => do
    let rest ← expect close s
    return (last, rest)

theorem goOn_comma {α : Type} (close : Char) (last : α) (next : Reader α) (rest : Octets) :
    goOn close last next (octet ',' :: rest) = next rest := by
  rw [goOn, expect_self (by decide)]

theorem goOn_close {α : Type} (close : Char) (hb : isBlank (octet close) = false)
    (hne : octet close ≠ octet ',') (last : α) (next : Reader α) (rest : Octets) :
    goOn close last next (octet close :: rest) = .ok (last, rest) := by
  rw [goOn, expect_other hb hne, expect_self hb]
  rfl

/-! ## Heads -/

theorem readHead_text (s : String) (rest : Octets) :
    readHead (encode (quoted s) ++ rest) = .ok (.text s, rest) := by
  rw [encode_quoted, List.cons_append, List.append_assoc]
  show (readString (encode (s.toList.flatMap escape) ++ octet '"' :: rest)).map
    (fun p => (Head.text p.1, p.2)) = _
  rw [readString_escapes]
  rfl

/-- A digit or a sign is the head of nothing but a number. -/
theorem head_of_number {b : UInt8} (h : b = octet '-' ∨ isDigit b = true) :
    isBlank b = false ∧ b ≠ octet 'n' ∧ b ≠ octet 't' ∧ b ≠ octet 'f' ∧ b ≠ octet '"' ∧
      b ≠ octet '[' ∧ b ≠ octet '\x7b' ∧ b ≠ octet ']' ∧ b ≠ octet '\x7d' := by
  have hne : ∀ c : Char, octet c ≠ octet '-' → isDigit (octet c) = false → b ≠ octet c := by
    rintro c hminus hdigit rfl
    rcases h with h | h
    · exact hminus h
    · rw [hdigit] at h
      cases h
  have hblank : isBlank b = false := by
    simp only [isBlank, Bool.or_eq_false_iff, beq_eq_false_iff_ne]
    exact ⟨⟨⟨hne ' ' (by decide) rfl, hne '\t' (by decide) rfl⟩, hne '\n' (by decide) rfl⟩,
      hne '\r' (by decide) rfl⟩
  exact ⟨hblank, hne 'n' (by decide) rfl, hne 't' (by decide) rfl, hne 'f' (by decide) rfl,
    hne '"' (by decide) rfl, hne '[' (by decide) rfl, hne '\x7b' (by decide) rfl,
    hne ']' (by decide) rfl, hne '\x7d' (by decide) rfl⟩

/-- The numeral of an integer begins with a digit or a sign. -/
theorem encode_integer_cons (i : Int) :
    ∃ b bs, encode (Text.integer i) = b :: bs ∧ (b = octet '-' ∨ isDigit b = true) := by
  have hdigits : ∀ n, ∃ b bs, encode (Nat.toDigits 10 n) = b :: bs ∧ (b = octet '-' ∨ isDigit b = true) := by
    intro n
    obtain ⟨hne, hall, -⟩ := natOctets_spec n
    obtain ⟨b, bs, hcons⟩ := List.exists_cons_of_ne_nil hne
    refine ⟨b, bs, ?_, .inr (hall b (hcons ▸ List.mem_cons_self))⟩
    rw [← hcons, natOctets]
    exact encode_of_ascii fun c hc =>
      ascii_of_isDigit (Nat.isDigit_of_mem_toDigits (by decide) (by decide) hc)
  unfold Text.integer
  split
  · exact ⟨_, _, encode_cons_ascii (by decide) _, .inl rfl⟩
  · exact hdigits _

theorem readHead_integer {i : Int} (hi : IsInteger i) {rest : Octets} (h : IsEnd rest) :
    readHead (encode (Text.integer i) ++ rest) = .ok (.number (.integer i), rest) := by
  obtain ⟨t, htake, hvalue⟩ := takeNumber_integer hi h
  obtain ⟨b, bs, hcons, hb⟩ := encode_integer_cons i
  obtain ⟨hblank, hn, ht, hf, hq, ha, ho, -, -⟩ := head_of_number hb
  rw [hcons] at htake ⊢
  have hnumber : (b == octet '-' || isDigit b) = true := by
    rcases hb with rfl | hd
    · rfl
    · rw [hd, Bool.or_true]
  unfold readHead
  simp only [List.cons_append, skipBlanks, List.dropWhile_cons, hblank, Bool.false_eq_true, if_false,
    beq_eq_false_iff_ne.mpr hn, beq_eq_false_iff_ne.mpr ht, beq_eq_false_iff_ne.mpr hf,
    beq_eq_false_iff_ne.mpr hq, beq_eq_false_iff_ne.mpr ha, beq_eq_false_iff_ne.mpr ho, hnumber, if_true]
  rw [List.cons_append] at htake
  rw [htake]
  simp only [bind, Except.bind, hvalue]
  rfl

/-! ## Values -/

/-- The members of an object stand in the order of their keys. -/
def Ascending (members : Members) : Prop :=
  members.Pairwise fun a b => compare b.1 a.1 = .gt

/-- Whether members stand in the order of their keys is a matter of the keys. -/
theorem ascending_of_keys {members : Members}
    (h : (members.map (·.1)).Pairwise fun a b => compare b a = .gt) : Ascending members :=
  List.pairwise_map.mp h

/-- The values that come back from their text, with room for so many brackets. -/
inductive ReadsBack : Nat → Json → Prop
  | null (room : Nat) : ReadsBack room .null
  | boolean (room : Nat) (b : Bool) : ReadsBack room (.boolean b)
  | text (room : Nat) (s : String) : ReadsBack room (.text s)
  | integer (room : Nat) (i : Int) (hi : IsInteger i) : ReadsBack room (.number (.integer i))
  | array (room : Nat) (items : List Json) (h : ∀ v ∈ items, ReadsBack room v) :
      ReadsBack (room + 1) (.array items)
  | object (room : Nat) (members : Members) (hascending : Ascending members)
      (hfirst : ∀ m ∈ members.head?, m.1 ≠ documentKey) (h : ∀ m ∈ members, ReadsBack room m.2) :
      ReadsBack (room + 1) (.object members)

/-- A value is read from its text, whatever follows it. -/
def IsRead (room : Nat) (v : Json) : Prop :=
  ∀ fuel rest, 2 * (encode v.chars).length ≤ fuel → IsEnd rest →
    readValue fuel room (encode v.chars ++ rest) = .ok (v, rest)

/-- The values without doubles. Their objects have the members in the order of the keys; they may begin
with any key, and brackets nest as deep as they like. -/
inductive IsIntegral : Json → Prop
  | null : IsIntegral .null
  | boolean (b : Bool) : IsIntegral (.boolean b)
  | text (s : String) : IsIntegral (.text s)
  | integer (i : Int) (hi : IsInteger i) : IsIntegral (.number (.integer i))
  | array (items : List Json) (h : ∀ v ∈ items, IsIntegral v) : IsIntegral (.array items)
  | object (members : Members) (hascending : Ascending members) (h : ∀ m ∈ members, IsIntegral m.2) :
      IsIntegral (.object members)

theorem ReadsBack.isIntegral {room : Nat} {v : Json} (h : ReadsBack room v) : v.IsIntegral := by
  induction h with
  | null => exact .null
  | boolean _ b => exact .boolean b
  | text _ s => exact .text s
  | integer _ i hi => exact .integer i hi
  | array _ items _ ih => exact .array items ih
  | object _ members hascending _ _ ih => exact .object members hascending ih

/-- A value begins with an octet that is neither blank nor a closing bracket. -/
theorem IsIntegral.begins {v : Json} (h : v.IsIntegral) :
    ∃ b bs, encode v.chars = b :: bs ∧ isBlank b = false ∧ b ≠ octet ']' ∧ b ≠ octet '\x7d' := by
  cases h with
  | null => exact ⟨_, _, rfl, by decide, by decide, by decide⟩
  | boolean b => cases b <;> exact ⟨_, _, rfl, by decide, by decide, by decide⟩
  | text s => exact ⟨_, _, encode_quoted s, by decide, by decide, by decide⟩
  | integer i =>
    obtain ⟨b, bs, hcons, hb⟩ := encode_integer_cons i
    obtain ⟨hblank, -, -, -, -, -, -, ha, ho⟩ := head_of_number hb
    exact ⟨b, bs, hcons, hblank, ha, ho⟩
  | array => exact ⟨_, _, encode_cons_ascii (by decide) _, by decide, by decide, by decide⟩
  | object => exact ⟨_, _, encode_cons_ascii (by decide) _, by decide, by decide, by decide⟩

theorem encode_array (items : List Json) :
    encode (Json.array items).chars = octet '[' :: (encode (itemChars items) ++ [octet ']']) := by
  rw [chars, encode_cons_ascii (by decide), encode_append]
  rfl

theorem encode_object (members : Members) :
    encode (Json.object members).chars = octet '\x7b' :: (encode (memberChars members) ++ [octet '\x7d']) := by
  rw [chars, encode_cons_ascii (by decide), encode_append]
  rfl

/-- What is left of a value behind its head. -/
def body : Json → Octets
  | .array items => encode (itemChars items) ++ [octet ']']
  | .object members => encode (memberChars members) ++ [octet '\x7d']
  | _ => []

/-- The head of a value is read, and its body is left. -/
theorem IsIntegral.readHead {v : Json} (h : v.IsIntegral) {rest : Octets} (hend : IsEnd rest) :
    Json.readHead (encode v.chars ++ rest) = .ok (v.head, v.body ++ rest) := by
  cases h with
  | null => rfl
  | boolean b => cases b <;> rfl
  | text t => exact readHead_text t rest
  | integer i hi => exact readHead_integer hi hend
  | array items =>
    rw [encode_array]
    rfl
  | object members =>
    rw [encode_object]
    rfl

/-! ## Arrays -/

theorem readItems_succ (fuel room : Nat) (acc : List Json) (s : Octets) :
    readItems (fuel + 1) room acc s = (readValue fuel room s).bind fun r =>
      goOn ']' (.array (r.1 :: acc).reverse) (readItems fuel room (r.1 :: acc)) r.2 := by
  rw [readItems]
  cases readValue fuel room s <;> rfl

/-- An array with items is read from the first of them, if there is room for its brackets. -/
theorem readValue_array {v : Json} (hv : v.IsIntegral) (items : List Json) (fuel room : Nat) (rest : Octets) :
    readValue (fuel + 1) room (encode (Json.array (v :: items)).chars ++ rest) =
      if room = 0 then .error .malformed
      else readItems fuel (room - 1) [] (encode (itemChars (v :: items)) ++ octet ']' :: rest) := by
  have hchars : encode (Json.array (v :: items)).chars ++ rest =
      octet '[' :: (encode (itemChars (v :: items)) ++ octet ']' :: rest) := by
    rw [encode_array, List.cons_append, List.append_assoc]
    rfl
  have hhead : ∀ s, readHead (octet '[' :: s) = .ok (.array, s) := fun _ => rfl
  have hbegins : ∃ b bs, encode (itemChars (v :: items)) = b :: bs ∧ isBlank b = false ∧ b ≠ octet ']' := by
    obtain ⟨b, bs, hcons, hblank, hne, -⟩ := hv.begins
    cases items with
    | nil => exact ⟨b, bs, by rw [itemChars]; exact hcons, hblank, hne⟩
    | cons w items =>
      refine ⟨b, bs ++ encode (',' :: itemChars (w :: items)), ?_, hblank, hne⟩
      rw [itemChars, encode_append, hcons]
      rfl
  obtain ⟨b, bs, hcons, hblank, hne⟩ := hbegins
  rw [hchars, readValue, hhead, hcons]
  simp only [bind, Except.bind]
  rw [List.cons_append, expect_other hblank hne]

/-- Items are read up to the closing bracket. -/
theorem readItems_chars {room : Nat} {items : List Json} (hne : items ≠ [])
    (h : ∀ v ∈ items, IsRead room v) (acc : List Json) (fuel : Nat) (rest : Octets)
    (hf : 2 * (encode (itemChars items)).length + 1 ≤ fuel) :
    readItems fuel room acc (encode (itemChars items) ++ octet ']' :: rest) =
      .ok (.array (acc.reverse ++ items), rest) := by
  induction items generalizing acc fuel with
  | nil => exact absurd rfl hne
  | cons v items ih =>
    obtain ⟨fuel, rfl⟩ : ∃ f, fuel = f + 1 := ⟨fuel - 1, by omega⟩
    have hv : IsRead room v := h v List.mem_cons_self
    cases items with
    | nil =>
      have hchars : itemChars [v] = v.chars := by rw [itemChars]
      rw [hchars] at hf ⊢
      have hread := hv fuel (octet ']' :: rest) (by omega) (.inr (.inl rfl))
      rw [readItems_succ, hread, Except.bind, goOn_close ']' (by decide) (by decide), List.reverse_cons]
    | cons w items =>
      have hchars : encode (itemChars (v :: w :: items)) =
          encode v.chars ++ octet ',' :: encode (itemChars (w :: items)) := by
        rw [itemChars, encode_append, encode_cons_ascii (by decide)]
      rw [hchars] at hf ⊢
      rw [List.length_append, List.length_cons] at hf
      rw [List.append_assoc, List.cons_append]
      have hread := hv fuel
        (octet ',' :: (encode (itemChars (w :: items)) ++ octet ']' :: rest)) (by omega) (.inl rfl)
      rw [readItems_succ, hread, Except.bind, goOn_comma]
      have hrest := ih (List.cons_ne_nil _ _) (fun u hu => h u (List.mem_cons_of_mem _ hu)) (v :: acc) fuel
        (by omega)
      rw [List.reverse_cons, List.append_assoc] at hrest
      exact hrest

/-! ## Objects -/

/-- A member with a new greatest key comes last. -/
theorem insert_eq_append {key : String} {v : Json} {acc : Members}
    (h : ∀ m ∈ acc, compare key m.1 = .gt) : acc.insert key v = acc ++ [(key, v)] := by
  induction acc with
  | nil => rfl
  | cons m acc ih =>
    obtain ⟨k, u⟩ := m
    have hgt := h (k, u) List.mem_cons_self
    rw [Members.insert]
    simp only [hgt]
    rw [ih fun m hm => h m (List.mem_cons_of_mem _ hm)]
    rfl

theorem encode_member (key : String) (cs : List Char) :
    encode (quoted key ++ ':' :: cs) =
      octet '"' :: (encode (key.toList.flatMap escape) ++ octet '"' :: octet ':' :: encode cs) := by
  rw [encode_append, encode_quoted, encode_cons_ascii (by decide), List.cons_append, List.append_assoc]
  rfl

theorem encode_memberChars_cons (m : String × Json) (members : Members) :
    ∃ bs, encode (memberChars (m :: members)) = octet '"' :: bs := by
  obtain ⟨key, v⟩ := m
  cases members with
  | nil => exact ⟨_, by rw [memberChars, encode_member]⟩
  | cons m' members => exact ⟨_, by rw [memberChars, List.append_assoc, List.cons_append, encode_member]⟩

/-- A member is read and added, whatever follows it, unless it comes first and has the key of a document. -/
theorem readMembers_member (fuel room : Nat) (acc : Members) (key : String) (s : Octets) :
    readMembers (fuel + 1) room acc (octet '"' ::
        (encode (key.toList.flatMap escape) ++ octet '"' :: octet ':' :: s)) =
      if acc.isEmpty && key == documentKey then readDocument fuel s
      else (readValue fuel room s).bind fun r => goOn '\x7d' (.object (acc.insert key r.1))
        (readMembers fuel room (acc.insert key r.1)) r.2 := by
  rw [readMembers, expect_self (by decide)]
  simp only [bind, Except.bind]
  rw [readString_escapes]
  simp only
  rw [expect_self (by decide)]
  rfl

/-- An object with members is read from the first of them, if there is room for its brackets. -/
theorem readValue_object (m : String × Json) (members : Members) (fuel room : Nat) (rest : Octets) :
    readValue (fuel + 1) room (encode (Json.object (m :: members)).chars ++ rest) =
      if room = 0 then .error .malformed
      else readMembers fuel (room - 1) [] (encode (memberChars (m :: members)) ++ octet '\x7d' :: rest) := by
  have hchars : encode (Json.object (m :: members)).chars ++ rest =
      octet '\x7b' :: (encode (memberChars (m :: members)) ++ octet '\x7d' :: rest) := by
    rw [encode_object, List.cons_append, List.append_assoc]
    rfl
  have hhead : ∀ s, readHead (octet '\x7b' :: s) = .ok (.object, s) := fun _ => rfl
  obtain ⟨bs, hcons⟩ := encode_memberChars_cons m members
  rw [hchars, readValue, hhead, hcons]
  simp only [bind, Except.bind]
  rw [List.cons_append, expect_other (by decide) (by decide)]

/-- Members are read up to the closing bracket, if their keys come after those before them. -/
theorem readMembers_chars {room : Nat} {members : Members} (hne : members ≠ [])
    (h : ∀ m ∈ members, IsRead room m.2) (acc : Members) (hascending : Ascending (acc ++ members))
    (hfirst : acc = [] → ∀ m ∈ members.head?, m.1 ≠ documentKey) (fuel : Nat) (rest : Octets)
    (hf : 2 * (encode (memberChars members)).length + 1 ≤ fuel) :
    readMembers fuel room acc (encode (memberChars members) ++ octet '\x7d' :: rest) =
      .ok (.object (acc ++ members), rest) := by
  induction members generalizing acc fuel with
  | nil => exact absurd rfl hne
  | cons m members ih =>
    obtain ⟨key, v⟩ := m
    obtain ⟨fuel, rfl⟩ : ∃ f, fuel = f + 1 := ⟨fuel - 1, by omega⟩
    have hv : IsRead room v := h (key, v) List.mem_cons_self
    have hkey : (acc.isEmpty && key == documentKey) = false := by
      cases acc with
      | nil => exact beq_eq_false_iff_ne.mpr (hfirst rfl (key, v) rfl)
      | cons => rfl
    have hinsert : acc.insert key v = acc ++ [(key, v)] :=
      insert_eq_append fun m hm => (List.pairwise_append.mp hascending).2.2 m hm _ List.mem_cons_self
    cases members with
    | nil =>
      have hchars : memberChars [(key, v)] = quoted key ++ ':' :: v.chars := by rw [memberChars]
      rw [hchars, encode_member] at hf ⊢
      simp only [List.length_cons, List.length_append] at hf
      have hread := hv fuel (octet '\x7d' :: rest) (by omega) (.inr (.inr rfl))
      simp only [List.cons_append, List.append_assoc]
      rw [readMembers_member, hkey, if_neg Bool.false_ne_true, hread, Except.bind,
        goOn_close '\x7d' (by decide) (by decide), hinsert]
    | cons m' members =>
      have hchars : memberChars ((key, v) :: m' :: members) =
          quoted key ++ ':' :: (v.chars ++ ',' :: memberChars (m' :: members)) := by
        rw [memberChars, List.append_assoc, List.cons_append]
      rw [hchars, encode_member, encode_append, encode_cons_ascii (by decide)] at hf ⊢
      simp only [List.length_cons, List.length_append] at hf
      have hread := hv fuel (octet ',' ::
        (encode (memberChars (m' :: members)) ++ octet '\x7d' :: rest)) (by omega) (.inl rfl)
      simp only [List.cons_append, List.append_assoc]
      rw [readMembers_member, hkey, if_neg Bool.false_ne_true, hread, Except.bind, goOn_comma, hinsert]
      have hrest := ih (List.cons_ne_nil _ _) (fun u hu => h u (List.mem_cons_of_mem _ hu))
        (acc ++ [(key, v)]) (by rw [List.append_assoc]; exact hascending)
        (fun hnil => absurd hnil (by simp only [List.append_eq_nil_iff, reduceCtorEq, and_false,
          not_false_eq_true])) fuel (by omega)
      rw [List.append_assoc] at hrest
      exact hrest

/-! ## All values -/

theorem isRead_array {room : Nat} {items : List Json} (hback : ∀ v ∈ items, ReadsBack room v)
    (h : ∀ v ∈ items, IsRead room v) : IsRead (room + 1) (.array items) := by
  intro fuel rest hf hend
  have hlength := congrArg List.length (encode_array items)
  simp only [List.length_cons, List.length_append, List.length_nil] at hlength
  obtain ⟨fuel, rfl⟩ : ∃ f, fuel = f + 1 := ⟨fuel - 1, by omega⟩
  cases items with
  | nil => rfl
  | cons v items =>
    rw [readValue_array (hback v List.mem_cons_self).isIntegral, if_neg (Nat.add_one_ne_zero room)]
    exact readItems_chars (List.cons_ne_nil v items) h [] fuel rest (by omega)

theorem isRead_object {room : Nat} {members : Members} (hascending : Ascending members)
    (hfirst : ∀ m ∈ members.head?, m.1 ≠ documentKey) (h : ∀ m ∈ members, IsRead room m.2) :
    IsRead (room + 1) (.object members) := by
  intro fuel rest hf hend
  have hlength := congrArg List.length (encode_object members)
  simp only [List.length_cons, List.length_append, List.length_nil] at hlength
  obtain ⟨fuel, rfl⟩ : ∃ f, fuel = f + 1 := ⟨fuel - 1, by omega⟩
  cases members with
  | nil => rfl
  | cons m members =>
    rw [readValue_object, if_neg (Nat.add_one_ne_zero room)]
    exact readMembers_chars (List.cons_ne_nil m members) h [] hascending (fun _ => hfirst) fuel rest (by omega)

/-- A scalar is read with its head. -/
theorem isRead_scalar {room : Nat} {v : Json}
    (h : ∀ rest, IsEnd rest → readHead (encode v.chars ++ rest) = .ok (v.head, rest))
    (hlength : 0 < (encode v.chars).length)
    (hvalue : ∀ head rest, head = v.head → ∀ fuel s, readHead s = .ok (head, rest) →
      readValue (fuel + 1) room s = .ok (v, rest)) : IsRead room v := by
  intro fuel rest hf hend
  obtain ⟨fuel, rfl⟩ : ∃ f, fuel = f + 1 := ⟨fuel - 1, by omega⟩
  exact hvalue v.head rest rfl fuel _ (h rest hend)

/-- **A value that was written is read back.** -/
theorem ReadsBack.isRead {room : Nat} {v : Json} (h : ReadsBack room v) : IsRead room v := by
  have hpos : 0 < (encode v.chars).length := by
    obtain ⟨b, bs, hcons, -⟩ := h.isIntegral.begins
    rw [hcons]
    exact Nat.succ_pos _
  induction h with
  | null room =>
    refine isRead_scalar (fun _ _ => rfl) hpos fun head rest hh fuel s hs => ?_
    subst hh
    rw [readValue, hs]
    rfl
  | boolean room b =>
    refine isRead_scalar (fun _ _ => by cases b <;> rfl) hpos fun head rest hh fuel s hs => ?_
    subst hh
    rw [readValue, hs]
    rfl
  | text room t =>
    refine isRead_scalar (fun rest _ => readHead_text t rest) hpos fun head rest hh fuel s hs => ?_
    subst hh
    rw [readValue, hs]
    rfl
  | integer room i hi =>
    refine isRead_scalar (fun rest hend => readHead_integer hi hend) hpos fun head rest hh fuel s hs => ?_
    subst hh
    rw [readValue, hs]
    rfl
  | array room items h ih =>
    refine isRead_array h fun v hv => ih v hv ?_
    obtain ⟨b, bs, hcons, -⟩ := (h v hv).isIntegral.begins
    rw [hcons]
    exact Nat.succ_pos _
  | object room members hascending hfirst h ih =>
    refine isRead_object hascending hfirst fun m hm => ih m hm ?_
    obtain ⟨b, bs, hcons, -⟩ := (h m hm).isIntegral.begins
    rw [hcons]
    exact Nat.succ_pos _

/-- **A text that was written is read back.** -/
theorem ofString_write {v : Json} (h : ReadsBack maxDepth v) : ofString v.write = .ok v := by
  rw [ofString, write, octetsOf_ofList, ofOctets, finish]
  have hread := h.isRead (fuelFor (encode v.chars)) [] (Nat.le_add_right ..) trivial
  rw [List.append_nil] at hread
  simp only [bind, Except.bind, hread]
  rfl

end PaymentRelay.Json
