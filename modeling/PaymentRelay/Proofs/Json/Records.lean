import PaymentRelay.Json.Record
import PaymentRelay.Proofs.Json.Values

/-!
# Records that are written are read back

A schema reads records in two ways, from a text and from a value. On a text that was written the two
agree: whatever the value gives, be it a record or a problem, the text gives too (`Schema.ofOctets_chars`).
So a round trip through text is settled on values, where reading is looking up members.

The members of the text have to be fields of the schema; unknown ones are skipped without being read and
are left out here.
-/

namespace PaymentRelay.Json

variable {ρ α β : Type}

/-- A field is read from the text of a value as it is taken from the value. -/
def Field.Agrees (field : Field ρ) (room : Nat) (v : Json) : Prop :=
  ∀ rest, IsEnd rest →
    field.read room (encode v.chars ++ rest) = (field.ofValue v).map fun put => (put, rest)

/-- The values that are all head. -/
def IsScalar : Json → Prop
  | .array _ | .object _ => False
  | _ => True

/-- The head of a scalar is read with nothing left of the scalar. -/
theorem ReadsBack.readHead {room : Nat} {v : Json} (h : ReadsBack room v) (hs : v.IsScalar)
    {rest : Octets} (hend : IsEnd rest) : Json.readHead (encode v.chars ++ rest) = .ok (v.head, rest) := by
  have hread := h.isIntegral.readHead hend
  cases v with
  | array => exact hs.elim
  | object => exact hs.elim
  | null | boolean | number | text => exact hread

/-- A field that goes by the head agrees on scalars. -/
theorem Field.agrees_ofHead {name : String} {get : ρ → Option β} {put : β → ρ → ρ}
    {accept : Head → Except Problem β} {room : Nat} {v : Json} (h : ReadsBack room v)
    (hs : v.IsScalar) (room' : Nat) : (Field.ofHead name get put accept).Agrees room' v := by
  intro rest hend
  simp only [Field.ofHead, bind, Except.bind, h.readHead hs hend]
  cases accept v.head <;> rfl

/-- A field that takes any value agrees on all that come back. -/
theorem Field.agrees_untyped {name : String} {get : ρ → Option Json} {put : Json → ρ → ρ} {room : Nat}
    {v : Json} (h : ReadsBack room v) : (Field.untyped name get put).Agrees room v := by
  intro rest hend
  have hfuel : 2 * (encode v.chars).length ≤ fuelFor (encode v.chars ++ rest) := by
    rw [fuelFor, List.length_append]
    omega
  simp only [Field.untyped, h.isRead _ rest hfuel hend]
  rfl

/-- Each member takes an octet at least. -/
theorem length_le_memberChars (members : Members) :
    members.length ≤ (encode (memberChars members)).length := by
  induction members with
  | nil => exact Nat.zero_le _
  | cons m members ih =>
    obtain ⟨key, v⟩ := m
    cases members with
    | nil =>
      rw [memberChars, encode_member, List.length_cons]
      exact Nat.succ_le_succ (Nat.zero_le _)
    | cons m' members =>
      rw [memberChars, List.append_assoc, List.cons_append, encode_member, encode_append,
        encode_cons_ascii (by decide)]
      simp only [List.length_cons, List.length_append] at ih ⊢
      omega

/-- A member of a field is refused, or read and put into the draft, before what follows it is looked at. -/
theorem readNamed_member {fields : List (Field ρ)} {key : String} {field : Field ρ}
    (hfind : fields.find? (·.name == key) = some field) (room fuel : Nat) (draft : ρ) (s : Octets) :
    readNamed room fields (fuel + 1) draft (octet '"' ::
        (encode (key.toList.flatMap escape) ++ octet '"' :: octet ':' :: s)) =
      if field.isFilled draft then .error .mismatch
      else (field.read room s).bind fun r =>
        goOn '\x7d' (r.1 draft) (readNamed room fields fuel (r.1 draft)) r.2 := by
  rw [readNamed, expect_self (by decide)]
  simp only [bind, Except.bind]
  rw [readString_escapes]
  simp only [hfind]
  split
  · rfl
  · rw [expect_self (by decide)]
    dsimp only
    cases field.read room s <;> rfl

/-- Members that were written are read into a draft as members of a value are. -/
theorem readNamed_chars {fields : List (Field ρ)} {room : Nat} {members : Members}
    (hne : members ≠ [])
    (hknown : ∀ m ∈ members, ∃ field, fields.find? (·.name == m.1) = some field ∧ field.Agrees room m.2)
    (draft : ρ) (fuel : Nat) (hf : members.length ≤ fuel) (rest : Octets) :
    readNamed room fields fuel draft (encode (memberChars members) ++ octet '\x7d' :: rest) =
      (fillNamed fields members draft).map fun draft => (draft, rest) := by
  induction members generalizing draft fuel with
  | nil => exact absurd rfl hne
  | cons m members ih =>
    obtain ⟨key, v⟩ := m
    obtain ⟨field, hfind, hagrees⟩ := hknown (key, v) List.mem_cons_self
    obtain ⟨fuel, rfl⟩ : ∃ f, fuel = f + 1 := ⟨fuel - 1, by rw [List.length_cons] at hf; omega⟩
    have hstep : ∀ s, IsEnd s → readNamed room fields (fuel + 1) draft (octet '"' ::
        (encode (key.toList.flatMap escape) ++ octet '"' :: octet ':' :: (encode v.chars ++ s))) =
        if field.isFilled draft then .error .mismatch
        else (field.ofValue v).bind fun put =>
          goOn '\x7d' (put draft) (readNamed room fields fuel (put draft)) s := by
      intro s hend
      rw [readNamed_member hfind, hagrees s hend]
      cases field.ofValue v <;> rfl
    cases members with
    | nil =>
      have hchars : memberChars [(key, v)] = quoted key ++ ':' :: v.chars := by rw [memberChars]
      rw [hchars, encode_member]
      simp only [List.cons_append, List.append_assoc]
      have hend : IsEnd (octet '\x7d' :: rest) := .inr (.inr rfl)
      rw [hstep _ hend, fillNamed]
      simp only [hfind, goOn_close '\x7d' (by decide) (by decide)]
      split
      · rfl
      · cases field.ofValue v <;> rfl
    | cons m' members =>
      have hchars : memberChars ((key, v) :: m' :: members) =
          quoted key ++ ':' :: (v.chars ++ ',' :: memberChars (m' :: members)) := by
        rw [memberChars, List.append_assoc, List.cons_append]
      rw [hchars, encode_member, encode_append, encode_cons_ascii (by decide)]
      simp only [List.cons_append, List.append_assoc]
      have hend : IsEnd (octet ',' :: (encode (memberChars (m' :: members)) ++ octet '\x7d' :: rest)) := .inl rfl
      rw [hstep _ hend, fillNamed]
      simp only [hfind, goOn_comma]
      split
      · rfl
      · cases field.ofValue v with
        | error problem => rfl
        | ok put =>
          exact ih (List.cons_ne_nil _ _) (fun u hu => hknown u (List.mem_cons_of_mem _ hu)) (put draft) fuel
            (Nat.le_of_succ_le_succ hf)

/-- A record whose object has members is read from the first of them. -/
theorem Schema.read_object (schema : Schema ρ α) (m : String × Json) (members : Members) (room : Nat)
    (rest : Octets) :
    schema.read room (encode (Json.object (m :: members)).chars ++ rest) =
      (readNamed (room - 1) schema.fields (fuelFor (encode (Json.object (m :: members)).chars ++ rest))
        schema.blank (encode (memberChars (m :: members)) ++ octet '\x7d' :: rest)).bind fun r =>
          (schema.close r.1).map fun a => (a, r.2) := by
  have hchars : encode (Json.object (m :: members)).chars ++ rest =
      octet '\x7b' :: (encode (memberChars (m :: members)) ++ octet '\x7d' :: rest) := by
    rw [encode_object, List.cons_append, List.append_assoc]
    rfl
  have hhead : ∀ s, readHead (octet '\x7b' :: s) = .ok (.object, s) := fun _ => rfl
  obtain ⟨bs, hcons⟩ := encode_memberChars_cons m members
  rw [hchars, Schema.read, hhead, hcons]
  simp only [bind, Except.bind]
  rw [List.cons_append, expect_other (by decide) (by decide)]
  dsimp only
  cases readNamed _ _ _ _ _ with
  | error problem => rfl
  | ok r =>
    dsimp only
    cases schema.close r.1 <;> rfl

/-- **A record that was written is read as it is taken from its value.** -/
theorem Schema.ofOctets_chars {schema : Schema ρ α} {members : Members}
    (hknown : ∀ m ∈ members, ∃ field, schema.fields.find? (·.name == m.1) = some field ∧
      field.Agrees (maxDepth - 1) m.2) :
    schema.ofOctets (encode (Json.object members).chars) = schema.ofValue (.object members) := by
  cases members with
  | nil =>
    have hempty : schema.read maxDepth (encode (Json.object []).chars) =
        (schema.close schema.blank).map fun a => (a, []) := by
      show (schema.close schema.blank).bind (fun a => .ok (a, [])) = _
      cases schema.close schema.blank <;> rfl
    rw [Schema.ofOctets, finish, hempty]
    simp only [Schema.ofValue, fillNamed, bind, Except.bind]
    cases schema.close schema.blank <;> rfl
  | cons m members =>
    have hfuel : (m :: members).length ≤ fuelFor (encode (Json.object (m :: members)).chars ++ []) := by
      have hle := length_le_memberChars (m :: members)
      rw [encode_object]
      simp only [fuelFor, List.length_cons, List.length_append] at hle ⊢
      omega
    have hread := readNamed_chars (List.cons_ne_nil m members) hknown schema.blank _ hfuel []
    rw [Schema.ofOctets, finish, ← List.append_nil (encode _), Schema.read_object, hread]
    simp only [Schema.ofValue, bind, Except.bind]
    cases fillNamed schema.fields (m :: members) schema.blank with
    | error problem => rfl
    | ok draft =>
      simp only [Except.map]
      cases schema.close draft <;> rfl

end PaymentRelay.Json
