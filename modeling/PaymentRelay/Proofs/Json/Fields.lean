import PaymentRelay.Proofs.Json.Readings

/-!
# What reading a record keeps

A record is read field by field, from a text or from a value. What holds of the draft without a field and is kept
by every field that is put in holds of every draft on the way, and so of the record (`Schema.Keeps.ofValue`,
`Schema.Keeps.ofOctets`): neither the order of the members, nor the ones that are passed over, nor the brackets matter.
-/

namespace PaymentRelay.Json

variable {ρ α β : Type} {I : ρ → Prop} {J : α → Prop}

/-- A field keeps a property of drafts, from wherever it is taken. -/
structure Field.Keeps (I : ρ → Prop) (field : Field ρ) : Prop where
  read : ∀ room s put rest, field.read room s = .ok (put, rest) → ∀ d, I d → I (put d)
  ofValue : ∀ v put, field.ofValue v = .ok put → ∀ d, I d → I (put d)

/-- The fields of a schema keep a property of drafts, and a record made of such a draft has a property. -/
structure Schema.Keeps (I : ρ → Prop) (J : α → Prop) (schema : Schema ρ α) : Prop where
  blank : I schema.blank
  fields : ∀ field ∈ schema.fields, field.Keeps I
  complete : ∀ d a, I d → schema.complete? d = some a → J a

/-- A field that goes by the head keeps what every head that it accepts keeps. -/
theorem Field.Keeps.ofHead {name : String} {get : ρ → Option β} {put : β → ρ → ρ} {accept : Head → Except Problem β}
    (hput : ∀ h b, accept h = .ok b → ∀ d, I d → I (put b d)) : (Field.ofHead name get put accept).Keeps I where
  read _ s p rest h := by
    obtain ⟨⟨head, s'⟩, -, h⟩ := bind_eq_ok.mp h
    obtain ⟨b, hb, h⟩ := bind_eq_ok.mp h
    cases h
    exact hput head b hb
  ofValue v p h := by
    obtain ⟨b, hb, rfl⟩ := map_eq_ok.mp h
    exact hput v.head b hb

/-! ## From a value -/

theorem fillElements_keeps {fields : List (Field ρ)} (hfields : ∀ field ∈ fields, field.Keeps I) {items : List Json}
    {d d' : ρ} (hd : I d) (h : fillElements fields items d = .ok d') : I d' := by
  induction fields generalizing items d with
  | nil =>
    cases items with
    | nil => cases h; exact hd
    | cons v vs => cases h
  | cons field fields ih =>
    cases items with
    | nil => cases h
    | cons v vs =>
      obtain ⟨put, hput, h⟩ := bind_eq_ok.mp h
      exact ih (fun f hf => hfields f (List.mem_cons_of_mem _ hf))
        ((hfields field List.mem_cons_self).ofValue v put hput d hd) h

theorem fillNamed_keeps {fields : List (Field ρ)} (hfields : ∀ field ∈ fields, field.Keeps I) {members : Members}
    {d d' : ρ} (hd : I d) (h : fillNamed fields members d = .ok d') : I d' := by
  induction members generalizing d with
  | nil => cases h; exact hd
  | cons m members ih =>
    obtain ⟨key, v⟩ := m
    rw [fillNamed] at h
    split at h
    next => exact ih hd h
    next field hfield =>
      split at h
      next => cases h
      next =>
        obtain ⟨put, hput, h⟩ := bind_eq_ok.mp h
        exact ih ((hfields field (List.mem_of_find?_eq_some hfield)).ofValue v put hput d hd) h

namespace Schema.Keeps

variable {schema : Schema ρ α} {a : α}

theorem close (h : schema.Keeps I J) {d : ρ} (hd : I d) (hclose : schema.close d = .ok a) : J a := by
  unfold Schema.close at hclose
  split at hclose
  next a' ha =>
    cases hclose
    exact h.complete d _ hd ha
  next => cases hclose

/-- **A record that is taken from a value has the property.** -/
theorem ofValue (h : schema.Keeps I J) {v : Json} (hread : schema.ofValue v = .ok a) : J a := by
  cases v with
  | array items =>
    obtain ⟨d, hd, hclose⟩ := bind_eq_ok.mp hread
    exact h.close (fillElements_keeps h.fields h.blank hd) hclose
  | object members =>
    obtain ⟨d, hd, hclose⟩ := bind_eq_ok.mp hread
    exact h.close (fillNamed_keeps h.fields h.blank hd) hclose
  | null | boolean | number | text => cases hread

/-! ## From a text -/

/-- A schema goes along with itself, and the property goes along. -/
theorem mirrors (h : schema.Keeps I J) :
    schema.Mirrors (fun d e => d = e ∧ I d) (fun a b => a = b ∧ J a) schema where
  blank := ⟨rfl, h.blank⟩
  fields := by
    refine List.forall₂_same.mpr fun field hfield => ⟨rfl, ?_, fun room s put rest hread => ⟨put, hread, ?_⟩⟩
    · rintro d _ ⟨rfl, -⟩
      rfl
    · rintro d _ ⟨rfl, hd⟩
      exact ⟨rfl, (h.fields field hfield).read room s put rest hread d hd⟩
  complete := by
    rintro d _ a ⟨rfl, hd⟩ ha
    exact ⟨a, ha, rfl, h.complete d a hd ha⟩

/-- **A record that is read from a whole text has the property.** -/
theorem ofOctets (h : schema.Keeps I J) {s : Octets} (hread : schema.ofOctets s = .ok a) : J a := by
  obtain ⟨_, -, rfl, hJ⟩ := h.mirrors.ofOctets hread
  exact hJ

end Schema.Keeps

end PaymentRelay.Json
