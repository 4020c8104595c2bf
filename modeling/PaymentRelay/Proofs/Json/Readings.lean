import Mathlib.Data.List.Forall2
import PaymentRelay.Json.Record

/-!
# Two readings of one text

One text can be read as two records: with what its members mean, and with what they look like. If the fields of
one schema go along with those of another (`Field.Mirrors`), in the same order and under the same names, then
whatever the first schema reads the second one reads too, and the two records correspond
(`Schema.Mirrors.ofOctets`). The text decides about members, repetitions and the end in the same way for both.
-/

namespace PaymentRelay.Json

variable {ρ σ α β γ δ : Type}

/-- What is read in two steps is read in both. -/
theorem bind_eq_ok {ε : Type} {x : Except ε α} {f : α → Except ε β} {b : β} :
    (x >>= f) = .ok b ↔ ∃ a, x = .ok a ∧ f a = .ok b := by
  refine ⟨fun h => ?_, fun h => ?_⟩
  · cases x with
    | error problem => cases h
    | ok a => exact ⟨a, rfl, h⟩
  · obtain ⟨a, rfl, h⟩ := h
    exact h

theorem map_eq_ok {x : Except Problem α} {f : α → β} {b : β} : x.map f = .ok b ↔ ∃ a, x = .ok a ∧ f a = b := by
  refine ⟨fun h => ?_, fun h => ?_⟩
  · cases x with
    | error problem => cases h
    | ok a => exact ⟨a, rfl, Except.ok.inj h⟩
  · obtain ⟨a, rfl, rfl⟩ := h
    rfl

/-- Whatever one reader reads the other one reads too, and both leave the same rest of the text. -/
def Mirrors (S : α → β → Prop) (read : Reader α) (read' : Reader β) : Prop :=
  ∀ s a rest, read s = .ok (a, rest) → ∃ b, read' s = .ok (b, rest) ∧ S a b

/-- A field goes along with another one: corresponding drafts stay so. -/
structure Field.Mirrors (R : ρ → σ → Prop) (field : Field ρ) (field' : Field σ) : Prop where
  name_eq : field.name = field'.name
  isFilled_eq : ∀ d e, R d e → field.isFilled d = field'.isFilled e
  read : ∀ room, Json.Mirrors (fun put put' => ∀ d e, R d e → R (put d) (put' e)) (field.read room) (field'.read room)

/-- A schema goes along with another one. -/
structure Schema.Mirrors (R : ρ → σ → Prop) (S : α → β → Prop) (schema : Schema ρ α) (schema' : Schema σ β) :
    Prop where
  blank : R schema.blank schema'.blank
  fields : List.Forall₂ (Field.Mirrors R) schema.fields schema'.fields
  complete : ∀ d e a, R d e → schema.complete? d = some a → ∃ b, schema'.complete? e = some b ∧ S a b

section

variable {R : ρ → σ → Prop} {fields : List (Field ρ)} {fields' : List (Field σ)}

/-- Two fields that go by the head of a value go along if they accept the same. -/
theorem Field.Mirrors.ofHead {name : String} {get : ρ → Option γ} {get' : σ → Option γ} {put : γ → ρ → ρ}
    {put' : γ → σ → σ} (accept : Head → Except Problem γ) (hget : ∀ d e, R d e → get d = get' e)
    (hput : ∀ c d e, R d e → R (put c d) (put' c e)) :
    Field.Mirrors R (.ofHead name get put accept) (.ofHead name get' put' accept) where
  name_eq := rfl
  isFilled_eq d e h := congrArg Option.isSome (hget d e h)
  read _ s p rest h := by
    obtain ⟨⟨head, s₁⟩, hhead, h⟩ := bind_eq_ok.mp h
    obtain ⟨c, hc, h⟩ := bind_eq_ok.mp h
    cases h
    refine ⟨put' c, ?_, hput c⟩
    simp only [Field.ofHead, bind, Except.bind, hhead, hc]
    rfl

/-- Under a name both records have a field, or neither has. -/
theorem find?_mirrors (h : List.Forall₂ (Field.Mirrors R) fields fields') (key : String) :
    fields.find? (·.name == key) = none ∧ fields'.find? (·.name == key) = none ∨
      ∃ field field', fields.find? (·.name == key) = some field ∧ fields'.find? (·.name == key) = some field' ∧
        field.Mirrors R field' := by
  induction h with
  | nil => exact .inl ⟨rfl, rfl⟩
  | @cons field field' _ _ hfield _ ih =>
    simp only [List.find?_cons, ← hfield.name_eq]
    cases field.name == key with
    | true => exact .inr ⟨field, field', rfl, rfl, hfield⟩
    | false => exact ih

theorem readElements_cons (room : Nat) (field : Field ρ) (fields : List (Field ρ)) (first : Bool) (draft : ρ)
    (s : Octets) :
    readElements room (field :: fields) first draft s = match expect ']' s with
      | .ok _ => .error .mismatch
      | .error _ => (do
        let rest ← (if first then .ok s else expect ',' s)
        let (put, rest) ← field.read room rest
        readElements room fields false (put draft) rest) := by
  rw [readElements]
  cases expect ']' s with
  | ok rest => rfl
  | error problem => cases first <;> rfl

theorem readElements_mirrors (h : List.Forall₂ (Field.Mirrors R) fields fields') (room : Nat) {first : Bool} {d : ρ}
    {e : σ} (hR : R d e) : Json.Mirrors R (readElements room fields first d) (readElements room fields' first e) := by
  induction h generalizing first d e with
  | nil =>
    intro s d' rest hread
    obtain ⟨s₁, hs₁, hread⟩ := bind_eq_ok.mp hread
    cases hread
    exact ⟨e, bind_eq_ok.mpr ⟨_, hs₁, rfl⟩, hR⟩
  | cons hfield _ ih =>
    intro s d' rest hread
    rw [readElements_cons] at hread
    split at hread
    next => cases hread
    next hopen =>
      obtain ⟨s₁, hs₁, hread⟩ := bind_eq_ok.mp hread
      obtain ⟨⟨put, s₂⟩, hput, hread⟩ := bind_eq_ok.mp hread
      obtain ⟨put', hput', hkeeps⟩ := hfield.read room _ _ _ hput
      obtain ⟨e', he', hR'⟩ := ih (hkeeps d e hR) _ _ _ hread
      refine ⟨e', ?_, hR'⟩
      rw [readElements_cons, hopen]
      exact bind_eq_ok.mpr ⟨_, hs₁, bind_eq_ok.mpr ⟨_, hput', he'⟩⟩

/-- One member behind its key: it is skipped, refused, or put into the draft. -/
def readMember (room : Nat) (fields : List (Field ρ)) (key : String) (draft : ρ) : Reader ρ := fun s =>
  match fields.find? (·.name == key) with
  | none => do
    let rest ← expect ':' s
    pure (draft, ← skipValue rest)
  | some field =>
    if field.isFilled draft then .error .mismatch
    else do
      let rest ← expect ':' s
      let (put, rest) ← field.read room rest
      pure (put draft, rest)

/-- What follows a member: another one, or the end. -/
def readFurther (room : Nat) (fields : List (Field ρ)) (fuel : Nat) (draft : ρ) : Reader ρ := fun s =>
  match expect ',' s with
  | .ok rest => readNamed room fields fuel draft rest
  | .error _ => do
    let rest ← expect '\x7d' s
    return (draft, rest)

theorem readNamed_succ (room : Nat) (fields : List (Field ρ)) (fuel : Nat) (draft : ρ) (s : Octets) :
    readNamed room fields (fuel + 1) draft s = (do
      let rest ← expect '"' s
      let (key, rest) ← readString rest
      let (draft, rest) ← readMember room fields key draft rest
      readFurther room fields fuel draft rest) := by
  rw [readNamed]
  cases expect '"' s with
  | error problem => rfl
  | ok rest =>
    simp only [bind, Except.bind]
    cases readString rest with
    | error problem => rfl
    | ok found =>
      obtain ⟨key, rest⟩ := found
      simp only [readMember, bind, Except.bind]
      cases fields.find? (·.name == key) with
      | none =>
        cases expect ':' rest with
        | error problem => rfl
        | ok rest => dsimp only; cases skipValue rest <;> rfl
      | some field =>
        dsimp only
        split
        next => rfl
        next =>
          cases expect ':' rest with
          | error problem => rfl
          | ok rest => dsimp only; cases field.read room rest <;> rfl

theorem readMember_mirrors (h : List.Forall₂ (Field.Mirrors R) fields fields') (room : Nat) (key : String) {d : ρ}
    {e : σ} (hR : R d e) : Json.Mirrors R (readMember room fields key d) (readMember room fields' key e) := by
  intro s d' rest hread
  rcases find?_mirrors h key with ⟨hnone, hnone'⟩ | ⟨field, field', hsome, hsome', hfield⟩
  · simp only [readMember, hnone] at hread
    obtain ⟨s₁, hs₁, hread⟩ := bind_eq_ok.mp hread
    obtain ⟨s₂, hs₂, hread⟩ := bind_eq_ok.mp hread
    cases hread
    refine ⟨e, ?_, hR⟩
    simp only [readMember, hnone']
    exact bind_eq_ok.mpr ⟨_, hs₁, bind_eq_ok.mpr ⟨_, hs₂, rfl⟩⟩
  · simp only [readMember, hsome] at hread
    split at hread
    next => cases hread
    next hblank =>
      obtain ⟨s₁, hs₁, hread⟩ := bind_eq_ok.mp hread
      obtain ⟨⟨put, s₂⟩, hput, hread⟩ := bind_eq_ok.mp hread
      cases hread
      obtain ⟨put', hput', hkeeps⟩ := hfield.read room _ _ _ hput
      refine ⟨put' e, ?_, hkeeps d e hR⟩
      simp only [readMember, hsome', ← hfield.isFilled_eq d e hR, hblank]
      exact bind_eq_ok.mpr ⟨_, hs₁, bind_eq_ok.mpr ⟨_, hput', rfl⟩⟩

theorem readNamed_mirrors (h : List.Forall₂ (Field.Mirrors R) fields fields') (room fuel : Nat) {d : ρ} {e : σ}
    (hR : R d e) : Json.Mirrors R (readNamed room fields fuel d) (readNamed room fields' fuel e) := by
  induction fuel generalizing d e with
  | zero => exact fun s d' rest hread => by cases hread
  | succ fuel ih =>
    intro s d' rest hread
    rw [readNamed_succ] at hread
    obtain ⟨s₁, hs₁, hread⟩ := bind_eq_ok.mp hread
    obtain ⟨⟨key, s₂⟩, hs₂, hread⟩ := bind_eq_ok.mp hread
    obtain ⟨⟨d₁, s₃⟩, hmember, hread⟩ := bind_eq_ok.mp hread
    obtain ⟨e₁, hmember', hR₁⟩ := readMember_mirrors h room key hR _ _ _ hmember
    obtain ⟨e', hfurther, hR'⟩ : ∃ e', readFurther room fields' fuel e₁ s₃ = .ok (e', rest) ∧ R d' e' := by
      unfold readFurther at hread ⊢
      dsimp only at hread ⊢
      split at hread
      next s₄ hcomma => exact ih hR₁ _ _ _ hread
      next hend =>
        obtain ⟨s₄, hs₄, hread⟩ := bind_eq_ok.mp hread
        cases hread
        exact ⟨e₁, bind_eq_ok.mpr ⟨_, hs₄, rfl⟩, hR₁⟩
    refine ⟨e', ?_, hR'⟩
    rw [readNamed_succ]
    exact bind_eq_ok.mpr ⟨_, hs₁, bind_eq_ok.mpr ⟨_, hs₂, bind_eq_ok.mpr ⟨_, hmember', hfurther⟩⟩⟩

end

namespace Schema.Mirrors

variable {R : ρ → σ → Prop} {S : α → β → Prop} {schema : Schema ρ α} {schema' : Schema σ β}

theorem close (h : schema.Mirrors R S schema') {d : ρ} {e : σ} (hR : R d e) {a : α} (hclose : schema.close d = .ok a) :
    ∃ b, schema'.close e = .ok b ∧ S a b := by
  unfold Schema.close at hclose ⊢
  split at hclose
  next a' ha =>
    cases hclose
    obtain ⟨b, hb, hS⟩ := h.complete d e _ hR ha
    exact ⟨b, by rw [hb], hS⟩
  next => cases hclose

theorem read (h : schema.Mirrors R S schema') (room : Nat) : Json.Mirrors S (schema.read room) (schema'.read room) := by
  intro s a rest hread
  obtain ⟨⟨head, s₁⟩, hhead, hread⟩ := bind_eq_ok.mp hread
  unfold Schema.read
  simp only [bind, Except.bind, hhead]
  cases head with
  | array =>
    obtain ⟨⟨d, s₂⟩, helements, hread⟩ := bind_eq_ok.mp hread
    obtain ⟨a', hclose, hread⟩ := bind_eq_ok.mp hread
    cases hread
    obtain ⟨e, helements', hR⟩ := readElements_mirrors h.fields _ h.blank _ _ _ helements
    obtain ⟨b, hclose', hS⟩ := h.close hR hclose
    exact ⟨b, by simp only [helements', hclose']; rfl, hS⟩
  | object =>
    dsimp only at hread ⊢
    split at hread
    next s₂ hempty =>
      obtain ⟨a', hclose, hread⟩ := bind_eq_ok.mp hread
      cases hread
      obtain ⟨b, hclose', hS⟩ := h.close h.blank hclose
      exact ⟨b, by simp only [hclose']; rfl, hS⟩
    next hmembers =>
      obtain ⟨⟨d, s₂⟩, hnamed, hread⟩ := bind_eq_ok.mp hread
      obtain ⟨a', hclose, hread⟩ := bind_eq_ok.mp hread
      cases hread
      obtain ⟨e, hnamed', hR⟩ := readNamed_mirrors h.fields _ _ h.blank _ _ _ hnamed
      obtain ⟨b, hclose', hS⟩ := h.close hR hclose
      exact ⟨b, by simp only [hnamed', hclose']; rfl, hS⟩
  | null => cases hread
  | boolean => cases hread
  | number => cases hread
  | text => cases hread

/-- **What one schema reads from a whole text the other one reads too.** -/
theorem ofOctets (h : schema.Mirrors R S schema') {s : Octets} {a : α} (hread : schema.ofOctets s = .ok a) :
    ∃ b, schema'.ofOctets s = .ok b ∧ S a b := by
  obtain ⟨⟨a', rest⟩, hvalue, hread⟩ := bind_eq_ok.mp hread
  obtain ⟨b, hvalue', hS⟩ := h.read maxDepth _ _ _ hvalue
  refine ⟨b, bind_eq_ok.mpr ⟨_, hvalue', ?_⟩, ?_⟩
  all_goals
    dsimp only at hread ⊢
    split at hread
    next hend => first | (rw [if_pos hend]; rfl) | (cases hread; exact hS)
    next => cases hread

end Schema.Mirrors

end PaymentRelay.Json
