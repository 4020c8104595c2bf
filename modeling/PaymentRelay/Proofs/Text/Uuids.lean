import PaymentRelay.Uuid

/-!
# Uuids that are written are read back

A uuid is written in one form out of the four that are read. The reader tells that form from the others by
its length and its first character, takes the hyphens out and finds the 32 digits of the number. So no two
uuids have one text.
-/

namespace PaymentRelay.Uuid

/-! ## Digits -/

/-- A digit that was written has its value. -/
theorem hexValue?_digitChar : ∀ d, d < 16 → hexValue? d.digitChar = some d := by decide

theorem hexNumber?_append (n : Nat) (cs ds : List Char) :
    hexNumber? n (cs ++ ds) = (hexNumber? n cs).bind fun m => hexNumber? m ds := by
  induction cs generalizing n with
  | nil => rfl
  | cons c cs ih =>
    rw [List.cons_append, hexNumber?, hexNumber?, Option.bind_assoc]
    exact congrArg _ (funext fun d => ih _)

theorem hexNumber?_zeros (k : Nat) : hexNumber? 0 (List.replicate k '0') = some 0 := by
  induction k with
  | zero => rfl
  | succ k ih => exact ih

/-- The shortest digits of a number denote it. -/
theorem hexNumber?_toDigits (n : Nat) : hexNumber? 0 (Nat.toDigits 16 n) = some n := by
  induction n using Nat.strongRecOn with
  | ind n ih =>
    -- all digits but the last are those of the sixteenth part
    rw [Nat.toDigits_eq_if (by decide)]
    split
    next hlt =>
      rw [hexNumber?, hexValue?_digitChar n hlt, Option.bind_some, hexNumber?, Nat.zero_mul, Nat.zero_add]
    next hge =>
      have hlt : n / 16 < n := Nat.div_lt_self (by omega) (by decide)
      rw [hexNumber?_append, ih _ hlt, Option.bind_some, hexNumber?,
        hexValue?_digitChar _ (Nat.mod_lt _ (by decide)), Option.bind_some, hexNumber?]
      congr 1
      omega

/-- The digits of a number denote it, however many there are. -/
theorem hexNumber?_hexDigits (width n : Nat) : hexNumber? 0 (hexDigits width n) = some n := by
  rw [hexDigits, hexNumber?_append, hexNumber?_zeros, Option.bind_some, hexNumber?_toDigits]

/-- The digits of a uuid are exactly as many as are wanted. -/
theorem length_hexDigits (u : Uuid) : (hexDigits 32 u.number).length = 32 := by
  have hle := (Nat.length_toDigits_le_iff (b := 16) (k := 32) (by decide) (by decide)).mpr u.number_lt
  rw [hexDigits, List.length_append, List.length_replicate]
  omega

/-- The shortest digits of a number are digits. -/
theorem exists_digit_of_mem_toDigits {n : Nat} {c : Char} (h : c ∈ Nat.toDigits 16 n) :
    ∃ d, d < 16 ∧ c = d.digitChar := by
  induction n using Nat.strongRecOn with
  | ind n ih =>
    rw [Nat.toDigits_eq_if (by decide)] at h
    split at h
    next hlt => exact ⟨n, hlt, List.mem_singleton.mp h⟩
    next hge =>
      rcases List.mem_append.mp h with h | h
      · exact ih _ (Nat.div_lt_self (by omega) (by decide)) h
      · exact ⟨_, Nat.mod_lt _ (by decide), List.mem_singleton.mp h⟩

/-- So are those that are wanted. -/
theorem exists_digit_of_mem_hexDigits {width n : Nat} {c : Char} (h : c ∈ hexDigits width n) :
    ∃ d, d < 16 ∧ c = d.digitChar := by
  rcases List.mem_append.mp h with h | h
  · exact ⟨0, by decide, (List.mem_replicate.mp h).2⟩
  · exact exists_digit_of_mem_toDigits h

/-! ## Hyphens -/

/-- A group that is not the last has a hyphen behind it. -/
theorem hyphenate_cons (n n' : Nat) (ns : List Nat) (cs : List Char) :
    hyphenate (n :: n' :: ns) cs = cs.take n ++ '-' :: hyphenate (n' :: ns) (cs.drop n) := rfl

/-- Hyphens that were put between groups are taken out again. -/
theorem unhyphenate?_hyphenate {ns : List Nat} {cs : List Char} (hne : ns ≠ [])
    (h : cs.length = ns.foldr (· + ·) 0) : unhyphenate? ns (hyphenate ns cs) = some cs := by
  induction ns generalizing cs with
  | nil => exact absurd rfl hne
  | cons n ns ih =>
    rw [List.foldr_cons] at h
    cases ns with
    | nil => exact if_pos h
    | cons n' ns =>
      -- the reader finds the group in front, the hyphen behind it, and the rest by induction
      have htake : (cs.take n).length = n := by rw [List.length_take]; omega
      have hdrop : (cs.take n ++ '-' :: hyphenate (n' :: ns) (cs.drop n)).drop n =
          '-' :: hyphenate (n' :: ns) (cs.drop n) := by
        rw [List.drop_append_of_le_length (Nat.le_of_eq htake.symm), List.drop_of_length_le
          (Nat.le_of_eq htake), List.nil_append]
      have hfront : (cs.take n ++ '-' :: hyphenate (n' :: ns) (cs.drop n)).take n = cs.take n := by
        rw [List.take_append_of_le_length (Nat.le_of_eq htake.symm), List.take_of_length_le
          (Nat.le_of_eq htake)]
      have hrest : unhyphenate? (n' :: ns) (hyphenate (n' :: ns) (cs.drop n)) = some (cs.drop n) :=
        ih (List.cons_ne_nil _ _) (by rw [List.length_drop]; omega)
      rw [hyphenate_cons, unhyphenate?.eq_def]
      simp only [hdrop, hfront, hrest, Option.map_some, List.take_append_drop]

theorem length_hyphenate {n : Nat} {ns : List Nat} {cs : List Char}
    (h : cs.length = (n :: ns).foldr (· + ·) 0) : (hyphenate (n :: ns) cs).length = cs.length + ns.length := by
  induction ns generalizing n cs with
  | nil => rfl
  | cons n' ns ih =>
    rw [List.foldr_cons] at h
    rw [hyphenate_cons, List.length_append, List.length_take, List.length_cons, List.length_cons,
      ih (by rw [List.length_drop]; omega), List.length_drop]
    omega

/-! ## Texts -/

/-- The text of a uuid has 36 characters, of which the first is a digit. -/
theorem chars_shape (u : Uuid) :
    u.chars.length = 36 ∧ ∃ d rest, d < 16 ∧ u.chars = Nat.digitChar d :: rest := by
  have hlength : (hexDigits 32 u.number).length = 32 := u.length_hexDigits
  refine ⟨(length_hyphenate hlength).trans (by rw [hlength]; rfl), ?_⟩
  obtain ⟨c, cs, hcons⟩ := List.exists_cons_of_length_pos (Nat.lt_of_lt_of_eq (Nat.succ_pos 31) hlength.symm)
  obtain ⟨d, hd, rfl⟩ := exists_digit_of_mem_hexDigits (hcons ▸ List.mem_cons_self)
  exact ⟨d, _, hd, by rw [chars, hcons]; rfl⟩

/-- No form but the hyphenated one has 36 characters and begins with a digit. -/
theorem ofChars?_of_shape {cs : List Char} (hlength : cs.length = 36) {d : Nat} (hd : d < 16)
    {rest : List Char} (hcons : cs = d.digitChar :: rest) : ofChars? cs = ofHyphenated? cs := by
  have hdigit : ∀ d, d < 16 → d.digitChar ≠ '{' ∧ d.digitChar.toLower ≠ 'u' := by decide
  obtain ⟨hbrace, hurn⟩ := hdigit d hd
  have hmark : ((cs.take urnMark.length).map Char.toLower = urnMark) = False := by
    rw [hcons]
    exact eq_false fun h => hurn (List.cons.inj h).1
  have hwidth : (cs.length = 32) = False := eq_false (by omega)
  unfold ofChars?
  split
  next => exact absurd (List.cons.inj hcons).1.symm hbrace
  next => simp only [hwidth, hmark, if_false]

/-- **A uuid is read back from its text.** -/
theorem ofString?_text (u : Uuid) : ofString? u.text = some u := by
  obtain ⟨hlength, d, rest, hd, hcons⟩ := u.chars_shape
  have hdigits : (hexDigits 32 u.number).length = 32 := u.length_hexDigits
  rw [ofString?, text, String.toList_ofList, ofChars?_of_shape hlength hd hcons, ofHyphenated?, chars,
    unhyphenate?_hyphenate (by decide) hdigits, Option.bind_some, ofDigits?, if_pos hdigits,
    hexNumber?_hexDigits, Option.map_some, ofNat]
  simp only [Nat.mod_eq_of_lt u.number_lt]

/-- Two uuids with one text are one. -/
theorem text_inj {u v : Uuid} (h : u.text = v.text) : u = v := by
  have hread := u.ofString?_text
  rw [h, v.ofString?_text] at hread
  exact (Option.some.inj hread).symm

end PaymentRelay.Uuid
