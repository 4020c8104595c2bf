import PaymentRelay.Json.Reader
import PaymentRelay.Json.Writer

/-!
# Strings that are written are read back

A text goes out as characters and comes in as octets. `encode` is what stands between: the octets of the
characters, one after the other. A string is read back because each character is, whichever of its three
forms it was written in: as an escape of two characters, as an escape with a number, or as itself.
-/

namespace PaymentRelay.Json

/-! ## The octets of characters -/

/-- The octets of characters. -/
def encode (cs : List Char) : Octets :=
  cs.flatMap String.utf8EncodeChar

theorem encode_append (cs ds : List Char) : encode (cs ++ ds) = encode cs ++ encode ds :=
  List.flatMap_append

theorem encode_cons (c : Char) (cs : List Char) :
    encode (c :: cs) = String.utf8EncodeChar c ++ encode cs :=
  List.flatMap_cons

theorem octetsOf_ofList (cs : List Char) : octetsOf (String.ofList cs) = encode cs := by
  show (List.utf8Encode cs).data.toList = encode cs
  rw [List.utf8Encode, List.data_toByteArray]
  rfl

/-- The characters of a text are read off its octets. -/
theorem fromUTF8?_encode (cs : List Char) :
    String.fromUTF8? (encode cs).toByteArray = some (String.ofList cs) := by
  have hvalid : (String.ofList cs).toByteArray.IsValidUTF8 := (String.ofList cs).isValidUTF8
  show String.fromUTF8? (String.ofList cs).toByteArray = _
  unfold String.fromUTF8?
  rw [dif_pos hvalid]
  rfl

theorem utf8EncodeChar_of_ascii {c : Char} (h : c.toNat < 128) :
    String.utf8EncodeChar c = [octet c] := by
  unfold String.utf8EncodeChar
  exact if_pos (Nat.le_of_lt_succ h)

theorem encode_cons_ascii {c : Char} (h : c.toNat < 128) (cs : List Char) :
    encode (c :: cs) = octet c :: encode cs := by
  rw [encode_cons, utf8EncodeChar_of_ascii h]
  rfl

theorem encode_of_ascii {cs : List Char} (h : ∀ c ∈ cs, c.toNat < 128) : encode cs = cs.map octet := by
  induction cs with
  | nil => rfl
  | cons c cs ih =>
    rw [encode_cons_ascii (h c List.mem_cons_self), ih fun c hc => h c (List.mem_cons_of_mem _ hc),
      List.map_cons]

theorem octet_toNat {c : Char} (h : c.toNat < 128) : (octet c).toNat = c.toNat := by
  rw [octet]
  exact Nat.mod_eq_of_lt (Nat.lt_trans h (by decide))

theorem octet_inj {c d : Char} (hc : c.toNat < 128) (hd : d.toNat < 128) (h : octet c = octet d) :
    c = d := by
  have hn := congrArg UInt8.toNat h
  rw [octet_toNat hc, octet_toNat hd] at hn
  exact Char.toNat_inj.mp hn

/-- The octets of a character from 128 on are octets from 128 on. -/
theorem le_of_mem_utf8EncodeChar {c : Char} (h : 128 ≤ c.toNat) {b : UInt8}
    (hb : b ∈ String.utf8EncodeChar c) : 128 ≤ b.toNat := by
  have hfit : ∀ n, 128 ≤ n → n < 256 → 128 ≤ (UInt8.ofNat n).toNat := fun n hle hlt => by
    rw [UInt8.toNat_ofNat', Nat.mod_eq_of_lt hlt]
    exact hle
  have hv : ¬ c.val.toNat ≤ 0x7f := Nat.not_le_of_lt h
  unfold String.utf8EncodeChar at hb
  rw [if_neg hv] at hb
  by_cases h2 : c.val.toNat ≤ 0x7ff
  · rw [if_pos h2] at hb
    simp only [List.mem_cons, List.not_mem_nil, or_false] at hb
    rcases hb with rfl | rfl <;> exact hfit _ (by omega) (by omega)
  · rw [if_neg h2] at hb
    by_cases h3 : c.val.toNat ≤ 0xffff
    · rw [if_pos h3] at hb
      simp only [List.mem_cons, List.not_mem_nil, or_false] at hb
      rcases hb with rfl | rfl | rfl <;> exact hfit _ (by omega) (by omega)
    · rw [if_neg h3] at hb
      simp only [List.mem_cons, List.not_mem_nil, or_false] at hb
      rcases hb with rfl | rfl | rfl | rfl <;> exact hfit _ (by omega) (by omega)

/-! ## Reading a string -/

/-- An octet that is no quote, no backslash and no control character is taken as it is. -/
theorem stringOctets_plain {b : UInt8} (hq : b ≠ octet '"') (hs : b ≠ octet '\\') (hc : ¬ b < 0x20)
    (acc rest : Octets) : stringOctets acc (b :: rest) = stringOctets (b :: acc) rest := by
  rw [stringOctets.eq_def]
  simp only [beq_eq_false_iff_ne.mpr hq, beq_eq_false_iff_ne.mpr hs, hc, Bool.false_eq_true, if_false]

theorem stringOctets_plains {bs : Octets}
    (h : ∀ b ∈ bs, b ≠ octet '"' ∧ b ≠ octet '\\' ∧ ¬ b < 0x20) (acc rest : Octets) :
    stringOctets acc (bs ++ rest) = stringOctets (bs.reverse ++ acc) rest := by
  induction bs generalizing acc with
  | nil => rfl
  | cons b bs ih =>
    obtain ⟨hq, hs, hc⟩ := h b List.mem_cons_self
    rw [List.cons_append, stringOctets_plain hq hs hc, ih fun b hb => h b (List.mem_cons_of_mem _ hb),
      List.reverse_cons, List.append_assoc]
    rfl

/-- An escape of two characters stands for one. -/
theorem stringOctets_short {e c : Char} (he : shortEscape? (octet e) = some c) (acc rest : Octets) :
    stringOctets acc (octet '\\' :: octet e :: rest) = stringOctets (octet c :: acc) rest := by
  have hq : (octet '\\' == octet '"') = false := by decide
  rw [stringOctets.eq_def]
  simp only [hq, Bool.false_eq_true, if_false, beq_self_eq_true, if_true, he]

/-- An escape with a number stands for the character of that number. -/
theorem stringOctets_long {h1 h2 h3 h4 : UInt8} {n : Nat} (hn : hexFour? h1 h2 h3 h4 = some n)
    (hlow : isLowSurrogate n = false) (hhigh : isHighSurrogate n = false) (acc rest : Octets) :
    stringOctets acc (octet '\\' :: octet 'u' :: h1 :: h2 :: h3 :: h4 :: rest) =
      stringOctets ((String.utf8EncodeChar (Char.ofNat n)).reverse ++ acc) rest := by
  have hq : (octet '\\' == octet '"') = false := by decide
  have hu : shortEscape? (octet 'u') = none := by decide
  rw [stringOctets.eq_def]
  simp only [hq, Bool.false_eq_true, if_false, beq_self_eq_true, if_true, hu, bne_self_eq_false, hn,
    hlow, hhigh]

/-- The escape of a control character has its number. -/
theorem controlEscape_eq {c : Char} (h : c.toNat < 0x20) :
    ∃ h1 h2 h3 h4, encode (controlEscape c) = [octet '\\', octet 'u', h1, h2, h3, h4] ∧
      hexFour? h1 h2 h3 h4 = some c.toNat := by
  have hall : ∀ n : Fin 32, ∃ h3 h4,
      encode (controlEscape (Char.ofNat n)) =
        [octet '\\', octet 'u', octet '0', octet '0', h3, h4] ∧
      hexFour? (octet '0') (octet '0') h3 h4 = some n.val := by
    intro n
    -- the two digits that differ are read off, so that the 32 cases can be decided
    let digits := (encode (controlEscape (Char.ofNat n))).drop 4
    refine ⟨digits.headD 0, digits.getLastD 0, ?_⟩
    revert n
    decide
  obtain ⟨h3, h4, henc, hhex⟩ := hall ⟨c.toNat, h⟩
  rw [Char.ofNat_toNat] at henc
  exact ⟨_, _, h3, h4, henc, hhex⟩

/-- The octets of a character that needs no escape need none. -/
theorem plain_of_mem {c : Char} (hquote : c ≠ '"') (hslash : c ≠ '\\') (hcontrol : ¬ c.toNat < 0x20) :
    ∀ b ∈ String.utf8EncodeChar c, b ≠ octet '"' ∧ b ≠ octet '\\' ∧ ¬ b < 0x20 := by
  intro b hb
  by_cases h : c.toNat < 128
  · rw [utf8EncodeChar_of_ascii h] at hb
    rw [List.mem_singleton.mp hb]
    refine ⟨fun he => hquote (octet_inj h (by decide) he), fun he => hslash (octet_inj h (by decide) he),
      fun hlt => ?_⟩
    have hn : (octet c).toNat < 0x20 := hlt
    rw [octet_toNat h] at hn
    exact hcontrol hn
  · have hle := le_of_mem_utf8EncodeChar (Nat.le_of_not_lt h) hb
    refine ⟨fun he => ?_, fun he => ?_, fun hlt => ?_⟩
    · rw [he] at hle
      exact absurd hle (by decide)
    · rw [he] at hle
      exact absurd hle (by decide)
    · have hn : b.toNat < 0x20 := hlt
      omega

/-- **A character is read back from whatever form it was written in.** -/
theorem stringOctets_escape (c : Char) (acc rest : Octets) :
    stringOctets acc (encode (escape c) ++ rest) =
      stringOctets ((String.utf8EncodeChar c).reverse ++ acc) rest := by
  have short : ∀ e d : Char, shortEscape? (octet e) = some d → d.toNat < 128 → e.toNat < 128 →
      stringOctets acc (encode ['\\', e] ++ rest) =
        stringOctets ((String.utf8EncodeChar d).reverse ++ acc) rest := by
    intro e d he hd hlt
    rw [encode_cons_ascii (by decide), encode_cons_ascii hlt, utf8EncodeChar_of_ascii hd]
    exact stringOctets_short he acc rest
  -- the tests of the writer, in its order; only the last two forms are not short
  unfold escape
  split
  next h => subst h; exact short '"' '"' (by decide) (by decide) (by decide)
  next hquote =>
    split
    next h => subst h; exact short '\\' '\\' (by decide) (by decide) (by decide)
    next hslash =>
      split
      next h => subst h; exact short 'b' '\x08' (by decide) (by decide) (by decide)
      next =>
        split
        next h => subst h; exact short 'f' '\x0c' (by decide) (by decide) (by decide)
        next =>
          split
          next h => subst h; exact short 'n' '\n' (by decide) (by decide) (by decide)
          next =>
            split
            next h => subst h; exact short 'r' '\r' (by decide) (by decide) (by decide)
            next =>
              split
              next h => subst h; exact short 't' '\t' (by decide) (by decide) (by decide)
              next =>
                split
                next hcontrol =>
                  obtain ⟨h1, h2, h3, h4, henc, hhex⟩ := controlEscape_eq hcontrol
                  have hlow : isLowSurrogate c.toNat = false := by
                    simp only [isLowSurrogate, Bool.and_eq_false_iff, decide_eq_false_iff_not]
                    omega
                  have hhigh : isHighSurrogate c.toNat = false := by
                    simp only [isHighSurrogate, Bool.and_eq_false_iff, decide_eq_false_iff_not]
                    omega
                  rw [henc]
                  refine (stringOctets_long hhex hlow hhigh acc rest).trans ?_
                  rw [Char.ofNat_toNat]
                next hplain =>
                  have hsingle : encode [c] = String.utf8EncodeChar c := List.append_nil _
                  rw [hsingle]
                  exact stringOctets_plains (plain_of_mem hquote hslash hplain) acc rest

/-- What is written of characters is read up to the closing quote. -/
theorem stringOctets_escapes (cs : List Char) (acc rest : Octets) :
    stringOctets acc (encode (cs.flatMap escape) ++ octet '"' :: rest) =
      .ok (acc.reverse ++ encode cs, rest) := by
  -- the octets read so far are part of the statement, for they grow from character to character
  induction cs generalizing acc with
  | nil =>
    show stringOctets acc (octet '"' :: rest) = .ok (acc.reverse ++ [], rest)
    rw [stringOctets.eq_def]
    simp only [beq_self_eq_true, if_true, List.append_nil]
  | cons c cs ih =>
    rw [List.flatMap_cons, encode_append, List.append_assoc, stringOctets_escape, ih, encode_cons,
      List.reverse_append, List.reverse_reverse, List.append_assoc]

/-- **A string that was written is read back**, whatever characters it has. -/
theorem readString_escapes (s : String) (rest : Octets) :
    readString (encode (s.toList.flatMap escape) ++ octet '"' :: rest) = .ok (s, rest) := by
  unfold readString
  rw [stringOctets_escapes]
  simp only [bind, Except.bind, List.reverse_nil, List.nil_append, fromUTF8?_encode, String.ofList_toList]

theorem encode_quoted (s : String) :
    encode (quoted s) = octet '"' :: (encode (s.toList.flatMap escape) ++ [octet '"']) := by
  rw [quoted, encode_cons_ascii (by decide), encode_append]
  rfl

end PaymentRelay.Json
