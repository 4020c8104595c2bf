import Mathlib.Data.List.DropRight
import PaymentRelay.Payment.Identity

/-!
# Trimmed texts

Trimming leaves no blank at either end, so a text that was trimmed is trimmed to itself (`Text.trim_trim`). The keys
that the constructor of `IdempotencyKey` makes are the texts that are trimmed to themselves, are not empty and are not
too long (`IdempotencyKey.exists_ofString_iff`).
-/

namespace PaymentRelay

namespace Text

/-- Trimming takes blanks off the front and then off the back. -/
theorem trimBlank_eq (cs : List Char) : trimBlank cs = (cs.dropWhile isBlank).rdropWhile isBlank := rfl

/-- A text is trimmed to itself if it neither begins nor ends with a blank. -/
theorem trimBlank_eq_self {cs : List Char} (hfront : cs.dropWhile isBlank = cs) (hback : cs.rdropWhile isBlank = cs) :
    trimBlank cs = cs := by
  rw [trimBlank_eq, hfront, hback]

/-- Taking blanks off the back leaves a front without blanks as it is. -/
theorem dropWhile_rdropWhile {cs : List Char} (h : cs.dropWhile isBlank = cs) :
    (cs.rdropWhile isBlank).dropWhile isBlank = cs.rdropWhile isBlank := by
  refine List.dropWhile_eq_self_iff.mpr fun hlength => ?_
  have hbegins := List.rdropWhile_prefix isBlank (l := cs)
  rw [hbegins.getElem hlength]
  exact List.dropWhile_eq_self_iff.mp h (Nat.lt_of_lt_of_le hlength hbegins.length_le)

theorem trimBlank_trimBlank (cs : List Char) : trimBlank (trimBlank cs) = trimBlank cs := by
  rw [trimBlank_eq cs]
  exact trimBlank_eq_self (dropWhile_rdropWhile (List.dropWhile_idempotent _ _)) (List.rdropWhile_idempotent _ _)

/-- **A text that was trimmed is trimmed to itself.** -/
theorem trim_trim (s : String) : trim (trim s) = trim s := by
  rw [trim, trim, String.toList_ofList, trimBlank_trimBlank]

end Text

namespace IdempotencyKey

variable {k : IdempotencyKey}

/-- The key of a text is the trimmed text, if that is neither empty nor too long. -/
theorem ofString_eq_ok_iff {s : String} :
    ofString s = .ok k ↔ k.text = Text.trim s ∧ k.text ≠ "" ∧ k.text.utf8ByteSize ≤ maxOctets := by
  obtain ⟨text⟩ := k
  unfold ofString
  dsimp only
  split
  next hempty =>
    refine iff_of_false (fun h => by cases h) ?_
    rintro ⟨rfl, hne, -⟩
    exact hne hempty
  next hne =>
    split
    next hlong =>
      refine iff_of_false (fun h => by cases h) ?_
      rintro ⟨rfl, -, hfits⟩
      exact Nat.not_lt.mpr hfits hlong
    next hfits =>
      refine ⟨fun h => ?_, ?_⟩
      · cases h
        exact ⟨rfl, hne, Nat.le_of_not_lt hfits⟩
      · rintro ⟨rfl, -, -⟩
        rfl

/-- **The keys that are made** are the texts without blanks at their ends that are neither empty nor too long. -/
theorem exists_ofString_iff :
    (∃ s, ofString s = .ok k) ↔ Text.trim k.text = k.text ∧ k.text ≠ "" ∧ k.text.utf8ByteSize ≤ maxOctets := by
  constructor
  · rintro ⟨s, hs⟩
    obtain ⟨htext, hsize⟩ := ofString_eq_ok_iff.mp hs
    refine ⟨?_, hsize⟩
    rw [htext, Text.trim_trim]
  · rintro ⟨htrim, hsize⟩
    exact ⟨k.text, ofString_eq_ok_iff.mpr ⟨htrim.symm, hsize⟩⟩

end IdempotencyKey

end PaymentRelay
