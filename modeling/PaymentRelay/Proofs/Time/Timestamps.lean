import PaymentRelay.Event.Envelope
import PaymentRelay.Proofs.Text.Fields
import PaymentRelay.Proofs.Time.Gregorian

/-!
# Timestamps denote whole seconds

The timestamp of an envelope is a row of six numbers in fields, `YYYY-MM-DDThh:mm:ssZ`: the date of the day and the
time of the day, of the last whole second that is not after the instant (`Instant.isRow_secondsText`). Everything
else about it follows from the row.

* Reading it gives that second again (`Instant.ofRfc3339?_secondsText`). The reader, `Instant.ofRfc3339?`, is made
  from the grammar of RFC 3339 and reads more than is written here: fractions, offsets and leap seconds.
* The texts of two instants are ordered octet by octet as their seconds are, because days are ordered as their dates
  (`Instant.numbers_lt_iff`).

Years outside 0 to 9999 have another layout, and a leap second is written as second 60. Both are left out here.
-/

namespace PaymentRelay

namespace Instant

/-! ## Reading RFC 3339 -/

/-- A number of so many digits at the front. -/
def takeNumber? (width : Nat) (cs : List Char) : Option (Nat × List Char) :=
  if (cs.take width).length = width ∧ (cs.take width).all Char.isDigit = true then
    some (Nat.ofDigitChars 10 (cs.take width) 0, cs.drop width)
  else none

/-- One of some characters at the front. -/
def takeMark? (marks : List Char) : List Char → Option (Char × List Char)
  | [] => none
  | c :: cs => if c ∈ marks then some (c, cs) else none

/-- A date that the calendar has: `full-date`. -/
def takeDate? (cs : List Char) : Option (Date × List Char) := do
  let (year, cs) ← takeNumber? 4 cs
  let (_, cs) ← takeMark? ['-'] cs
  let (month, cs) ← takeNumber? 2 cs
  let (_, cs) ← takeMark? ['-'] cs
  let (day, cs) ← takeNumber? 2 cs
  if (⟨year, month, day⟩ : Date).IsValid then return (⟨year, month, day⟩, cs) else none

/-- Hours and minutes: the time of an offset, and the beginning of a `partial-time`. -/
def takeMinutes? (cs : List Char) : Option (Nat × List Char) := do
  let (hour, cs) ← takeNumber? 2 cs
  let (_, cs) ← takeMark? [':'] cs
  let (minute, cs) ← takeNumber? 2 cs
  if hour ≤ 23 ∧ minute ≤ 59 then return (hour * 60 + minute, cs) else none

/-- The nanoseconds of a `time-secfrac`, if there is one. Digits behind the ninth are dropped. -/
def takeNanos? : List Char → Option (Nat × List Char)
  | '.' :: cs =>
    if cs.takeWhile Char.isDigit = [] then none
    else some (Nat.ofDigitChars 10 ((cs.takeWhile Char.isDigit ++ List.replicate 9 '0').take 9) 0,
      cs.dropWhile Char.isDigit)
  | cs => some (0, cs)

/-- The seconds by which a `time-offset` is ahead of UTC. -/
def takeOffset? (cs : List Char) : Option (Int × List Char) := do
  let (mark, cs) ← takeMark? ['Z', 'z', '+', '-'] cs
  if mark = 'Z' ∨ mark = 'z' then return (0, cs)
  let (minutes, cs) ← takeMinutes? cs
  return (if mark = '+' then (minutes * 60 : Int) else -(minutes * 60 : Int), cs)

/-- The instant of a `date-time`. Second 60 is a leap second. -/
def ofRfc3339? (s : String) : Option Instant := do
  let (date, cs) ← takeDate? s.toList
  let (_, cs) ← takeMark? ['T', 't'] cs
  let (minutes, cs) ← takeMinutes? cs
  let (_, cs) ← takeMark? [':'] cs
  let (second, cs) ← takeNumber? 2 cs
  let (nanos, cs) ← takeNanos? cs
  let (offset, cs) ← takeOffset? cs
  if second ≤ 60 ∧ cs = [] then
    return ⟨date.toDay * 86400 + minutes * 60 + min second 59 - offset,
      if second = 60 then Duration.nanosPerSecond + nanos else nanos⟩
  else none

/-- An instant with a fraction, one with an offset, a leap second, and a day that there is not. -/
example : ofRfc3339? "1985-04-12T23:20:50.52Z" = some ⟨482196050, 520000000⟩ ∧
    ofRfc3339? "1996-12-19T16:39:57-08:00" = some ⟨851042397, 0⟩ ∧
    ofRfc3339? "1990-12-31T23:59:60Z" = some ⟨662687999, 1000000000⟩ ∧
    ofRfc3339? "1900-02-29T00:00:00Z" = none := by decide +kernel

/-! ## Rows of a date and a time -/

/-- The layout `YYYY-MM-DDThh:mm:ssZ`. -/
def stampLayout : List (Nat × Char) :=
  [(4, '-'), (2, '-'), (2, 'T'), (2, ':'), (2, ':'), (2, 'Z')]

variable {f g h : List Char} {year month day hour minute second : Nat}

/-- A field is taken as its number. -/
theorem takeNumber?_field {width n : Nat} (hf : Text.IsField width n f) (rest : List Char) :
    takeNumber? width (f ++ rest) = some (n, rest) := by
  have hall : f.all Char.isDigit = true := List.all_eq_true.mpr hf.digits
  rw [takeNumber?, List.take_left' hf.length, List.drop_left' hf.length, if_pos ⟨hf.length, hall⟩, hf.value]

theorem takeMark?_cons {marks : List Char} {c : Char} (hc : c ∈ marks) (cs : List Char) :
    takeMark? marks (c :: cs) = some (c, cs) :=
  if_pos hc

/-- Three fields are taken as a date, if the calendar has it. -/
theorem takeDate?_fields (hf : Text.IsField 4 year f) (hg : Text.IsField 2 month g) (hh : Text.IsField 2 day h)
    (hdate : (⟨year, month, day⟩ : Date).IsValid) (rest : List Char) :
    takeDate? (f ++ '-' :: (g ++ '-' :: (h ++ rest))) = some (⟨year, month, day⟩, rest) := by
  simp only [takeDate?, takeNumber?_field hf, takeNumber?_field hg, takeNumber?_field hh,
    takeMark?_cons (List.mem_singleton_self _), bind, Option.bind_some, hdate, if_true]
  rfl

/-- Two fields are taken as hours and minutes. -/
theorem takeMinutes?_fields (hf : Text.IsField 2 hour f) (hg : Text.IsField 2 minute g) (hhour : hour < 24)
    (hminute : minute < 60) (rest : List Char) :
    takeMinutes? (f ++ ':' :: (g ++ rest)) = some (hour * 60 + minute, rest) := by
  have htime : hour ≤ 23 ∧ minute ≤ 59 := ⟨Nat.le_of_lt_succ hhour, Nat.le_of_lt_succ hminute⟩
  simp only [takeMinutes?, takeNumber?_field hf, takeNumber?_field hg, takeMark?_cons (List.mem_singleton_self _), bind,
    Option.bind_some, htime, and_self, if_true]
  rfl

/-- **A row of a date and a time is read** as the second that they are. -/
theorem ofRfc3339?_row {cs : List Char} (hrow : Text.IsRow stampLayout [year, month, day, hour, minute, second] cs)
    (hdate : (⟨year, month, day⟩ : Date).IsValid) (hhour : hour < 24) (hminute : minute < 60) (hsecond : second < 60) :
    ofRfc3339? (String.ofList cs) =
      some ⟨Date.toDay ⟨year, month, day⟩ * 86400 + hour * 3600 + minute * 60 + second, 0⟩ := by
  obtain ⟨f1, -, rfl, h1, f2, -, rfl, h2, f3, -, rfl, h3, f4, -, rfl, h4, f5, -, rfl, h5, f6, -, rfl, h6, rfl⟩ := hrow
  have hend : second ≤ 60 ∧ ([] : List Char) = [] := ⟨Nat.le_of_lt hsecond, rfl⟩
  have hnanos : takeNanos? ['Z'] = some (0, ['Z']) := rfl
  have hoffset : takeOffset? ['Z'] = some (0, []) := rfl
  simp only [ofRfc3339?, String.toList_ofList, takeDate?_fields h1 h2 h3 hdate, takeMinutes?_fields h4 h5 hhour hminute,
    takeNumber?_field h6, takeMark?_cons (List.mem_cons_self), hnanos, hoffset, bind, Option.bind_some, hend, if_true,
    and_self, if_neg (Nat.ne_of_lt hsecond), Nat.min_eq_left (Nat.le_of_lt_succ hsecond)]
  congr 2
  push_cast
  omega

/-! ## The numbers of an instant -/

/-- The second of the day. -/
def secondOfDay (t : Instant) : Nat := (t.seconds.fmod 86400).toNat

/-- Year, month, day, hour, minute and second of an instant. -/
def numbers (t : Instant) : List Nat :=
  [t.date.year.toNat, t.date.month, t.date.day, t.secondOfDay / 3600, t.secondOfDay / 60 % 60, t.secondOfDay % 60]

variable {t u : Instant}

theorem secondOfDay_lt (t : Instant) : t.secondOfDay < 86400 := by
  rw [secondOfDay, Int.fmod_eq_emod_of_nonneg _ (by decide)]
  omega

/-- The seconds of an instant are those of its days and those of its day. -/
theorem seconds_eq (t : Instant) : t.seconds = t.seconds.fdiv 86400 * 86400 + t.secondOfDay := by
  rw [secondOfDay, Int.fmod_eq_emod_of_nonneg _ (by decide), Int.fdiv_eq_ediv_of_nonneg _ (by decide)]
  omega

/-- An instant of a year with four digits, in no leap second. -/
structure IsPlain (t : Instant) : Prop where
  year : 0 ≤ t.date.year ∧ t.date.year ≤ 9999
  nanos : t.nanos < Duration.nanosPerSecond

/-- The date of an instant has as many digits as there is room for. -/
theorem date_bounds (t : Instant) : t.date.month < 100 ∧ t.date.day < 100 := by
  obtain ⟨⟨-, hmonth⟩, -, hday⟩ := Date.isValid_ofDay (t.seconds.fdiv 86400)
  have hlength : ∀ year month, Date.daysIn year month ≤ 31 := by
    intro year month
    unfold Date.daysIn
    split <;> split <;> omega
  exact ⟨Nat.lt_of_le_of_lt hmonth (by decide), Nat.lt_of_le_of_lt (hday.trans (hlength _ _)) (by decide)⟩

/-- **The timestamp is the row of the numbers.** -/
theorem isRow_chars (h : t.IsPlain) : Text.IsRow stampLayout t.numbers (t.chars .seconds) := by
  obtain ⟨hmonth, hday⟩ := t.date_bounds
  have hsecond := t.secondOfDay_lt
  have hleap : ¬ Duration.nanosPerSecond ≤ t.nanos := Nat.not_le.mpr h.nanos
  have hyear : yearChars t.date.year = Text.padded 4 t.date.year.toNat := if_pos h.year
  refine ⟨_, _, ?_, Text.isField_padded (by decide) (by have := h.year; omega), _, _, rfl,
    Text.isField_padded (by decide) hmonth, _, _, rfl, Text.isField_padded (by decide) hday, _, _, rfl,
    Text.isField_padded (by decide) (by omega), _, _, rfl, Text.isField_padded (by decide) (by omega), _, _, rfl,
    Text.isField_padded (by decide) (by omega), rfl⟩
  simp only [chars, hyear, hleap, if_false, List.append_assoc, List.cons_append, List.nil_append, secondOfDay]

/-- The text of an instant has twenty characters. -/
theorem length_secondsText (h : t.IsPlain) : t.secondsText.length = 20 := by
  rw [secondsText, String.length_ofList, (isRow_chars h).length_eq]
  rfl

/-- **The text of an instant is read** as its last whole second. -/
theorem ofRfc3339?_secondsText (h : t.IsPlain) : ofRfc3339? t.secondsText = some ⟨t.seconds, 0⟩ := by
  have hyear : (t.date.year.toNat : Int) = t.date.year := Int.toNat_of_nonneg h.year.1
  have hdate : (⟨t.date.year.toNat, t.date.month, t.date.day⟩ : Date) = t.date := by rw [hyear]
  have hvalid : (⟨t.date.year.toNat, t.date.month, t.date.day⟩ : Date).IsValid := by
    rw [hdate]
    exact Date.isValid_ofDay _
  have hlt := t.secondOfDay_lt
  have hseconds := t.seconds_eq
  rw [secondsText, ofRfc3339?_row (isRow_chars h) hvalid (by omega) (by omega) (by omega), hdate, date,
    Date.toDay_ofDay]
  congr 2
  omega

/-- **The numbers of two instants are ordered as their seconds.** -/
theorem numbers_lt_iff (ht : t.IsPlain) (hu : u.IsPlain) : t.numbers < u.numbers ↔ t.seconds < u.seconds := by
  have hbefore : t.date.IsBefore u.date ↔ t.seconds.fdiv 86400 < u.seconds.fdiv 86400 := Date.isBefore_ofDay_iff
  have hafter : u.date.IsBefore t.date ↔ u.seconds.fdiv 86400 < t.seconds.fdiv 86400 := Date.isBefore_ofDay_iff
  have hsame : t.seconds.fdiv 86400 = u.seconds.fdiv 86400 → t.date = u.date := fun h => congrArg Date.ofDay h
  have htseconds := t.seconds_eq
  have huseconds := u.seconds_eq
  have htlt := t.secondOfDay_lt
  have hult := u.secondOfDay_lt
  have htyear := ht.year
  have huyear := hu.year
  simp only [numbers, List.cons_lt_cons_iff, List.not_lt_nil, and_false, or_false]
  unfold Date.IsBefore at hbefore hafter
  generalize t.secondOfDay = a, u.secondOfDay = b at *
  rcases lt_trichotomy (t.seconds.fdiv 86400) (u.seconds.fdiv 86400) with h | h | h
  · have hdates := hbefore.mpr h
    clear hbefore hafter hsame
    omega
  · rw [hsame h]
    clear hbefore hafter hsame
    omega
  · have hdates := hafter.mpr h
    clear hbefore hafter hsame
    omega

/-! ## Whole seconds -/

/-- The last whole second that is not after an instant. -/
def unixSecond (t : Instant) : Int :=
  t.toNanos.fdiv Duration.nanosPerSecond

/-- Outside leap seconds it is the second that an instant is counted in, -/
theorem unixSecond_eq (h : t.nanos < Duration.nanosPerSecond) : t.unixSecond = t.seconds := by
  unfold Duration.nanosPerSecond at h
  rw [unixSecond, toNanos, Duration.nanosPerSecond, Int.fdiv_eq_ediv_of_nonneg _ (by decide)]
  omega

/-- and all that the text of an instant depends on. -/
theorem secondsText_congr (ht : t.nanos < Duration.nanosPerSecond) (hu : u.nanos < Duration.nanosPerSecond)
    (h : t.seconds = u.seconds) : t.secondsText = u.secondsText := by
  simp only [secondsText, chars, date, h, Nat.not_le.mpr ht, Nat.not_le.mpr hu]

/-- The texts of instants are ordered octet by octet as their seconds. -/
theorem secondsText_lt_iff (ht : t.IsPlain) (hu : u.IsPlain) :
    Json.octetsOf t.secondsText < Json.octetsOf u.secondsText ↔ t.seconds < u.seconds := by
  rw [secondsText, secondsText, Json.octetsOf_ofList, Json.octetsOf_ofList, (isRow_chars ht).lt_iff (isRow_chars hu),
    numbers_lt_iff ht hu]

/-- Instants have one text exactly if they lie in one second. -/
theorem secondsText_eq_iff (ht : t.IsPlain) (hu : u.IsPlain) :
    t.secondsText = u.secondsText ↔ t.seconds = u.seconds := by
  refine ⟨fun h => ?_, secondsText_congr ht.nanos hu.nanos⟩
  have hless := mt (secondsText_lt_iff ht hu).mpr (h ▸ List.lt_irrefl _)
  have hmore := mt (secondsText_lt_iff hu ht).mpr (h ▸ List.lt_irrefl _)
  omega

end Instant

open Instant

/-- **Timestamps denote whole seconds.** For every instant of the years 0 to 9999 that is in no leap second: the
timestamp of an envelope has twenty characters, `YYYY-MM-DDThh:mm:ssZ`, with the date that counting days from
1970-01-01 comes to and the time of that day; they are those of the last whole second that is not after the instant,
and reading the timestamp gives that second. Of two such timestamps, they are equal exactly if the seconds are, and
the one comes before the other, octet by octet, exactly if its second does. -/
theorem Envelope.timestamp_denotes_second {π ρ : Type} (type type' : String) (id id' : Uuid) (payload : π)
    (payload' : ρ) {t u : Instant} (ht : t.IsPlain) (hu : u.IsPlain) :
    let stamp := (Envelope.make type id t payload).timestamp
    let stamp' := (Envelope.make type' id' u payload').timestamp
    (∃ (day : Int) (hour minute second : Nat), Date.IsDay day t.date ∧ hour < 24 ∧ minute < 60 ∧ second < 60 ∧
      t.unixSecond = day * 86400 + hour * 3600 + minute * 60 + second ∧ stamp.length = 20 ∧
      Text.IsRow stampLayout [t.date.year.toNat, t.date.month, t.date.day, hour, minute, second] stamp.toList) ∧
    ofRfc3339? stamp = some ⟨t.unixSecond, 0⟩ ∧
    (stamp = stamp' ↔ t.unixSecond = u.unixSecond) ∧
    (Json.octetsOf stamp < Json.octetsOf stamp' ↔ t.unixSecond < u.unixSecond) := by
  have hlt := t.secondOfDay_lt
  have hseconds := t.seconds_eq
  have hrow : Text.IsRow stampLayout t.numbers t.secondsText.toList := by
    rw [secondsText, String.toList_ofList]
    exact isRow_chars ht
  rw [unixSecond_eq ht.nanos, unixSecond_eq hu.nanos]
  refine ⟨⟨t.seconds.fdiv 86400, _, _, _, Date.isDay_iff.mpr rfl, ?_, ?_, ?_, ?_, length_secondsText ht, hrow⟩,
    ofRfc3339?_secondsText ht, secondsText_eq_iff ht hu, secondsText_lt_iff ht hu⟩ <;>
    omega

/-- The last nanosecond before 1970 is cut back to its second, and comes before 1970. -/
theorem Envelope.timestamp_denotes_second_of_early :
    Instant.IsPlain ⟨-1, 999999999⟩ ∧ Instant.IsPlain ⟨0, 0⟩ ∧
    (Envelope.make "t" .nil ⟨-1, 999999999⟩ ()).timestamp = "1969-12-31T23:59:59Z" ∧
    ofRfc3339? (Envelope.make "t" .nil ⟨-1, 999999999⟩ ()).timestamp = some ⟨-1, 0⟩ ∧
    Json.octetsOf (Envelope.make "t" .nil ⟨-1, 999999999⟩ ()).timestamp <
      Json.octetsOf (Envelope.make "t" .nil ⟨0, 0⟩ ()).timestamp := by
  have hearly : Instant.IsPlain ⟨-1, 999999999⟩ := ⟨by decide, by decide⟩
  have hepoch : Instant.IsPlain ⟨0, 0⟩ := ⟨by decide, by decide⟩
  obtain ⟨-, hread, -, hbefore⟩ := Envelope.timestamp_denotes_second "t" "t" .nil .nil () () hearly hepoch
  exact ⟨hearly, hepoch, by decide +kernel, hread, hbefore.mpr (by decide)⟩

end PaymentRelay
