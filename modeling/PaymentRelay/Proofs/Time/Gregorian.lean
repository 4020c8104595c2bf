import Mathlib.Tactic.IntervalCases
import PaymentRelay.Proofs.Time.Years

/-!
# The rules of the calendar

The calendar as people know it: months of 30 and 31 days, a February of 28 or 29, and a leap year every fourth
year, but of the hundredth ones only every fourth. From these rules a day has a day after it (`Date.next`), and days
are counted from 1970-01-01 in both directions (`Date.IsDay`). Nothing of the arithmetic of `Date.ofDay` is in them.

`Date.isDay_iff` says that the two agree: the date of a day number is the one that is reached by counting. The proof
goes by years that begin in March, where the leap day is the last day of its year: taking the next day is adding one
to the day of such a year (`Date.next_ofMarch`), or beginning the next one (`Date.next_endOfMarch`).

Later days have later dates (`Date.isBefore_ofDay_iff`).
-/

namespace PaymentRelay

namespace Date

/-! ## Months and years -/

/-- A leap year: every fourth year, but of the hundredth ones only every fourth. -/
def IsLeap (year : Int) : Prop :=
  4 ∣ year ∧ (¬ 100 ∣ year ∨ 400 ∣ year)

instance (year : Int) : Decidable (IsLeap year) := inferInstanceAs (Decidable (_ ∧ _))

/-- The days of a month. -/
def daysIn (year : Int) (month : Nat) : Nat :=
  if month = 2 then if IsLeap year then 29 else 28
  else if month = 4 ∨ month = 6 ∨ month = 9 ∨ month = 11 then 30
  else 31

/-- A date that the calendar has. -/
structure IsValid (d : Date) : Prop where
  month : 1 ≤ d.month ∧ d.month ≤ 12
  day : 1 ≤ d.day ∧ d.day ≤ daysIn d.year d.month

instance (d : Date) : Decidable d.IsValid :=
  decidable_of_iff ((1 ≤ d.month ∧ d.month ≤ 12) ∧ 1 ≤ d.day ∧ d.day ≤ daysIn d.year d.month)
    ⟨fun h => ⟨h.1, h.2⟩, fun h => ⟨h.month, h.day⟩⟩

/-- The day after. -/
def next (d : Date) : Date :=
  if d.day < daysIn d.year d.month then ⟨d.year, d.month, d.day + 1⟩
  else if d.month < 12 then ⟨d.year, d.month + 1, 1⟩
  else ⟨d.year + 1, 1, 1⟩

/-- Counting days from 1970-01-01, forwards and backwards. -/
inductive IsDay : Int → Date → Prop
  | epoch : IsDay 0 ⟨1970, 1, 1⟩
  | next {n : Int} {d : Date} (h : IsDay n d) : IsDay (n + 1) d.next
  | previous {n : Int} {d : Date} (hvalid : d.IsValid) (h : IsDay (n + 1) d.next) : IsDay n d

/-- The last year of a century is no leap year, unless it ends a cycle of four. -/
example : IsLeap 2024 ∧ ¬ IsLeap 1900 ∧ IsLeap 2000 ∧ IsLeap 0 := by decide

/-- The last day of a February, and the last day of a year before the first. -/
example : next ⟨1900, 2, 28⟩ = ⟨1900, 3, 1⟩ ∧ next ⟨2000, 2, 28⟩ = ⟨2000, 2, 29⟩ ∧
    next ⟨-1, 12, 31⟩ = ⟨0, 1, 1⟩ := by decide

/-! ## Years that begin in March -/

variable {march later n m : Int} {dayOfYear k : Nat} {d : Date}

/-- The days of a year that ends in a year with or without a leap day. -/
def marchLength (march : Int) : Nat :=
  if IsLeap (march + 1) then 366 else 365

/-- A year that begins in March has the leap day of the year in which it ends. -/
theorem marchDay_succ (march : Int) : marchDay (march + 1) = marchDay march + marchLength march := by
  unfold marchLength
  by_cases h : IsLeap (march + 1)
  · rw [if_pos h]
    unfold IsLeap at h
    unfold marchDay
    omega
  · rw [if_neg h]
    unfold IsLeap at h
    unfold marchDay
    omega

theorem marchLength_le (march : Int) : marchLength march ≤ 366 := by
  unfold marchLength
  split <;> omega

/-- Days of years that begin in March are told apart by the year and the day in it. -/
theorem march_unique {dayOfLater : Nat} (h : marchDay march + dayOfYear = marchDay later + dayOfLater)
    (hfirst : dayOfYear < marchLength march) (hsecond : dayOfLater < marchLength later) :
    march = later ∧ dayOfYear = dayOfLater := by
  have hle : ∀ {a b : Int}, a < b → marchDay a + marchLength a ≤ marchDay b := by
    intro a b hab
    rw [← marchDay_succ]
    rcases Int.lt_or_eq_of_le (Int.add_one_le_of_lt hab) with hlt | rfl
    · have hlater := marchDay_lt hlt
      omega
    · exact Int.le_refl _
  rcases lt_trichotomy march later with hlt | rfl | hgt
  · have hlater := hle hlt
    omega
  · exact ⟨rfl, by omega⟩
  · have hlater := hle hgt
    omega

/-- A day number is a day of a year that begins in March. -/
theorem exists_ofMarch (n : Int) : ∃ march dayOfYear, dayOfYear < marchLength march ∧
    n = marchDay march + dayOfYear - epochOffset ∧ ofDay n = ofMarch march dayOfYear := by
  obtain ⟨march, dayOfYear, hdate, hn, hbound⟩ := exists_march n
  rw [marchDay_succ] at hbound
  exact ⟨march, dayOfYear, by omega, by omega, hdate⟩

/-- **The date of a day** goes by the year that begins in March and the day in it. -/
theorem ofDay_march (h : dayOfYear < marchLength march) :
    ofDay (marchDay march + dayOfYear - epochOffset) = ofMarch march dayOfYear := by
  obtain ⟨march', dayOfYear', hlength, hn, hdate⟩ := exists_ofMarch (marchDay march + dayOfYear - epochOffset)
  obtain ⟨rfl, rfl⟩ := march_unique (by omega) h hlength
  exact hdate

/-! ## Months of a year that begins in March -/

/-- The month of the calendar that is the `k`-th after March. -/
def monthFrom (k : Nat) : Nat := if k < 10 then k + 3 else k - 9

/-- The year of the calendar in which it lies. -/
def yearFrom (march : Int) (k : Nat) : Int := if k < 10 then march else march + 1

/-- The first day of a month follows the last of the one before it, in January in the next year. -/
theorem month_succ (hk : k < 11) (march : Int) :
    (if monthFrom k < 12 then ⟨yearFrom march k, monthFrom k + 1, 1⟩ else ⟨yearFrom march k + 1, 1, 1⟩ : Date) =
      ⟨yearFrom march (k + 1), monthFrom (k + 1), 1⟩ := by
  interval_cases k <;> rfl

/-- The month of a day, of twelve, begins no later than the day and ends after it. -/
theorem monthOf_spec (h : dayOfYear < marchLength march) : monthOf dayOfYear ≤ 11 ∧
    daysBefore (monthOf dayOfYear) ≤ dayOfYear ∧ dayOfYear < daysBefore (monthOf dayOfYear + 1) := by
  have hlength := marchLength_le march
  unfold monthOf daysBefore
  omega

/-- The month in which a day lies. -/
theorem monthOf_eq (hbegin : daysBefore k ≤ dayOfYear) (hend : dayOfYear < daysBefore (k + 1)) :
    monthOf dayOfYear = k := by
  unfold daysBefore at hbegin hend
  unfold monthOf
  omega

/-- A day of a month. -/
theorem ofMarch_eq (march : Int) (hbegin : daysBefore k ≤ dayOfYear) (hend : dayOfYear < daysBefore (k + 1)) :
    ofMarch march dayOfYear = ⟨yearFrom march k, monthFrom k, dayOfYear - daysBefore k + 1⟩ := by
  rw [← monthOf_eq hbegin hend]
  rfl

/-- A month is as long as from its beginning to that of the next one, but for the last, which the end of the year cuts
off. -/
theorem daysIn_month (hk : k ≤ 11) (march : Int) :
    daysIn (yearFrom march k) (monthFrom k) = min (daysBefore (k + 1)) (marchLength march) - daysBefore k := by
  unfold marchLength
  rcases Nat.lt_or_eq_of_le hk with hlt | rfl
  · interval_cases k <;> split <;> rfl
  · unfold daysIn yearFrom daysBefore
    simp only [monthFrom, Nat.reduceLT, Nat.reduceSub, if_false, if_true]
    split <;> omega

/-- A year ends in its last month. -/
theorem marchLength_spec (march : Int) :
    daysBefore 11 < marchLength march ∧ marchLength march < daysBefore (11 + 1) := by
  unfold marchLength daysBefore
  split <;> omega

/-- The date of a day of a year that begins in March is one that the calendar has. -/
theorem isValid_ofMarch (h : dayOfYear < marchLength march) : (ofMarch march dayOfYear).IsValid := by
  obtain ⟨hk, hbegin, hend⟩ := monthOf_spec h
  generalize monthOf dayOfYear = k at hk hbegin hend
  rw [ofMarch_eq march hbegin hend]
  refine ⟨?_, ?_⟩
  · dsimp only [monthFrom]
    split <;> omega
  · dsimp only
    rw [daysIn_month hk]
    omega

/-- **The day after** is the next day of the year that begins in March, -/
theorem next_ofMarch (h : dayOfYear + 1 < marchLength march) :
    (ofMarch march dayOfYear).next = ofMarch march (dayOfYear + 1) := by
  obtain ⟨hk, hbegin, hend⟩ := monthOf_spec (Nat.lt_of_succ_lt h)
  generalize monthOf dayOfYear = k at hk hbegin hend
  rw [ofMarch_eq march hbegin hend, next]
  dsimp only
  rw [daysIn_month hk]
  rcases Nat.lt_or_ge (dayOfYear + 1) (daysBefore (k + 1)) with hsame | hlast
  · rw [if_pos (by omega), ofMarch_eq march (by omega) hsame]
    congr 1
    omega
  · -- the last day of a month, which is not the last of the year; the first day of the next month follows
    have hmore : k < 11 := by
      refine Nat.lt_of_le_of_ne hk fun heq => ?_
      have hyear := (marchLength_spec march).2
      subst heq
      omega
    have hfirst : dayOfYear + 1 = daysBefore (k + 1) := by omega
    have hafter : daysBefore (k + 1) < daysBefore (k + 1 + 1) := by unfold daysBefore; omega
    rw [if_neg (by omega), hfirst, ofMarch_eq march (Nat.le_refl _) hafter, Nat.sub_self]
    exact month_succ hmore march

/-- or the first day of the next one. -/
theorem next_endOfMarch (h : dayOfYear + 1 = marchLength march) :
    (ofMarch march dayOfYear).next = ofMarch (march + 1) 0 := by
  obtain ⟨hlast, hyear⟩ := marchLength_spec march
  rw [ofMarch_eq march (k := 11) (by omega) (by omega), next]
  dsimp only
  rw [daysIn_month (Nat.le_refl 11), if_neg (by omega), if_pos (by decide)]
  rfl

/-! ## Counting days -/

theorem isValid_ofDay (n : Int) : (ofDay n).IsValid := by
  obtain ⟨march, dayOfYear, hlength, -, hdate⟩ := exists_ofMarch n
  exact hdate ▸ isValid_ofMarch hlength

/-- **The date of the next day** is the day after. -/
theorem ofDay_succ (n : Int) : ofDay (n + 1) = (ofDay n).next := by
  obtain ⟨march, dayOfYear, hlength, hn, hdate⟩ := exists_ofMarch n
  rw [hdate]
  rcases Nat.lt_or_eq_of_le (Nat.succ_le_of_lt hlength) with hmore | hlast
  · have hnext : n + 1 = marchDay march + (dayOfYear + 1 : Nat) - epochOffset := by omega
    rw [next_ofMarch hmore, hnext, ofDay_march hmore]
  · have hnext : n + 1 = marchDay (march + 1) + (0 : Nat) - epochOffset := by
      rw [marchDay_succ]
      omega
    have hfirst : 0 < marchLength (march + 1) :=
      Nat.lt_of_le_of_lt (Nat.zero_le _) (marchLength_spec (march + 1)).1
    rw [next_endOfMarch hlast, hnext, ofDay_march hfirst]

/-- A date of the calendar is a day of a year that begins in March. -/
theorem exists_march_of_isValid (h : d.IsValid) : ∃ march dayOfYear, dayOfYear < marchLength march ∧
    d = ofMarch march dayOfYear := by
  obtain ⟨year, month, day⟩ := d
  obtain ⟨⟨hfirst, hlast⟩, hday, hend⟩ := h
  dsimp only at hfirst hlast hday hend
  obtain ⟨march, k, hk, rfl, rfl⟩ : ∃ march k, k ≤ 11 ∧ year = yearFrom march k ∧ month = monthFrom k := by
    unfold yearFrom monthFrom
    rcases Nat.lt_or_ge month 3 with hlt | hge
    · exact ⟨year - 1, month + 9, by omega, by rw [if_neg (by omega)]; omega, by rw [if_neg (by omega)]; omega⟩
    · exact ⟨year, month - 3, by omega, by rw [if_pos (by omega)], by rw [if_pos (by omega)]; omega⟩
  rw [daysIn_month hk] at hend
  refine ⟨march, daysBefore k + (day - 1), by omega, ?_⟩
  rw [ofMarch_eq march (k := k) (by omega) (by omega)]
  congr 1
  omega

/-- **A date put together** from a day of a year that begins in March. -/
theorem toDay_ofMarch (h : dayOfYear < marchLength march) :
    toDay (ofMarch march dayOfYear) = marchDay march + dayOfYear - epochOffset := by
  obtain ⟨hk, hbegin, hend⟩ := monthOf_spec h
  generalize monthOf dayOfYear = k at hk hbegin hend
  have hcycle : march.fdiv 400 = march / 400 := Int.fdiv_eq_ediv_of_nonneg _ (by decide)
  have hrest : march.fmod 400 = march % 400 := Int.fmod_eq_emod_of_nonneg _ (by decide)
  have hyear : (if monthFrom k ≤ 2 then yearFrom march k - 1 else yearFrom march k) = march := by
    unfold monthFrom yearFrom
    split <;> split <;> omega
  have hmonth : (if monthFrom k ≤ 2 then monthFrom k + 9 else monthFrom k - 3) = k := by
    unfold monthFrom
    split <;> split <;> omega
  rw [ofMarch_eq march hbegin hend, toDay]
  dsimp only
  rw [hyear, hmonth, hcycle, hrest, marchDay]
  omega

/-- **Taking a day number apart and putting it together** gives the day number. -/
theorem toDay_ofDay (n : Int) : toDay (ofDay n) = n := by
  obtain ⟨march, dayOfYear, hlength, hn, hdate⟩ := exists_ofMarch n
  rw [hdate, toDay_ofMarch hlength, hn]

/-- Putting a date together and taking it apart gives the date, if the calendar has it. -/
theorem ofDay_toDay (h : d.IsValid) : ofDay (toDay d) = d := by
  obtain ⟨march, dayOfYear, hlength, rfl⟩ := exists_march_of_isValid h
  rw [toDay_ofMarch hlength, ofDay_march hlength]

/-- **The date of a day number is the one that counting comes to.** -/
theorem isDay_iff : IsDay n d ↔ d = ofDay n := by
  constructor
  · intro h
    induction h with
    | epoch => rfl
    | next _ ih => rw [ih, ofDay_succ]
    | previous hvalid _ ih =>
      -- the next days are one day, so the days are
      rw [← ofDay_toDay hvalid, ← ofDay_succ] at ih
      have hdays := congrArg toDay ih
      rw [toDay_ofDay, toDay_ofDay, add_left_inj] at hdays
      rw [← ofDay_toDay hvalid, hdays]
  · rintro rfl
    induction n using Int.induction_on with
    | zero => exact .epoch
    | succ n ih => exact ofDay_succ n ▸ ih.next
    | pred n ih =>
      refine .previous (isValid_ofDay _) ?_
      rwa [← ofDay_succ, sub_add_cancel]

/-! ## The order of dates -/

/-- A date comes before another: by its year, then by its month, then by its day. -/
def IsBefore (a b : Date) : Prop :=
  a.year < b.year ∨ a.year = b.year ∧ (a.month < b.month ∨ a.month = b.month ∧ a.day < b.day)

/-- The day after comes after. -/
theorem isBefore_next (d : Date) : d.IsBefore d.next := by
  unfold IsBefore next
  split
  · dsimp only
    omega
  · split <;> dsimp only <;> omega

/-- **Later days have later dates.** -/
theorem isBefore_ofDay_iff : (ofDay n).IsBefore (ofDay m) ↔ n < m := by
  have hlater : ∀ {n m : Int}, n < m → (ofDay n).IsBefore (ofDay m) := by
    intro n m h
    induction m, h using Int.leInduction with
    | base => exact ofDay_succ n ▸ isBefore_next _
    | succ m _ ih =>
      have hnext := isBefore_next (ofDay m)
      rw [← ofDay_succ] at hnext
      unfold IsBefore at ih hnext ⊢
      omega
  refine ⟨fun h => ?_, hlater⟩
  rcases lt_trichotomy n m with hlt | rfl | hgt
  · exact hlt
  · unfold IsBefore at h
    omega
  · have hback := hlater hgt
    unfold IsBefore at h hback
    omega

end Date

end PaymentRelay
