import Mathlib.Algebra.Order.Group.Int
import Mathlib.Tactic.Ring
import PaymentRelay.Time.Instant

/-!
# Where years begin

Taking a day number apart goes by years that begin in March (`Date.exists_march`): a day is so many days after the
first of March of some year, and fewer than that year has. From this the year of a day is told without taking it
apart: it is at most `y` exactly if the day comes before the first of January of `y + 1`
(`Date.year_ofDay_le_iff`), and likewise for instants (`Instant.year_le_iff`).
-/

namespace PaymentRelay

namespace Date

/-- The days from 0000-03-01 to the first of March of a year: 365 for each year, and the leap days. -/
def marchDay (year : Int) : Int :=
  365 * year + year / 4 - year / 100 + year / 400

variable {n : Int} {year later : Int}

/-- A year has at least 365 days, -/
theorem le_marchDay_succ (year : Int) : marchDay year + 365 ≤ marchDay (year + 1) := by
  unfold marchDay
  omega

/-- and at most 366. -/
theorem marchDay_succ_le (year : Int) : marchDay (year + 1) ≤ marchDay year + 366 := by
  unfold marchDay
  omega

/-- A later year begins at least 365 days later. -/
theorem marchDay_lt (h : year < later) : marchDay year + 365 ≤ marchDay later := by
  induction later, h using Int.leInduction with
  | base => exact le_marchDay_succ year
  | succ later _ ih =>
    have hsucc := le_marchDay_succ later
    omega

/-- The first of January lies in the year that began in March of the year before. -/
theorem toDay_newYear (year : Int) : toDay ⟨year + 1, 1, 1⟩ = marchDay year + 306 - epochOffset := by
  have hcycle : year.fdiv 400 = year / 400 := Int.fdiv_eq_ediv_of_nonneg _ (by decide)
  have hrest : year.fmod 400 = year % 400 := Int.fmod_eq_emod_of_nonneg _ (by decide)
  simp only [toDay, marchDay, daysBefore, Nat.one_le_ofNat, if_true, add_sub_cancel_right, hcycle, hrest]
  omega

/-- The date of a day of a year that begins in March; the first day is day 0. -/
def ofMarch (march : Int) (dayOfYear : Nat) : Date where
  year := if monthOf dayOfYear < 10 then march else march + 1
  month := if monthOf dayOfYear < 10 then monthOf dayOfYear + 3 else monthOf dayOfYear - 9
  day := dayOfYear - daysBefore (monthOf dayOfYear) + 1

/-- January and February are the last two months of such a year. -/
theorem year_ofMarch (march : Int) (dayOfYear : Nat) :
    (ofMarch march dayOfYear).year = if dayOfYear < 306 then march else march + 1 := by
  have hmonth : monthOf dayOfYear < 10 ↔ dayOfYear < 306 := by
    unfold monthOf
    omega
  simp only [ofMarch, hmonth]

/-- The days of whole cycles of 400 years, of centuries, of blocks of four years and of years are added up. -/
theorem marchDay_of_parts {cycle century block inBlock : Int}
    (h : year = cycle * 400 + century * 100 + block * 4 + inBlock) (hcentury : 0 ≤ century ∧ century ≤ 3)
    (hblock : 0 ≤ block ∧ block ≤ 24) (hinBlock : 0 ≤ inBlock ∧ inBlock ≤ 3) :
    marchDay year = cycle * 146097 + century * 36524 + block * 1461 + inBlock * 365 := by
  have hfour : year / 4 = cycle * 100 + century * 25 + block := by omega
  have hhundred : year / 100 = cycle * 4 + century := by omega
  have hcycle : year / 400 = cycle := by omega
  rw [marchDay, hfour, hhundred, hcycle]
  omega

/-- A length of up to four units, taken apart into three at most and the rest. The rest may be a whole unit, but only if
three were taken. -/
theorem capped_div {length unit : Nat} (hunit : 0 < unit) (h : length ≤ 4 * unit) :
    length = min (length / unit) 3 * unit + (length - min (length / unit) 3 * unit) ∧ min (length / unit) 3 ≤ 3 ∧
      length - min (length / unit) 3 * unit ≤ unit ∧
      (length - min (length / unit) 3 * unit = unit → min (length / unit) 3 = 3) := by
  have hsplit := Nat.div_add_mod' length unit
  have hrest := Nat.mod_lt length hunit
  rcases Nat.lt_or_ge (length / unit) 4 with hfew | hmany
  · rw [Nat.min_eq_left (Nat.le_of_lt_succ hfew)]
    omega
  · have hfull := (Nat.le_div_iff_mul_le hunit).mp hmany
    rw [Nat.min_eq_right (by omega)]
    omega

/-- The parts of a day number: cycles of 400 years, centuries, blocks of four years, years and days. The last year of a
block may have a leap day, but the last block of a century has none unless the century is the last of its cycle. -/
theorem exists_parts (n : Int) : ∃ (cycle : Int) (century block inBlock dayOfYear : Nat),
    ofDay n = ofMarch (cycle * 400 + century * 100 + block * 4 + inBlock) dayOfYear ∧
    n + epochOffset = cycle * 146097 + century * 36524 + block * 1461 + inBlock * 365 + dayOfYear ∧
    (century ≤ 3 ∧ block ≤ 24 ∧ inBlock ≤ 3) ∧
    (dayOfYear < 365 ∨ dayOfYear = 365 ∧ inBlock = 3 ∧ (block < 24 ∨ block = 24 ∧ century = 3)) := by
  have hfdiv : (n + epochOffset).fdiv 146097 = (n + epochOffset) / 146097 :=
    Int.fdiv_eq_ediv_of_nonneg _ (by decide)
  have hfmod : (n + epochOffset).fmod 146097 = (n + epochOffset) % 146097 :=
    Int.fmod_eq_emod_of_nonneg _ (by decide)
  refine ⟨_, _, _, _, _, rfl, ?_⟩
  rw [hfdiv, hfmod]
  generalize n + epochOffset = sinceMarch
  have hcycle : sinceMarch = sinceMarch / 146097 * 146097 + (sinceMarch % 146097).toNat := by omega
  have hinCycle : (sinceMarch % 146097).toNat ≤ 4 * 36524 := by omega
  generalize sinceMarch / 146097 = cycle, (sinceMarch % 146097).toNat = inCycle at hcycle hinCycle ⊢
  obtain ⟨hcentury, hfew, hbound, hlast⟩ := capped_div (by decide) hinCycle
  generalize min (inCycle / 36524) 3 = century at hcentury hfew hbound hlast ⊢
  generalize inCycle - century * 36524 = inCentury at hcentury hbound hlast ⊢
  have hinBlock : inCentury % 1461 ≤ 4 * 365 := by omega
  have hblock : inCentury = inCentury / 1461 * 1461 + inCentury % 1461 := by omega
  have hfewBlocks : inCentury / 1461 ≤ 24 := by omega
  generalize inCentury / 1461 = block, inCentury % 1461 = inBlock at hinBlock hblock hfewBlocks ⊢
  obtain ⟨hyear, hfewYears, hdays, hleap⟩ := capped_div (by decide) hinBlock
  generalize min (inBlock / 365) 3 = year at hyear hfewYears hdays hleap ⊢
  generalize inBlock - year * 365 = day at hyear hdays hleap ⊢
  refine ⟨by rw [hcycle, hcentury, hblock, hyear]; push_cast; ring, ⟨hfew, hfewBlocks, hfewYears⟩, ?_⟩
  refine (Nat.lt_or_eq_of_le hdays).imp_right fun hday => ⟨hday, hleap hday, ?_⟩
  refine (Nat.lt_or_eq_of_le hfewBlocks).imp_right fun hlastBlock => ⟨hlastBlock, hlast ?_⟩
  rw [hblock, hyear, hleap hday, hday, hlastBlock]

/-- **A day number taken apart**: it counts some days from the first of March of a year, and fewer than the year has. -/
theorem exists_march (n : Int) : ∃ (march : Int) (dayOfYear : Nat), ofDay n = ofMarch march dayOfYear ∧
    n + epochOffset = marchDay march + dayOfYear ∧ n + epochOffset < marchDay (march + 1) := by
  obtain ⟨cycle, century, block, inBlock, dayOfYear, hdate, hn, ⟨hcentury, hblock, hinBlock⟩, hday⟩ := exists_parts n
  have hbegin : n + epochOffset = marchDay (cycle * 400 + century * 100 + block * 4 + inBlock) + dayOfYear := by
    rw [hn, marchDay_of_parts rfl (by omega) (by omega) (by omega)]
  refine ⟨_, dayOfYear, hdate, hbegin, ?_⟩
  rcases hday with hday | ⟨hday, hlastYear, hlast⟩
  · have hlength := le_marchDay_succ (cycle * 400 + century * 100 + block * 4 + inBlock)
    omega
  · clear hbegin
    generalize hmarch : cycle * 400 + century * 100 + block * 4 + (inBlock : Int) = march
    -- the day after a leap day begins a block, or a cycle
    rcases hlast with hmore | ⟨hlastBlock, hlastCentury⟩
    · have hnext : march + 1 = cycle * 400 + century * 100 + (block + 1) * 4 + 0 := by omega
      have hend := marchDay_of_parts hnext (by omega) (by omega) (by decide)
      omega
    · have hnext : march + 1 = (cycle + 1) * 400 + 0 * 100 + 0 * 4 + 0 := by omega
      have hend := marchDay_of_parts hnext (by decide) (by decide) (by decide)
      omega

/-- **The year of a day** is at most `year` if the day comes before the first of January after it. -/
theorem year_ofDay_le_iff : (ofDay n).year ≤ year ↔ n < toDay ⟨year + 1, 1, 1⟩ := by
  obtain ⟨march, dayOfYear, hdate, hn, hbound⟩ := exists_march n
  have hfewer := marchDay_succ_le march
  rw [toDay_newYear, hdate, year_ofMarch]
  rcases lt_trichotomy march year with h | rfl | h
  · have hlater := marchDay_lt h
    split <;> omega
  · split <;> omega
  · have hlater := marchDay_lt h
    split <;> omega

end Date

namespace Instant

variable {t : Instant} {d : Duration} {year : Int}

/-- **The year of an instant** is at most `year` if it comes before the first of January after it. -/
theorem year_le_iff : t.date.year ≤ year ↔ t.seconds < Date.toDay ⟨year + 1, 1, 1⟩ * 86400 := by
  rw [date, Date.year_ofDay_le_iff, Int.fdiv_eq_ediv_of_nonneg _ (by decide)]
  exact Int.ediv_lt_iff_lt_mul (by decide)

/-- Nanoseconds that make up a second count for one. -/
theorem seconds_later (t : Instant) (d : Duration) :
    (t.later d).seconds = t.seconds + d.seconds + ((t.nanos + d.nanos) / Duration.nanosPerSecond : Nat) := by
  simp only [later, ofNanos, toNanos, Duration.toNanos, Duration.nanosPerSecond]
  rw [Int.fdiv_eq_ediv_of_nonneg _ (by decide)]
  omega

/-- An instant that was reckoned lies in no leap second. -/
theorem nanos_later_lt (t : Instant) (d : Duration) : (t.later d).nanos < Duration.nanosPerSecond := by
  simp only [later, ofNanos, Duration.nanosPerSecond]
  rw [Int.fmod_eq_emod_of_nonneg _ (by decide)]
  omega

/-- The seconds from the end of a year to the end of the calendar. -/
def secondsAfter (year : Int) : Int :=
  (Date.toDay ⟨lastYear + 1, 1, 1⟩ - Date.toDay ⟨year + 1, 1, 1⟩) * 86400

/-- The calendar goes on for more than 252,000 years after the last that has four digits. -/
example : secondsAfter 9999 = 7956864576000 := by decide

/-- **Whole seconds may be added** up to those from the end of the year to the end of the calendar. -/
theorem add?_isSome (hyear : t.date.year ≤ year) (hnanos : t.nanos < Duration.nanosPerSecond) (hd : d.nanos = 0)
    (hseconds : (d.seconds : Int) ≤ secondsAfter year) : (t.add? d).isSome = true := by
  have hwhole : (t.nanos + d.nanos) / Duration.nanosPerSecond = 0 := by
    rw [hd]
    exact Nat.div_eq_of_lt hnanos
  have hbefore := year_le_iff.mp hyear
  have hafter : (t.later d).date.year ≤ lastYear := by
    rw [year_le_iff, seconds_later, hwhole]
    unfold secondsAfter at hseconds
    omega
  rw [add?, if_pos hafter]
  rfl

end Instant

end PaymentRelay
