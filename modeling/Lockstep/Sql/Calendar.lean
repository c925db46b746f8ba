import Mathlib

/-!
# Civil dates and day numbers

The calendar of `query/sql/Catalog.hpp`: days counted from 1970-01-01 against dates of the proleptic
Gregorian calendar, through eras of 400 years that start in March, and months added to a date.
Numbers are unbounded here. In the years from -999999 to 999999 no value leaves its machine type.
-/

namespace Lockstep.Sql

@[ext]
structure Civil where
  year : ℤ
  month : ℤ
  day : ℤ
  deriving DecidableEq

def daysToCivil (z : ℤ) : Civil :=
  let z := z + 719468
  let era := (if 0 ≤ z then z else z - 146096).tdiv 146097
  let doe := z - era * 146097
  let yoe := (doe - doe / 1460 + doe / 36524 - doe / 146096) / 365
  let y := yoe + era * 400
  let doy := doe - (365 * yoe + yoe / 4 - yoe / 100)
  let mp := (5 * doy + 2) / 153
  let d := doy - (153 * mp + 2) / 5 + 1
  let m := if mp < 10 then mp + 3 else mp - 9
  ⟨if m ≤ 2 then y + 1 else y, m, d⟩

def daysFromCivil (y m d : ℤ) : ℤ :=
  let y := if m ≤ 2 then y - 1 else y
  let era := (if 0 ≤ y then y else y - 399).tdiv 400
  let yoe := y - era * 400
  let doy := (153 * (if 2 < m then m - 3 else m + 9) + 2) / 5 + d - 1
  let doe := yoe * 365 + yoe / 4 - yoe / 100 + doy
  era * 146097 + doe - 719468

def civilToDays (c : Civil) : ℤ := daysFromCivil c.year c.month c.day

def daysInMonth (y m : ℤ) : ℤ :=
  if m = 2 ∧ (y.tmod 4 = 0 ∧ y.tmod 100 ≠ 0 ∨ y.tmod 400 = 0) then 29
  else [31, 28, 31, 30, 31, 30, 31, 31, 30, 31, 30, 31].getD (m - 1).toNat 0

def addMonthsDays (days months : ℤ) : ℤ :=
  let c := daysToCivil days
  let tot := c.month - 1 + months
  let y := c.year + if 0 ≤ tot then tot.tdiv 12 else -((-tot + 11).tdiv 12)
  let nm := (tot.tmod 12 + 12).tmod 12 + 1
  let dim := daysInMonth y nm
  civilToDays ⟨y, nm, if dim < c.day then dim else c.day⟩

def addMonthsSecs (secs months : ℤ) : ℤ :=
  let days := if 0 ≤ secs then secs.tdiv 86400 else -((-secs + 86399).tdiv 86400)
  let rem := secs - days * 86400
  addMonthsDays days months * 86400 + rem

/-! ### Years that start in March -/

/-- The days before the March that starts a year, counted from the March of the year 0. -/
def yearStart (y : ℤ) : ℤ := 365 * y + y / 4 - y / 100 + y / 400

def monthStart (k : ℤ) : ℤ := (153 * k + 2) / 5

lemma yearStart_era (y era : ℤ) : yearStart (y + era * 400) = yearStart y + era * 146097 := by
  have h₁ : (y + era * 400) / 4 = y / 4 + era * 100 := by omega
  have h₂ : (y + era * 400) / 100 = y / 100 + era * 4 := by omega
  have h₃ : (y + era * 400) / 400 = y / 400 + era := by omega
  simp only [yearStart, h₁, h₂, h₃]
  ring

lemma yearStart_succ (y : ℤ) :
    yearStart y + 365 ≤ yearStart (y + 1) ∧ yearStart (y + 1) ≤ yearStart y + 366 := by
  unfold yearStart
  omega

lemma yearStart_mono {y y' : ℤ} (h : y ≤ y') : yearStart y ≤ yearStart y' := by
  unfold yearStart
  omega

lemma monthStart_bounds (doy : ℤ) : monthStart ((5 * doy + 2) / 153) ≤ doy ∧
    ((5 * doy + 2) / 153 ≠ 11 → doy < monthStart ((5 * doy + 2) / 153 + 1)) := by
  unfold monthStart
  omega

lemma tdiv_floor (z : ℤ) {m n : ℤ} (hm : m + 1 = n) (hn : 0 < n) :
    (if 0 ≤ z then z else z - m).tdiv n = z / n := by
  split_ifs with hz
  · exact Int.tdiv_eq_ediv_of_nonneg hz
  have hmod := Int.emod_nonneg z hn.ne'
  have hlt := Int.emod_lt_of_pos z hn
  have hdiv := Int.mul_ediv_add_emod z n
  have hneg : z - m = -(m - z % n + n * -(z / n)) := by linarith
  rw [hneg, Int.neg_tdiv, Int.tdiv_eq_ediv_of_nonneg (by omega),
    Int.add_mul_ediv_left _ _ hn.ne', Int.ediv_eq_zero_of_lt (by omega) (by omega)]
  omega

lemma neg_tdiv_floor (z : ℤ) {m n : ℤ} (hm : m + 1 = n) (hn : 0 < n) :
    (if 0 ≤ z then z.tdiv n else -((-z + m).tdiv n)) = z / n := by
  rw [← tdiv_floor z hm hn]
  split_ifs
  · rfl
  · rw [← Int.neg_tdiv]
    congr 1
    omega

lemma daysInMonth_bounds (y : ℤ) {m : ℤ} (h : 1 ≤ m) (hle : m ≤ 12) :
    1 ≤ daysInMonth y m ∧ daysInMonth y m ≤ 31 := by
  unfold daysInMonth
  interval_cases m <;> simp
  split_ifs <;> decide

namespace Civil

variable {c c' : Civil}

structure Valid (c : Civil) : Prop where
  month_pos : 1 ≤ c.month
  month_le : c.month ≤ 12
  day_pos : 1 ≤ c.day
  day_le : c.day ≤ daysInMonth c.year c.month

def Before (c c' : Civil) : Prop :=
  c.year < c'.year ∨ c.year = c'.year ∧
    (c.month < c'.month ∨ c.month = c'.month ∧ c.day < c'.day)

lemma before_or_eq (c c' : Civil) : c.Before c' ∨ c = c' ∨ c'.Before c := by
  unfold Before
  rw [Civil.ext_iff]
  omega

def marchYear (c : Civil) : ℤ := if c.month ≤ 2 then c.year - 1 else c.year

def marchMonth (c : Civil) : ℤ := if 2 < c.month then c.month - 3 else c.month + 9

lemma toDays_eq (c : Civil) :
    civilToDays c = yearStart c.marchYear + monthStart c.marchMonth + c.day - 719469 := by
  have hera (y : ℤ) := tdiv_floor y (show (399 : ℤ) + 1 = 400 from rfl) (by decide)
  simp only [civilToDays, daysFromCivil, hera, yearStart, monthStart, marchYear, marchMonth]
  omega

lemma daysInMonth_eq (h : 1 ≤ c.month) (hle : c.month ≤ 12) : daysInMonth c.year c.month =
    if c.marchMonth = 11 then yearStart (c.marchYear + 1) - yearStart c.marchYear - monthStart 11
    else monthStart (c.marchMonth + 1) - monthStart c.marchMonth := by
  have hleap : (c.year.tmod 4 = 0 ∧ c.year.tmod 100 ≠ 0 ∨ c.year.tmod 400 = 0) ↔
      yearStart c.year - yearStart (c.year - 1) = 366 := by
    simp only [yearStart, ← Int.dvd_iff_tmod_eq_zero, ne_eq]
    omega
  have hlength : yearStart c.year - yearStart (c.year - 1) = 366 ∨
      yearStart c.year - yearStart (c.year - 1) = 365 := by
    unfold yearStart
    omega
  obtain ⟨y, m, d⟩ := c
  simp only [daysInMonth, hleap, marchYear, marchMonth] at h hle hlength ⊢
  interval_cases m <;> rcases hlength with h | h <;> simp [h, monthStart]

lemma Valid.end_le (h : c.Valid) : 0 ≤ c.marchMonth ∧
    monthStart c.marchMonth + c.day ≤ yearStart (c.marchYear + 1) - yearStart c.marchYear ∧
      (c.marchMonth < 11 → monthStart c.marchMonth + c.day ≤ monthStart (c.marchMonth + 1)) := by
  have hday := h.day_le
  have hbounds : 0 ≤ c.marchMonth ∧ c.marchMonth ≤ 11 := by
    have := h.month_pos
    have := h.month_le
    unfold marchMonth
    omega
  rw [daysInMonth_eq h.month_pos h.month_le] at hday
  split_ifs at hday with hlast
  · rw [hlast]
    omega
  · have hyear := yearStart_succ c.marchYear
    unfold monthStart at hday ⊢
    omega

lemma toDays_lt (h : c.Valid) (h' : c'.Valid) (hbefore : c.Before c') :
    civilToDays c < civilToDays c' := by
  obtain ⟨-, hyear, hmonth⟩ := h.end_le
  obtain ⟨hpos, hle, -⟩ := h'.end_le
  have hday := h'.day_pos
  have hmarch : c.marchYear < c'.marchYear ∨ c.marchYear = c'.marchYear ∧
      (c.marchMonth < c'.marchMonth ∨ c.marchMonth = c'.marchMonth ∧ c.day < c'.day) := by
    obtain ⟨hc, hc', -, -⟩ := h
    obtain ⟨hd, hd', -, -⟩ := h'
    unfold Before at hbefore
    unfold marchYear marchMonth
    omega
  rw [toDays_eq, toDays_eq]
  rcases hmarch with hlt | ⟨heq, hlt | ⟨heq', hlt⟩⟩
  · have := yearStart_mono (show c.marchYear + 1 ≤ c'.marchYear from hlt)
    unfold monthStart at hyear ⊢
    omega
  · have hlast : c'.marchMonth ≤ 11 := by
      have := h'.month_le
      unfold marchMonth
      omega
    have hend := hmonth (by omega)
    rw [heq]
    unfold monthStart at hend ⊢
    omega
  · rw [heq, heq']
    omega

end Civil

/-! ### The two conversions -/

/-- The year that the formula finds in the era is the one the day lies in. -/
lemma yoe_bounds {doe yoe : ℤ} (h : 0 ≤ doe) (hlt : doe < 146097)
    (hyoe : (doe - doe / 1460 + doe / 36524 - doe / 146096) / 365 = yoe) :
    0 ≤ yoe ∧ yoe < 400 ∧ yearStart yoe ≤ doe ∧ doe < yearStart (yoe + 1) := by
  unfold yearStart
  rcases eq_or_ne yoe 399 with rfl | hne
  · omega
  have hera : (yoe + 1) / 400 = 0 := by omega
  have hlast : doe / 146096 = 0 := by omega
  have hcentury : yoe / 100 = doe / 36524 := by omega
  -- the divisor 1460 is a day short of four years: it counts a leap day early, by one at most
  have hleap : doe / 1460 = yoe / 4 ∨ doe / 1460 = yoe / 4 + 1 := by omega
  have hnext : (yoe + 1) / 100 = yoe / 100 ∨
      yoe + 1 = 100 * (yoe / 100 + 1) ∧ (yoe + 1) / 100 = yoe / 100 + 1 := by omega
  refine ⟨by omega, by omega, by omega, ?_⟩
  rcases hleap with hleap | hleap <;> rcases hnext with hnext | hnext <;> omega

lemma daysToCivil_spec (z : ℤ) : (daysToCivil z).Valid ∧ civilToDays (daysToCivil z) = z := by
  have hfloor := tdiv_floor (z + 719468) (show (146096 : ℤ) + 1 = 146097 from rfl) (by decide)
  generalize hc : daysToCivil z = c
  simp only [daysToCivil, hfloor] at hc
  generalize hera : (z + 719468) / 146097 = era at hc
  generalize hdoe : z + 719468 - era * 146097 = doe at hc
  generalize hyoe : (doe - doe / 1460 + doe / 36524 - doe / 146096) / 365 = yoe at hc
  generalize hdoy : doe - (365 * yoe + yoe / 4 - yoe / 100) = doy at hc
  obtain ⟨hmonth, hnext⟩ := monthStart_bounds doy
  generalize hmp : (5 * doy + 2) / 153 = mp at hc hmonth hnext
  obtain ⟨hpos, hlt, hstart, hend⟩ := yoe_bounds (by omega) (by omega) hyoe
  have hyear : yearStart yoe = doe - doy := by
    unfold yearStart
    omega
  have hlength := yearStart_succ yoe
  have hera₀ := yearStart_era yoe era
  have hera₁ := yearStart_era (yoe + 1) era
  rw [add_right_comm] at hera₁
  obtain ⟨hy, hm, hd⟩ := Civil.ext_iff.mp hc
  dsimp only at hy hm hd
  have hm₀ : 1 ≤ c.month := by omega
  have hm₁ : c.month ≤ 12 := by omega
  have hmarchYear : c.marchYear = yoe + era * 400 := by
    unfold Civil.marchYear
    omega
  have hmarchMonth : c.marchMonth = mp := by
    unfold Civil.marchMonth
    omega
  have hday : c.day = doy - monthStart mp + 1 := hd.symm
  refine ⟨⟨hm₀, hm₁, by omega, ?_⟩, ?_⟩
  · rw [Civil.daysInMonth_eq hm₀ hm₁, hmarchYear, hmarchMonth]
    split_ifs with hlast
    · rw [← hlast]
      omega
    · have := hnext hlast
      omega
  · rw [Civil.toDays_eq, hmarchYear, hmarchMonth]
    omega

lemma daysToCivil_civilToDays {c : Civil} (h : c.Valid) : daysToCivil (civilToDays c) = c := by
  obtain ⟨hvalid, hdays⟩ := daysToCivil_spec (civilToDays c)
  rcases (daysToCivil (civilToDays c)).before_or_eq c with hlt | heq | hlt
  · exact absurd (Civil.toDays_lt hvalid h hlt) hdays.not_lt
  · exact heq
  · exact absurd (Civil.toDays_lt h hvalid hlt) hdays.not_gt

lemma daysToCivil_before {z z' : ℤ} (h : z < z') : (daysToCivil z).Before (daysToCivil z') := by
  obtain ⟨hvalid, hdays⟩ := daysToCivil_spec z
  obtain ⟨hvalid', hdays'⟩ := daysToCivil_spec z'
  rcases (daysToCivil z).before_or_eq (daysToCivil z') with hlt | heq | hlt
  · exact hlt
  · exact absurd (hdays.symm.trans (heq ▸ hdays')) h.ne
  · exact absurd (Civil.toDays_lt hvalid' hvalid hlt) (by omega)

/-! ### Months added to a date -/

/-- The date so many months later: the same day of the month, or the last one there is. -/
def Civil.monthsLater (c : Civil) (months : ℤ) : Civil :=
  let k := 12 * c.year + (c.month - 1) + months
  ⟨k / 12, k % 12 + 1, min c.day (daysInMonth (k / 12) (k % 12 + 1))⟩

lemma Civil.Valid.monthsLater {c : Civil} (h : c.Valid) (months : ℤ) :
    (c.monthsLater months).Valid := by
  have hmonth : 1 ≤ (c.monthsLater months).month ∧ (c.monthsLater months).month ≤ 12 := by
    dsimp only [Civil.monthsLater]
    omega
  exact ⟨hmonth.1, hmonth.2, le_min h.day_pos (daysInMonth_bounds _ hmonth.1 hmonth.2).1,
    min_le_right _ _⟩

lemma addMonthsDays_eq (days months : ℤ) :
    addMonthsDays days months = civilToDays ((daysToCivil days).monthsLater months) := by
  generalize hc : daysToCivil days = c
  generalize htot : c.month - 1 + months = tot
  have hmonth : (tot.tmod 12 + 12).tmod 12 = tot % 12 := by
    simp only [Int.tmod_eq_emod]
    split_ifs <;> omega
  have hyear := neg_tdiv_floor tot (show (11 : ℤ) + 1 = 12 from rfl) (by decide)
  have hdiv : (12 * c.year + (c.month - 1) + months) / 12 = c.year + tot / 12 := by omega
  have hmod : (12 * c.year + (c.month - 1) + months) % 12 = tot % 12 := by omega
  simp only [addMonthsDays, Civil.monthsLater, hc, htot, hmonth, hyear, hdiv, hmod, min_def]
  congr 2
  split_ifs <;> omega

/-- The two conversions are inverse and keep the order, and months are added as the calendar does,
without moving the time of day. -/
theorem calendar_arithmetic :
    (∀ z, (daysToCivil z).Valid ∧ civilToDays (daysToCivil z) = z) ∧
      (∀ z z', z < z' → (daysToCivil z).Before (daysToCivil z')) ∧
      (∀ c : Civil, c.Valid → daysToCivil (civilToDays c) = c) ∧
      (∀ z months, daysToCivil (addMonthsDays z months) = (daysToCivil z).monthsLater months) ∧
      ∀ secs months, addMonthsSecs secs months / 86400 = addMonthsDays (secs / 86400) months ∧
        addMonthsSecs secs months % 86400 = secs % 86400 := by
  refine ⟨daysToCivil_spec, fun _ _ ↦ daysToCivil_before, fun _ ↦ daysToCivil_civilToDays, ?_, ?_⟩
  · intro z months
    rw [addMonthsDays_eq]
    exact daysToCivil_civilToDays ((daysToCivil_spec z).1.monthsLater months)
  · intro secs months
    have hdays := neg_tdiv_floor secs (show (86399 : ℤ) + 1 = 86400 from rfl) (by decide)
    simp only [addMonthsSecs, hdays]
    omega

end Lockstep.Sql
