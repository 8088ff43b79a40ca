import CannedApi.Proofs.Time.Fields
import Mathlib.Data.String.Basic

/-!
# Texts sort as instants do

Times that exist follow each other as their numbers do, the year first (`TimeFields.millis_lt_millis_iff`), and so do
the texts of times whose year has four digits (`TimeFields.Stands.lt_iff`).  So the texts of the instants of the years
0000 to 9999 have 24 characters, are read back to the millisecond and sort as the instants do
(`Instant.iso_faithful`).
-/

namespace CannedApi

open Text (IsDigits)

/-! ## Times and their texts -/

namespace TimeFields

/-- the numbers in the order in which they stand in a text -/
def numbers (f : TimeFields) : List ℤ :=
  [f.date.year, f.date.month, f.date.day, f.hour, f.minute, f.second, f.milli]

def HasFourDigitYear (f : TimeFields) : Prop := 0 ≤ f.date.year ∧ f.date.year ≤ 9999

theorem YearStands.isDigits {y : ℤ} {cs : List Char} (h : YearStands y cs) (hy : 0 ≤ y ∧ y ≤ 9999) :
    IsDigits 4 y.natAbs cs := by
  cases h with
  | plain _ h => exact h
  | before hneg => omega
  | behind hbig => omega

theorem Stands.length {f : TimeFields} {text : List Char} (h : f.Stands text) (hf : f.HasFourDigitYear) :
    text.length = 24 := by
  obtain ⟨year, month, day, hour, minute, second, milli, hy, hmo, hd, hho, hmi, hs, hms, rfl⟩ := h
  simp [(hy.isDigits hf).1, hmo.1, hd.1, hho.1, hmi.1, hs.1, hms.1]

section
variable {f g : TimeFields}

/-- Times that exist follow each other as their numbers do. -/
theorem millis_lt_millis_iff (hf : f.IsValid) (hg : g.IsValid) : f.millis < g.millis ↔ f.numbers < g.numbers := by
  have hlt := Date.toDays_lt_toDays_iff hf.date hg.date
  have hgt := Date.toDays_lt_toDays_iff hg.date hf.date
  obtain ⟨-, hhour, hminute, hsecond, hmilli⟩ := hf
  obtain ⟨-, hhour', hminute', hsecond', hmilli'⟩ := hg
  simp only [numbers, List.cons_lt_cons_iff, List.not_lt_nil, and_false, or_false, millis]
  omega

/-- All numbers have a fixed width, so the first that differs decides between the texts, too. -/
theorem Stands.lt_iff {s t : List Char} (hs : f.Stands s) (ht : g.Stands t) (hf : f.HasFourDigitYear)
    (hg : g.HasFourDigitYear) : s < t ↔ f.numbers < g.numbers := by
  obtain ⟨year, month, day, hour, minute, second, milli, hy, hmo, hd, hho, hmi, hse, hms, rfl⟩ := hs
  obtain ⟨year', month', day', hour', minute', second', milli', hy', hmo', hd', hho', hmi', hse', hms', rfl⟩ := ht
  have hyear := hy.isDigits hf
  have hyear' := hy'.isDigits hg
  simp only [hyear.append_lt_append_iff hyear', hmo.append_lt_append_iff hmo', hd.append_lt_append_iff hd',
    hho.append_lt_append_iff hho', hmi.append_lt_append_iff hmi', hse.append_lt_append_iff hse',
    hms.append_lt_append_iff hms', numbers, List.cons_lt_cons_iff, lt_irrefl, and_false, or_false, false_or, true_and]
  -- years are not negative
  obtain ⟨hlow, -⟩ := hf
  obtain ⟨hlow', -⟩ := hg
  omega

end

end TimeFields

/-! ## Instants -/

namespace Instant

/-- From the beginning of the year 0 to the end of the year 9999, and no leap second. -/
structure InFourDigitYears (t : Instant) : Prop where
  begun : Date.toDays ⟨0, 1, 1⟩ * secondsPerDay ≤ t.seconds
  ended : t.seconds < Date.toDays ⟨10000, 1, 1⟩ * secondsPerDay
  nanos : t.nanos < nanosPerSecond

section
variable {t u : Instant}

theorem le_date_year_iff {y : ℤ} : y ≤ t.date.year ↔ Date.toDays ⟨y, 1, 1⟩ * secondsPerDay ≤ t.seconds := by
  have hdays : t.date.toDays = t.seconds / secondsPerDay := Date.toDays_ofDays _
  have hdate : t.date.IsValid := Date.isValid_ofDays _
  have hfirst : Date.IsValid ⟨y, 1, 1⟩ := ⟨le_rfl, by norm_num, le_rfl, Date.monthLength_pos y 1⟩
  have hlt := Date.toDays_lt_toDays_iff hdate hfirst
  obtain ⟨hmonth, -, hday, -⟩ := hdate
  rw [hdays] at hlt
  simp only [secondsPerDay] at hlt ⊢
  omega

theorem InFourDigitYears.year (h : t.InFourDigitYears) : t.fields.HasFourDigitYear := by
  have hbegun : 0 ≤ t.date.year := le_date_year_iff.mpr h.begun
  have hended : ¬ 10000 ≤ t.date.year := mt le_date_year_iff.mp (not_le.mpr h.ended)
  exact ⟨hbegun, show t.date.year ≤ 9999 by omega⟩

theorem InFourDigitYears.isValid (h : t.InFourDigitYears) : t.IsValid := by
  obtain ⟨hlow, hhigh⟩ : 0 ≤ t.date.year ∧ t.date.year ≤ 9999 := h.year
  refine ⟨?_, ?_, .inl h.nanos⟩
  · simp only [firstYear]
    omega
  · simp only [lastYear]
    omega

/-- Texts sort as the milliseconds do. -/
theorem iso_lt_iso_iff (ht : t.InFourDigitYears) (hu : u.InFourDigitYears) :
    t.iso < u.iso ↔ t.nanoseconds / 1000000 < u.nanoseconds / 1000000 := by
  rw [String.lt_iff_toList_lt, (stands_fields ht.nanos).lt_iff (stands_fields hu.nanos) ht.year hu.year,
    ← TimeFields.millis_lt_millis_iff (isValid_fields ht.nanos) (isValid_fields hu.nanos), millis_fields, millis_fields]

/-- **Texts are faithful and sort.**  An instant of the years 0000 to 9999 has a text of 24 characters, the fields of
just one time; it exists, and it is the instant without what is below its millisecond.  No later instant of these
years has a lesser text. -/
theorem iso_faithful (ht : t.InFourDigitYears) :
    t.IsValid ∧ t.iso.length = 24 ∧
      (∃ f : TimeFields, f.IsValid ∧ f.HasFourDigitYear ∧ f.Stands t.iso.toList ∧
        (∀ g : TimeFields, g.Stands t.iso.toList → g = f) ∧ f.millis = t.nanoseconds / 1000000) ∧
      ∀ u : Instant, u.InFourDigitYears → t.nanoseconds ≤ u.nanoseconds → t.iso ≤ u.iso := by
  have hstands := stands_fields ht.nanos
  refine ⟨ht.isValid, ?_, ⟨t.fields, isValid_fields ht.nanos, ht.year, hstands, fun g hg => hg.unique hstands,
    millis_fields⟩, fun u hu hle => ?_⟩
  · rw [← String.length_toList]
    exact hstands.length ht.year
  · have hmillis : t.nanoseconds / 1000000 ≤ u.nanoseconds / 1000000 := Int.ediv_le_ediv (by decide) hle
    exact not_lt.mp (mt (iso_lt_iso_iff hu ht).mp (not_lt.mpr hmillis))

end

namespace Ancient

/-- the last nanosecond of the year 0 -/
def newYearsEve : Instant := ⟨-62135596801, 999999999⟩

/-- a microsecond into the last second before 1970 -/
def later : Instant := ⟨-1, 1000⟩

theorem inFourDigitYears_newYearsEve : newYearsEve.InFourDigitYears := ⟨by decide, by decide, by decide⟩

theorem inFourDigitYears_later : later.InFourDigitYears := ⟨by decide, by decide, by decide⟩

end Ancient

theorem iso_faithful_ancient :
    Ancient.newYearsEve.InFourDigitYears ∧ Ancient.newYearsEve.IsValid ∧
      Ancient.newYearsEve.iso = "0000-12-31T23:59:59.999Z" ∧ Ancient.newYearsEve.iso.length = 24 ∧
      (∃ f : TimeFields, f.IsValid ∧ f.HasFourDigitYear ∧ f.Stands Ancient.newYearsEve.iso.toList ∧
        (∀ g : TimeFields, g.Stands Ancient.newYearsEve.iso.toList → g = f) ∧ f.millis = -62135596800001) ∧
      Ancient.later.InFourDigitYears ∧ Ancient.newYearsEve.nanoseconds ≤ Ancient.later.nanoseconds ∧
      Ancient.newYearsEve.iso ≤ Ancient.later.iso := by
  have heve := Ancient.inFourDigitYears_newYearsEve
  have hle : Ancient.newYearsEve.nanoseconds ≤ Ancient.later.nanoseconds := by decide
  obtain ⟨hvalid, hlength, hread, hsorted⟩ := iso_faithful heve
  exact ⟨heve, hvalid, by decide +kernel, hlength, hread, Ancient.inFourDigitYears_later, hle,
    hsorted Ancient.later Ancient.inFourDigitYears_later hle⟩

end Instant

end CannedApi
