import CannedApi.Time.Calendar
import Mathlib.Tactic.IntervalCases

/-!
# Days and dates

Days are counted from 1970-01-01, one for each date of the calendar (`Date.toDays_epoch`, `Date.toDays_next`).
Every day has a date that exists (`Date.isValid_ofDays`), and from its date the day is found again
(`Date.toDays_ofDays`).  A day of an era is counted off in centuries, groups of four years, years and days
(`Date.Falls`); only the last year of a group has a day more, and only if it is not the last of its century or
else the last of the era.  Days are in the order of their dates (`Date.toDays_lt_toDays_iff`), month after month.
-/

namespace CannedApi.Date

/-! ## Counting days -/

theorem isLeapYear_iff {y : ℤ} : isLeapYear y ↔ y % 4 = 0 ∧ (y % 100 ≠ 0 ∨ y % 400 = 0) := by
  simp [isLeapYear]

/-- the day after -/
def next (d : Date) : Date :=
  if d.day < monthLength d.year d.month then { d with day := d.day + 1 }
  else if d.month < 12 then { d with month := d.month + 1, day := 1 }
  else { year := d.year + 1, month := 1, day := 1 }

/-- Days of whole years, counted from March on, and days of the year. -/
theorem toDays_eq (d : Date) : d.toDays =
    let y := if d.month ≤ 2 then d.year - 1 else d.year
    let m := if d.month ≤ 2 then d.month + 9 else d.month - 3
    365 * y + y / 4 - y / 100 + y / 400 + ((153 * m + 2) / 5 + d.day - 1 : ℕ) - epochDays := by
  simp only [toDays]
  generalize (if d.month ≤ 2 then d.year - 1 else d.year) = y
  generalize ((153 * (if d.month ≤ 2 then d.month + 9 else d.month - 3) + 2) / 5 + d.day - 1) = k
  simp only [eraDays]
  omega

theorem toDays_epoch : toDays ⟨1970, 1, 1⟩ = 0 := by decide

theorem toDays_next {d : Date} (h : d.IsValid) : d.next.toDays = d.toDays + 1 := by
  obtain ⟨y, m, k⟩ := d
  obtain ⟨hm, hm', hk, hk'⟩ := h
  dsimp only at hm hm' hk hk'
  have hlast : ¬ k < monthLength y m → k = monthLength y m := fun h => by omega
  unfold next
  dsimp only
  split
  · simp only [toDays_eq]
    omega
  · rw [hlast ‹_›]
    split
    · have hmonth : m = 2 ∨ m ≠ 2 := by omega
      rcases hmonth with rfl | hne
      · -- the day after February is the first of a year that begins in March
        simp only [toDays_eq, monthLength, Nat.reduceAdd, Nat.reduceLeDiff, ↓reduceIte]
        split
        · have := isLeapYear_iff.mp ‹_›
          omega
        · have := mt isLeapYear_iff.mpr ‹_›
          omega
      · interval_cases m <;>
          simp only [toDays_eq, monthLength, Nat.reduceAdd, Nat.reduceLeDiff, ↓reduceIte, Nat.reduceEqDiff, or_self,
            or_true, or_false] <;> omega
    · obtain rfl : m = 12 := by omega
      simp only [toDays_eq, monthLength, Nat.reduceEqDiff, Nat.reduceLeDiff, ↓reduceIte, or_self]
      omega

/-! ## Days of an era -/

/-- The day `n` of an era is day `d` of the year `k` of the group `q` of the century `c`, all counted from 0. -/
structure Falls (n c q k d : ℕ) : Prop where
  century : c ≤ 3
  group : q ≤ 24
  year : k ≤ 3
  day : d ≤ 365
  leap : d = 365 → k = 3 ∧ (q < 24 ∨ c = 3)
  eq : n = 36524 * c + 1461 * q + 365 * k + d

theorem exists_falls {n : ℕ} (h : n < 146097) : ∃ c q k d, Falls n c q k d := by
  -- the last century, the last group and the last year have the days that are left over
  obtain ⟨c, hc⟩ : ∃ c, c = min (n / 36524) 3 := ⟨_, rfl⟩
  obtain ⟨r, hr⟩ : ∃ r, r = n - 36524 * c := ⟨_, rfl⟩
  obtain ⟨q, hq⟩ : ∃ q, q = min (r / 1461) 24 := ⟨_, rfl⟩
  obtain ⟨s, hs⟩ : ∃ s, s = r - 1461 * q := ⟨_, rfl⟩
  obtain ⟨k, hk⟩ : ∃ k, k = min (s / 365) 3 := ⟨_, rfl⟩
  have hr' : r ≤ 36523 ∨ c = 3 ∧ r ≤ 36524 := by omega
  have hs' : s ≤ 1460 ∧ (q = 24 → s ≤ 1459 ∨ c = 3) := by omega
  refine ⟨c, q, k, s - 365 * k, by omega, by omega, by omega, by omega, fun hd => ?_, by omega⟩
  omega

section
variable {n c q k d : ℕ} (h : Falls n c q k d)
include h

theorem Falls.yearOfEra : (n - n / 1460 + n / 36524 - n / 146096) / 365 = 100 * c + 4 * q + k := by
  obtain ⟨hc, hq, hk, hd, hleap, rfl⟩ := h
  -- groups before the day, one more towards the end of a group and of a leap year above all
  have hgroups : (36524 * c + 1461 * q + 365 * k + d) / 1460 = 25 * c + q ∧ d ≤ 364 ∨
      (36524 * c + 1461 * q + 365 * k + d) / 1460 = 25 * c + q + 1 ∧ 1 ≤ d := by omega
  -- the last day of an era is counted as one of another century
  have hcenturies : (36524 * c + 1461 * q + 365 * k + d) / 36524 = c ∧
        (36524 * c + 1461 * q + 365 * k + d) / 146096 = 0 ∨
      (36524 * c + 1461 * q + 365 * k + d) / 36524 = c + 1 ∧
        (36524 * c + 1461 * q + 365 * k + d) / 146096 = 1 := by omega
  generalize (36524 * c + 1461 * q + 365 * k + d) / 1460 = g at *
  generalize (36524 * c + 1461 * q + 365 * k + d) / 36524 = u at *
  generalize (36524 * c + 1461 * q + 365 * k + d) / 146096 = v at *
  omega

/-- The days of the years before. -/
theorem Falls.firstDay :
    365 * (100 * c + 4 * q + k) + (100 * c + 4 * q + k) / 4 - (100 * c + 4 * q + k) / 100 = n - d := by
  obtain ⟨hc, hq, hk, hd, hleap, rfl⟩ := h
  omega

end

/-! ## The date of a day -/

theorem exists_falls_days (n : ℤ) : ∃ c q k d, Falls ((n + epochDays) % eraDays).toNat c q k d :=
  exists_falls (by simp only [eraDays]; omega)

/-- The date of a day by its year, which begins in March, and its day of the year. -/
theorem ofDays_falls {n : ℤ} {c q k d : ℕ} (h : Falls ((n + epochDays) % eraDays).toNat c q k d) :
    ofDays n =
      let m := (5 * d + 2) / 153
      let month := if m < 10 then m + 3 else m - 9
      { year := (n + epochDays) / eraDays * 400 + (100 * c + 4 * q + k : ℕ) + if month ≤ 2 then 1 else 0
        month := month
        day := d - (153 * m + 2) / 5 + 1 } := by
  have hd : ((n + epochDays) % eraDays).toNat - (((n + epochDays) % eraDays).toNat - d) = d := by
    have := h.eq
    omega
  simp only [ofDays, h.yearOfEra, h.firstDay, hd]

/-- The day that only some years have is the last one of a February with 29 days. -/
theorem Falls.isLeapYear {n c q k d : ℕ} (h : Falls n c q k d) (hd : d = 365) (era : ℤ) :
    isLeapYear (era * 400 + (100 * c + 4 * q + k : ℕ) + 1) := by
  obtain ⟨hc, hq, -, -, hleap, -⟩ := h
  have := hleap hd
  rw [isLeapYear_iff]
  omega

theorem isValid_ofDays (n : ℤ) : (ofDays n).IsValid := by
  obtain ⟨c, q, k, d, h⟩ := exists_falls_days n
  have hd := h.day
  have hleap := fun e => h.isLeapYear e ((n + epochDays) / eraDays)
  rw [ofDays_falls h]
  obtain ⟨m, hm⟩ : ∃ m, m = (5 * d + 2) / 153 := ⟨_, rfl⟩
  have hle : m ≤ 11 := by omega
  simp only [IsValid, ← hm]
  -- February, the last one, is the only month whose length is not fixed
  obtain rfl | hlt : m = 11 ∨ m < 11 := by omega
  · refine ⟨by decide, by decide, by omega, ?_⟩
    simp only [Nat.reduceLT, Nat.reduceSub, Nat.reduceLeDiff, ↓reduceIte, monthLength]
    split
    · omega
    · have : d ≠ 365 := fun e => absurd (hleap e) ‹_›
      omega
  · interval_cases m <;>
      simp only [monthLength, Nat.reduceLT, Nat.reduceAdd, Nat.reduceSub, ↓reduceIte, Nat.reduceEqDiff, or_self,
        or_true, true_or] <;>
      omega

/-- A day is found again from its date. -/
theorem toDays_ofDays (n : ℤ) : toDays (ofDays n) = n := by
  obtain ⟨c, q, k, d, h⟩ := exists_falls_days n
  have hfirst := h.firstDay
  have heq := h.eq
  obtain ⟨m, hm⟩ : ∃ m, m = (5 * d + 2) / 153 := ⟨_, rfl⟩
  obtain ⟨y, hy⟩ : ∃ y, y = 100 * c + 4 * q + k := ⟨_, rfl⟩
  rw [← hy] at hfirst
  have hlt : m ≤ 11 ∧ y < 400 := by
    obtain ⟨hc, hq, hk, hd, -, -⟩ := h
    omega
  -- years and months are counted from March on again
  have hyear : (if (ofDays n).month ≤ 2 then (ofDays n).year - 1 else (ofDays n).year) =
      (n + epochDays) / eraDays * 400 + y := by
    rw [ofDays_falls h, ← hy]
    dsimp only
    split <;> omega
  have hmonth : (if (ofDays n).month ≤ 2 then (ofDays n).month + 9 else (ofDays n).month - 3) = m := by
    have hmo : (ofDays n).month = if m < 10 then m + 3 else m - 9 := by rw [ofDays_falls h, hm]
    split at hmo <;> split <;> omega
  have hday : (153 * m + 2) / 5 + (ofDays n).day - 1 = d := by
    rw [ofDays_falls h]
    dsimp only
    omega
  have hsplit : ((n + epochDays) / eraDays * 400 + (y : ℤ)) / 400 = (n + epochDays) / eraDays ∧
      ((n + epochDays) / eraDays * 400 + (y : ℤ)) % 400 = y := by omega
  have hdays : y * 365 + y / 4 - y / 100 + d = ((n + epochDays) % eraDays).toNat := by omega
  simp only [toDays, hyear, hmonth, hday, hsplit, Int.toNat_natCast, hdays]
  simp only [eraDays]
  omega

/-! ## The order of dates -/

/-- months since the beginning of the year 0 -/
def months (d : Date) : ℤ := 12 * d.year + d.month - 1

/-- the first day of a month, which is given by the months since the beginning of the year 0 -/
def firstOf (i : ℤ) : Date := ⟨i / 12, (i % 12).toNat + 1, 1⟩

/-- the last day of a month -/
def lastOf (i : ℤ) : Date := { firstOf i with day := monthLength (firstOf i).year (firstOf i).month }

theorem monthLength_pos (y : ℤ) (m : ℕ) : 0 < monthLength y m := by
  unfold monthLength
  grind

theorem isValid_lastOf (i : ℤ) : (lastOf i).IsValid := by
  refine ⟨?_, ?_, monthLength_pos _ _, le_rfl⟩ <;> simp only [lastOf, firstOf] <;> omega

theorem months_lastOf (i : ℤ) : (lastOf i).months = i := by
  simp only [months, lastOf, firstOf]
  omega

theorem next_lastOf (i : ℤ) : (lastOf i).next = firstOf (i + 1) := by
  have hmonth : (lastOf i).month = (i % 12).toNat + 1 := rfl
  have hday : ¬ (lastOf i).day < monthLength (lastOf i).year (lastOf i).month := Nat.lt_irrefl _
  rw [next, if_neg hday]
  split <;> simp only [lastOf, firstOf, Date.mk.injEq, and_true] <;> omega

theorem firstOf_months {d : Date} (h : d.IsValid) : firstOf d.months = ⟨d.year, d.month, 1⟩ := by
  obtain ⟨hm, hm', -, -⟩ := h
  simp only [firstOf, months, Date.mk.injEq, and_true]
  omega

theorem toDays_day {d : Date} (h : d.IsValid) : d.toDays = (firstOf d.months).toDays + d.day - 1 := by
  rw [firstOf_months h, toDays_eq, toDays_eq]
  have := h.2.2.1
  dsimp only
  omega

/-- A month is as long as the days from its first one to the first one of the next month. -/
theorem toDays_firstOf_succ (i : ℤ) :
    (firstOf (i + 1)).toDays = (firstOf i).toDays + monthLength (firstOf i).year (firstOf i).month := by
  have hday : (lastOf i).day = monthLength (firstOf i).year (firstOf i).month := rfl
  rw [← next_lastOf, toDays_next (isValid_lastOf i), toDays_day (isValid_lastOf i), months_lastOf, hday]
  omega

theorem toDays_firstOf_le {i j : ℤ} (h : i ≤ j) : (firstOf i).toDays ≤ (firstOf j).toDays := by
  induction j, h using Int.leInduction with
  | base => exact le_rfl
  | succ j _ ih =>
    rw [toDays_firstOf_succ]
    omega

section
variable {d e : Date} (hd : d.IsValid) (he : e.IsValid)
include hd

theorem toDays_lt_firstOf_succ : d.toDays < (firstOf (d.months + 1)).toDays := by
  have := hd.2.2.2
  rw [toDays_day hd, toDays_firstOf_succ, firstOf_months hd]
  dsimp only
  omega

include he

theorem toDays_lt_of_months_lt (h : d.months < e.months) : d.toDays < e.toDays :=
  calc d.toDays < (firstOf (d.months + 1)).toDays := toDays_lt_firstOf_succ hd
    _ ≤ (firstOf e.months).toDays := toDays_firstOf_le h
    _ ≤ e.toDays := by
      have := he.2.2.1
      rw [toDays_day he]
      omega

/-- Dates are counted in the order of years, then months, then days. -/
theorem toDays_lt_toDays_iff :
    d.toDays < e.toDays ↔
      d.year < e.year ∨ d.year = e.year ∧ (d.month < e.month ∨ d.month = e.month ∧ d.day < e.day) := by
  have hmonths : d.months = 12 * d.year + d.month - 1 ∧ e.months = 12 * e.year + e.month - 1 := ⟨rfl, rfl⟩
  obtain ⟨hm, hm', -, -⟩ := id hd
  obtain ⟨hn, hn', -, -⟩ := id he
  rcases lt_trichotomy d.months e.months with hlt | heq | hgt
  · have := toDays_lt_of_months_lt hd he hlt
    omega
  · have hd' := toDays_day hd
    have he' := toDays_day he
    rw [heq] at hd'
    omega
  · have := toDays_lt_of_months_lt he hd hgt
    omega

end

end CannedApi.Date
