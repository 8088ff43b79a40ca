import CannedApi.Proofs.Json.WellFormed
import CannedApi.Proofs.Mock.Splitting

/-!
# Delays

A delay is read as a double and then rounded up (`MockSettings.exists_readDelay_number`).  A double is left as it is
by the first of the two steps (`MockSettings.millis_double`); a whole number may move by at most its 2 ^ 53rd part
(`MockSettings.millis_natCast`), and then the answer does not wait for the time that was asked for
(`MockSettings.delay_eq_ceil_iff`).
-/

namespace CannedApi

/-! ## Numbers -/

theorem IsWhole.natCast_lt {k : ℕ} (h : IsWhole k) : k < 2 ^ 64 := by
  have hlt : (k : ℤ) < 18446744073709551616 := h.2
  omega

namespace JsonNumber

/-- the number that is meant -/
def value : JsonNumber → ℚ
  | .whole n _ => n
  | .double x => x.value

theorem toBinary64_natCast {k : ℕ} (h : IsWhole k) :
    (JsonNumber.whole k h).toBinary64 = Binary64.ofNat k := by
  have hsame (x : Binary64) (hx : x.negative = false) : { x with negative := false } = x := by rw [← hx]
  have hsign : decide ((k : ℤ) < 0) = false := by simp
  rw [toBinary64, hsign, Int.natAbs_natCast]
  exact hsame _ (Binary64.ofNat_spec h.natCast_lt).1

theorem toBinary64_nonpos {n : ℤ} (h : IsWhole n) (hn : n ≤ 0) :
    (JsonNumber.whole n h).toBinary64.value ≤ 0 := by
  rcases hn.lt_or_eq with hlt | rfl
  · have hsign : decide (n < 0) = true := by simpa using hlt
    rw [toBinary64, hsign]
    exact neg_nonpos.mpr (Binary64.magnitude_nonneg _)
  · exact not_lt.mp (mt Binary64.isPositive_iff.mpr (by revert h; decide +kernel))

end JsonNumber

/-- Settings that were read have each key once, and no number beyond the finite ones. -/
theorem Json.holds_fit_of_read {text : String} {c : Json} (h : Json.read text = .ok c) :
    c.KeysDistinct ∧ ∀ k d, c.Holds k (.number d) → d.Fits := by
  cases Json.wellFormed_of_read h with
  | object hkeys hvalues =>
    refine ⟨hkeys, fun k d hholds => ?_⟩
    obtain ⟨_, e, hmem⟩ := hholds
    cases e
    cases hvalues _ hmem with
    | number hfits => exact hfits
  | _ =>
    refine ⟨trivial, fun k d hholds => ?_⟩
    obtain ⟨_, e, -⟩ := hholds
    cases e

namespace MockSettings

/-- the milliseconds that a number asks for -/
def millis (d : JsonNumber) : ℕ := min ⌈d.toBinary64.value⌉₊ longestDelay

/-- A number is rounded to a double, then up, then down to the longest delay. -/
theorem exists_readDelay_number (d : JsonNumber) :
    ∃ delay, readDelay (some (.number d)) = .ok delay ∧ delay.getD 0 = millis d := by
  refine ⟨_, rfl, ?_⟩
  rw [millis, Binary64.ceil_value]
  by_cases hpos : d.toBinary64.isPositive
  · rw [if_pos hpos, if_pos hpos, Option.getD_some]
  · rw [if_neg hpos, if_neg hpos, Nat.zero_min, Option.getD_none]

/-- The answer waits for what the number asks for. -/
theorem exists_delayMillis {c : Json} {d : JsonNumber} (hc : c.KeysDistinct)
    (hstatus : ∀ v, c.Holds "status" v → IsStatus v) (hdelay : c.Holds "delay" (.number d)) :
    ∃ s, ofJson c = .ok s ∧ s.delayMillis = millis d := by
  have hisDelay (v : Json) (hv : c.Holds "delay" v) : IsDelay v := by
    rw [hv.unique hc hdelay]
    trivial
  obtain ⟨delay, hread, hsettings⟩ := ofJson_of_good hc hstatus hisDelay
  obtain ⟨delay', hread', hmillis⟩ := exists_readDelay_number d
  rw [(Json.holds_iff hc).mp hdelay, hread'] at hread
  obtain rfl : delay' = delay := Except.ok.inj hread
  exact ⟨_, hsettings, hmillis⟩

section
variable {d : JsonNumber}

theorem millis_double {x : Binary64} (hx : x.Fits) (hlt : x.value < 2 ^ 64) :
    millis (.double x) = ⌈x.value⌉₊ := by
  refine min_eq_left (Nat.ceil_le.mpr ?_)
  refine (Binary64.value_le_of_lt hx hlt).trans ?_
  norm_num [longestDelay]

theorem millis_nonpos {n : ℤ} (h : IsWhole n) (hn : n ≤ 0) : millis (.whole n h) = 0 := by
  rw [millis, Nat.ceil_eq_zero.mpr (JsonNumber.toBinary64_nonpos h hn)]
  rfl

/-- The longest delay is rounded to the next number. -/
theorem value_ofNat_longestDelay : (Binary64.ofNat longestDelay).value = (2 ^ 64 : ℕ) := by
  have hlt : longestDelay < twoTo 64 := by decide
  have hunits : (Binary64.ofNat longestDelay).units = 2 ^ 64 * Binary64.one := by decide +kernel
  rw [Binary64.value_ofNat hlt, Binary64.magnitude_eq_iff, hunits, Nat.cast_mul]

/-- A whole number moves by at most its 2 ^ 53rd part, and stays if it is a double; the longest delay stops the
one above it. -/
theorem millis_natCast {k : ℕ} (h : IsWhole k) : 2 ^ 53 * |(millis (.whole k h) : ℤ) - k| ≤ k ∧
    (millis (.whole k h) = k ↔ Binary64.Exact k ∨ k = longestDelay) := by
  have hlt := h.natCast_lt
  have hle : k ≤ longestDelay := by
    unfold longestDelay
    omega
  obtain ⟨r, hr, hnear⟩ := Binary64.near_ofNat hlt
  have hmillis : millis (.whole k h) = min r longestDelay := by
    rw [millis, JsonNumber.toBinary64_natCast, hr, Nat.ceil_natCast]
  have hexact : r = k ↔ Binary64.Exact k := by
    rw [← Binary64.value_ofNat_eq_iff hlt, hr, Nat.cast_inj]
  rw [hmillis, ← hexact]
  rcases Nat.lt_or_ge longestDelay r with hstop | hfits
  · rw [Nat.min_eq_right hstop.le]
    have hnear' : 2 ^ 53 * |(longestDelay : ℤ) - k| ≤ 2 ^ 53 * |(r : ℤ) - k| := by
      rw [abs_of_nonneg (by omega), abs_of_nonneg (by omega)]
      omega
    exact ⟨hnear'.trans hnear, by omega⟩
  · rw [Nat.min_eq_left hfits]
    refine ⟨hnear, or_iff_left_of_imp ?_ |>.symm⟩
    rintro rfl
    have hr' : r = 2 ^ 64 := Nat.cast_inj.mp (hr.symm.trans value_ofNat_longestDelay)
    unfold longestDelay at hfits
    omega

theorem millis_eq_ceil_iff (hd : d.Fits) (hlt : d.value < 2 ^ 64) :
    millis d = ⌈d.value⌉₊ ↔ d.value ≤ 0 ∨ Binary64.Exact d.value ∨ d.value = 2 ^ 64 - 1 := by
  cases d with
  | double x =>
    have hexact : Binary64.Exact x.value := ⟨x, hd, rfl⟩
    exact iff_of_true (millis_double hd hlt) (Or.inr (Or.inl hexact))
  | whole n h =>
    show millis (.whole n h) = ⌈(n : ℚ)⌉₊ ↔ (n : ℚ) ≤ 0 ∨ Binary64.Exact n ∨ (n : ℚ) = 2 ^ 64 - 1
    rcases lt_or_ge 0 n with hpos | hn
    · obtain ⟨k, rfl⟩ := Int.eq_ofNat_of_zero_le hpos.le
      have hlongest : (k : ℚ) = 2 ^ 64 - 1 ↔ k = longestDelay := by
        have hcast : (2 ^ 64 - 1 : ℚ) = (longestDelay : ℕ) := by norm_num [longestDelay]
        rw [hcast, Nat.cast_inj]
      have hnonpos : ¬ (k : ℚ) ≤ 0 := not_le.mpr (by exact_mod_cast hpos)
      rw [Int.cast_natCast, Nat.ceil_natCast, hlongest, or_iff_right hnonpos]
      exact (millis_natCast h).2
    · have hvalue : (n : ℚ) ≤ 0 := Int.cast_nonpos.mpr hn
      rw [millis_nonpos h hn, Nat.ceil_eq_zero.mpr hvalue]
      exact iff_of_true rfl (Or.inl hvalue)

theorem millis_near (hd : d.Fits) (hlt : d.value < 2 ^ 64) :
    2 ^ 53 * |(millis d : ℚ) - ⌈d.value⌉₊| ≤ |d.value| := by
  cases d with
  | double x =>
    have hmillis : millis (.double x) = ⌈JsonNumber.value (.double x)⌉₊ := millis_double hd hlt
    rw [hmillis, sub_self, abs_zero, mul_zero]
    exact abs_nonneg _
  | whole n h =>
    show 2 ^ 53 * |(millis (.whole n h) : ℚ) - ⌈(n : ℚ)⌉₊| ≤ |(n : ℚ)|
    rcases lt_or_ge 0 n with hpos | hn
    · obtain ⟨k, rfl⟩ := Int.eq_ofNat_of_zero_le hpos.le
      rw [Int.cast_natCast, Nat.ceil_natCast, Nat.abs_cast]
      have hcast := Int.cast_le (R := ℚ).mpr (millis_natCast h).1
      push_cast at hcast
      exact hcast
    · rw [millis_nonpos h hn, Nat.ceil_eq_zero.mpr (Int.cast_nonpos.mpr hn), sub_self, abs_zero, mul_zero]
      exact abs_nonneg _

end

/-- **A delay is rounded up, unless it is a whole number that no double is.**  Settings with a status that can be
and a number as delay are read, and the answer waits for the smallest whole number of milliseconds that is not below
that number (none if it is not above zero) exactly if the number is not above zero, is a double, or is the longest
delay.  It never waits for a number of milliseconds that is more than a 2 ^ 53rd part of the delay away from that. -/
theorem delay_eq_ceil_iff {c : Json} {d : JsonNumber} (hc : c.KeysDistinct)
    (hstatus : ∀ v, c.Holds "status" v → IsStatus v) (hdelay : c.Holds "delay" (.number d)) (hd : d.Fits)
    (hlt : d.value < 2 ^ 64) : ∃ s, ofJson c = .ok s ∧
      (s.delayMillis = ⌈d.value⌉₊ ↔ d.value ≤ 0 ∨ Binary64.Exact d.value ∨ d.value = 2 ^ 64 - 1) ∧
      2 ^ 53 * |(s.delayMillis : ℚ) - ⌈d.value⌉₊| ≤ |d.value| := by
  obtain ⟨s, hs, hmillis⟩ := exists_delayMillis hc hstatus hdelay
  refine ⟨s, hs, ?_⟩
  rw [hmillis]
  exact ⟨millis_eq_ceil_iff hd hlt, millis_near hd hlt⟩

/-! ## A delay that is cut short -/

namespace Beyond

/-- 2 ^ 53 + 1, which lies between two doubles -/
def number : JsonNumber := .whole 9007199254740993 (by decide)

def settings : Json := .object [("delay", .number number)]

theorem settings_distinct : settings.KeysDistinct := by
  show (Entries.keys _).Nodup
  decide

theorem no_status (v : Json) : ¬ settings.Holds "status" v := by
  rw [Json.holds_iff settings_distinct]
  intro h
  cases h

theorem holds_delay : settings.Holds "delay" (.number number) := (Json.holds_iff settings_distinct).mpr rfl

theorem value_number : number.value = (9007199254740993 : ℕ) := rfl

theorem delayMillis_of_read {s : MockSettings} (h : ofJson settings = .ok s) : s.delayMillis = 9007199254740992 := by
  have hread : (ofJson settings).toOption.map delayMillis = some 9007199254740992 := by decide +kernel
  rw [h] at hread
  exact Option.some.inj hread

end Beyond

/-- The answer waits one millisecond too short; the delay is no double. -/
theorem delay_eq_ceil_iff_beyond : ∃ s, ofJson Beyond.settings = .ok s ∧
    s.delayMillis + 1 = ⌈Beyond.number.value⌉₊ ∧ ¬ Binary64.Exact Beyond.number.value := by
  have hceil : ⌈Beyond.number.value⌉₊ = 9007199254740993 := by rw [Beyond.value_number, Nat.ceil_natCast]
  obtain ⟨s, hs, hiff, -⟩ := delay_eq_ceil_iff Beyond.settings_distinct
    (fun v hv => absurd hv (Beyond.no_status v)) Beyond.holds_delay trivial (by rw [Beyond.value_number]; norm_num)
  have hdelay := Beyond.delayMillis_of_read hs
  refine ⟨s, hs, by rw [hdelay, hceil], fun hexact => ?_⟩
  have := hiff.mpr (Or.inr (Or.inl hexact))
  omega

/-- So a delay is not always the time that was asked for. -/
theorem not_delay_eq_ceil : ¬ ∀ (c : Json) (d : JsonNumber), c.KeysDistinct →
    (∀ v, c.Holds "status" v → IsStatus v) → c.Holds "delay" (.number d) → d.Fits → d.value < 2 ^ 64 →
    ∃ s, ofJson c = .ok s ∧ s.delayMillis = ⌈d.value⌉₊ := by
  intro h
  obtain ⟨s, hs, heq⟩ := h Beyond.settings Beyond.number Beyond.settings_distinct
    (fun v hv => absurd hv (Beyond.no_status v)) Beyond.holds_delay trivial (by rw [Beyond.value_number]; norm_num)
  rw [Beyond.delayMillis_of_read hs, Beyond.value_number, Nat.ceil_natCast] at heq
  omega

end MockSettings

end CannedApi
