import CannedApi.Number.Binary64
import Mathlib.Data.Rat.Floor
import Mathlib.Tactic.Positivity

/-!
# Rounding to binary64

`divEven` moves a number by at most half of what it divides by, and not at all if it divides.  A whole number of
at most 64 bits is divided by the gap between the values around it, which is at most its 2 ^ 52nd part; so it moves
by at most its 2 ^ 53rd part (`near_ofNat`), to a whole number again, and not at all if it is a value itself
(`value_ofNat_eq_iff`).
-/

namespace CannedApi.Binary64

/-! ## Values -/

/-- the scale of one; a number that is never worked out, as the power is too large for that -/
@[irreducible]
def scaleOfOne : ℕ := 1074

theorem scaleOfOne_eq : scaleOfOne = 1074 := by rw [scaleOfOne]

theorem one_eq : one = twoTo scaleOfOne := by
  delta one scaleOfOne
  exact Eq.refl _

theorem one_pos : 0 < one := by
  rw [one_eq]
  exact twoTo_pos _

def magnitude (x : Binary64) : ℚ := x.units / one

/-- the number that a record stands for -/
def value (x : Binary64) : ℚ := if x.negative then -x.magnitude else x.magnitude

/-- The record is that of a finite value. -/
structure Fits (x : Binary64) : Prop where
  mantissa_lt : x.mantissa < twoTo 53
  scale_le : x.scale ≤ maxScale

/-- The number is a finite binary64 value itself. -/
def Exact (q : ℚ) : Prop := ∃ x : Binary64, x.Fits ∧ x.value = q

section
variable {x : Binary64}

theorem magnitude_nonneg (x : Binary64) : 0 ≤ x.magnitude := by
  unfold magnitude
  positivity

theorem magnitude_eq_iff {q : ℚ} : x.magnitude = q ↔ (x.units : ℚ) = q * one := by
  have hone : (one : ℚ) ≠ 0 := Nat.cast_ne_zero.mpr one_pos.ne'
  exact div_eq_iff hone

theorem abs_value (x : Binary64) : |x.value| = x.magnitude := by
  have hnonneg := magnitude_nonneg x
  rw [value]
  split
  · rw [abs_neg, abs_of_nonneg hnonneg]
  · exact abs_of_nonneg hnonneg

theorem isPositive_iff : x.isPositive = true ↔ 0 < x.value := by
  have hunits : x.magnitude = 0 ↔ x.mantissa = 0 := by
    rw [magnitude_eq_iff, zero_mul, Nat.cast_eq_zero, units, Nat.mul_eq_zero]
    exact or_iff_left (Nat.two_pow_pos _).ne'
  have hnonneg := magnitude_nonneg x
  rw [isPositive, value, Bool.and_eq_true, bne_iff_ne, ne_eq, ← hunits]
  cases x.negative with
  | false => simp [lt_iff_le_and_ne, hnonneg, eq_comm]
  | true => simpa using hnonneg

theorem ceil_eq (x : Binary64) : x.ceil = ⌈x.magnitude⌉₊ := by
  refine eq_of_forall_ge_iff fun k => ?_
  have hone : (0 : ℚ) < one := Nat.cast_pos.mpr one_pos
  rw [Nat.ceil_le, magnitude, div_le_iff₀ hone, ceil, Nat.div_le_iff_le_mul_add_pred one_pos]
  rw [← Nat.cast_mul, Nat.cast_le, Nat.mul_comm one k]
  exact Nat.add_le_add_iff_right

/-- Rounded up to a natural number, a value is nothing if it is not above zero. -/
theorem ceil_value (x : Binary64) : ⌈x.value⌉₊ = if x.isPositive then x.ceil else 0 := by
  by_cases hpos : 0 < x.value
  · rw [if_pos (isPositive_iff.mpr hpos), ceil_eq, ← abs_value, abs_of_pos hpos]
  · rw [if_neg (mt isPositive_iff.mp hpos)]
    exact Nat.ceil_eq_zero.mpr (not_lt.mp hpos)

/-- No value lies between the largest whole number of 64 bits and the next one. -/
theorem value_le_of_lt (hx : x.Fits) (hlt : x.value < 2 ^ 64) : x.value ≤ 2 ^ 64 - 1 := by
  have hone' : (0 : ℚ) < one := Nat.cast_pos.mpr one_pos
  refine not_lt.mp fun hgt => ?_
  have hpos : 0 < x.value := lt_trans (by norm_num) hgt
  have hunits : (x.units : ℚ) = x.value * one := by
    rw [← magnitude_eq_iff, ← abs_value, abs_of_pos hpos]
  have hlow : 2 ^ 64 * one < x.units + one := by
    have h := mul_lt_mul_of_pos_right hgt hone'
    rw [← hunits, sub_mul, one_mul, sub_lt_iff_lt_add] at h
    exact_mod_cast h
  have hhigh : x.units < 2 ^ 64 * one := by
    have h := mul_lt_mul_of_pos_right hlt hone'
    rw [← hunits] at h
    exact_mod_cast h
  rcases Nat.le_total x.scale scaleOfOne with hscale | hscale
  · -- the units are fewer than those of 2 ^ 53
    have hle : x.units ≤ 2 ^ 53 * one := by
      rw [one_eq]
      exact Nat.mul_le_mul hx.mantissa_lt.le (twoTo_le hscale)
    have hone := one_pos
    omega
  · -- the value is a whole number
    obtain ⟨k, hk⟩ : one ∣ x.units := by
      rw [one_eq]
      exact (twoTo_dvd hscale).trans (Nat.dvd_mul_left _ _)
    rw [hk, Nat.mul_comm one, ← Nat.succ_mul] at hlow
    rw [hk, Nat.mul_comm one] at hhigh
    have hk₁ := Nat.lt_of_mul_lt_mul_right hlow
    have hk₂ := Nat.lt_of_mul_lt_mul_right hhigh
    omega

end

/-! ## Quotients -/

section
variable {num den : ℕ}

theorem divEven_eq (num den : ℕ) : divEven num den =
    if den < 2 * (num % den) ∨ 2 * (num % den) = den ∧ num / den % 2 = 1 then num / den + 1 else num / den := rfl

theorem divEven_of_dvd (h : den ∣ num) : divEven num den * den = num := by
  have hmod : num % den = 0 := Nat.mod_eq_zero_of_dvd h
  rcases Nat.eq_zero_or_pos den with rfl | hden
  · rw [Nat.mul_zero, Nat.zero_dvd.mp h]
  · rw [divEven_eq, if_neg (by omega)]
    exact Nat.div_mul_cancel h

/-- What is taken or added is at most half of the divisor. -/
theorem divEven_near (hden : 0 < den) :
    2 * (divEven num den * den) ≤ 2 * num + den ∧ 2 * num ≤ 2 * (divEven num den * den) + den := by
  have hnum := Nat.div_add_mod' num den
  have hrem := Nat.mod_lt num hden
  rw [divEven_eq]
  generalize num / den = q at *
  generalize num % den = r at *
  split
  · rw [Nat.add_mul, Nat.one_mul]
    omega
  · omega

theorem divEven_le (num den : ℕ) : divEven num den ≤ num / den + 1 := by
  rw [divEven_eq]
  generalize num / den = q
  split <;> omega

end

/-! ## The nearest value -/

/-- the record of `m * 2 ^ scale` units, where `m` may have just reached 54 bits -/
def carried (negative : Bool) (m scale : ℕ) : Binary64 :=
  if m = twoTo 53 then ⟨negative, twoTo 52, scale + 1⟩ else ⟨negative, m, scale⟩

/-- the scale of the values around `num / den` units -/
def scaleAt (num den : ℕ) : ℕ := Nat.log2 (num / den) - 52

/-- the units from one of these values to the next -/
def gap (num den : ℕ) : ℕ := twoTo (scaleAt num den)

section
variable {num den m scale : ℕ} {negative : Bool} {x : Binary64}

theorem carried_negative : (carried negative m scale).negative = negative := by
  unfold carried
  split <;> rfl

theorem carried_scale_le : (carried negative m scale).scale ≤ scale + 1 := by
  unfold carried
  split
  · exact le_rfl
  · exact Nat.le_succ scale

theorem carried_mantissa_lt (h : m ≤ twoTo 53) : (carried negative m scale).mantissa < twoTo 53 := by
  unfold carried
  split
  · exact Nat.pow_lt_pow_right (by omega) (by omega)
  · exact Nat.lt_of_le_of_ne h ‹_›

theorem units_carried : (carried negative m scale).units = m * twoTo scale := by
  unfold carried
  split
  · subst m
    show twoTo 52 * twoTo (scale + 1) = twoTo (52 + 1) * twoTo scale
    rw [twoTo_succ 52, twoTo_succ scale, Nat.mul_comm (twoTo scale), ← Nat.mul_assoc]
  · rfl

theorem nearest_eq (negative : Bool) (num den : ℕ) : nearest negative num den =
    let x := carried negative (divEven num (den * gap num den)) (scaleAt num den)
    if x.scale ≤ maxScale then some x else none := rfl

theorem div_gap_lt (num den : ℕ) : num / (den * gap num den) < twoTo 53 := by
  have hgap : 0 < gap num den := twoTo_pos _
  rw [← Nat.div_div_eq_div_mul, Nat.div_lt_iff_lt_mul hgap, gap, ← twoTo_add]
  refine Nat.lt_log2_self.trans_le (twoTo_le ?_)
  unfold scaleAt
  omega

/-- The nearest value is a whole number of gaps. -/
theorem nearest_eq_some (h : nearest negative num den = some x) : x.negative = negative ∧ x.Fits ∧
    x.units = divEven num (den * gap num den) * gap num den := by
  rw [nearest_eq] at h
  obtain ⟨hscale, hx⟩ := Option.ite_none_right_eq_some.mp h
  cases hx
  have hm := (divEven_le num (den * gap num den)).trans (div_gap_lt num den)
  exact ⟨carried_negative, ⟨carried_mantissa_lt hm, hscale⟩, units_carried⟩

theorem exists_nearest (negative : Bool) (h : scaleAt num den < maxScale) :
    ∃ x, nearest negative num den = some x :=
  ⟨_, if_pos (carried_scale_le.trans h)⟩

end

/-! ## Whole units -/

section
variable {u m scale : ℕ}

theorem scaleAt_one (u : ℕ) : scaleAt u 1 = Nat.log2 u - 52 := by rw [scaleAt, Nat.div_one]

/-- A value lies on the gaps. -/
theorem gap_dvd (hm : m < twoTo 53) : gap (m * twoTo scale) 1 ∣ m * twoTo scale := by
  rcases Nat.eq_zero_or_pos m with rfl | hpos
  · rw [Nat.zero_mul]
    exact dvd_zero _
  · have hne : m * twoTo scale ≠ 0 := (Nat.mul_pos hpos (twoTo_pos scale)).ne'
    have hlog : Nat.log2 (m * twoTo scale) < 53 + scale := by
      rw [log2_lt_iff hne, twoTo_add]
      exact Nat.mul_lt_mul_of_pos_right hm (twoTo_pos scale)
    refine (twoTo_dvd ?_).trans (Nat.dvd_mul_left _ _)
    rw [scaleAt_one]
    omega

theorem mul_gap_le (h : twoTo 52 ≤ u) : twoTo 52 * gap u 1 ≤ u := by
  have hne : u ≠ 0 := ((twoTo_pos 52).trans_le h).ne'
  have hlog : 52 ≤ Nat.log2 u := (le_log2_iff hne).mpr h
  rw [gap, ← twoTo_add, ← le_log2_iff hne, scaleAt_one]
  omega

theorem dvd_gap (h : twoTo (52 + scale) ≤ u) : twoTo scale ∣ gap u 1 := by
  have hne : u ≠ 0 := ((twoTo_pos _).trans_le h).ne'
  have hlog := (le_log2_iff hne).mpr h
  refine twoTo_dvd ?_
  rw [scaleAt_one]
  omega

end

/-! ## Whole numbers -/

section
variable {n : ℕ}

theorem ofNat_spec (hn : n < twoTo 64) : (ofNat n).negative = false ∧ (ofNat n).Fits ∧
    (ofNat n).units = divEven (n * one) (gap (n * one) 1) * gap (n * one) 1 := by
  have hscale : scaleAt (n * one) 1 < maxScale := by
    rw [scaleAt_one]
    have hlog : Nat.log2 (n * one) < 64 + scaleOfOne := by
      rcases Nat.eq_zero_or_pos n with rfl | hpos
      · rw [Nat.zero_mul, Nat.log2_zero]
        omega
      · rw [log2_lt_iff (Nat.mul_pos hpos one_pos).ne', twoTo_add, ← one_eq]
        exact Nat.mul_lt_mul_of_pos_right hn one_pos
    rw [scaleOfOne_eq] at hlog
    unfold maxScale
    omega
  obtain ⟨x, hx⟩ := exists_nearest false hscale
  have h := nearest_eq_some hx
  rw [Nat.one_mul] at h
  rw [ofNat, hx]
  exact h

theorem value_ofNat (hn : n < twoTo 64) : (ofNat n).value = (ofNat n).magnitude := by
  rw [value, (ofNat_spec hn).1]
  rfl

theorem units_ofNat_of_dvd (hn : n < twoTo 64) (h : gap (n * one) 1 ∣ n * one) : (ofNat n).units = n * one := by
  rw [(ofNat_spec hn).2.2]
  exact divEven_of_dvd h

/-- From 2 ^ 53 on the gaps are whole numbers, and small against the number. -/
theorem exists_gap (h : twoTo 53 ≤ n) : ∃ g, gap (n * one) 1 = g * one ∧ 2 ^ 52 * g ≤ n := by
  have hlarge : twoTo (53 + scaleOfOne) ≤ n * one := by
    rw [twoTo_add, ← one_eq]
    exact Nat.mul_le_mul_right one h
  have hdvd : one ∣ gap (n * one) 1 := by
    rw [one_eq] at hlarge ⊢
    exact dvd_gap (hlarge.trans' (twoTo_le (by omega)))
  obtain ⟨g, hg⟩ := hdvd
  rw [Nat.mul_comm one g] at hg
  have hle := mul_gap_le (hlarge.trans' (twoTo_le (by omega)))
  rw [hg, ← Nat.mul_assoc] at hle
  exact ⟨g, hg, Nat.le_of_mul_le_mul_right hle one_pos⟩

/-- A whole number is rounded to a whole number, and moves by at most its 2 ^ 53rd part. -/
theorem near_ofNat (hn : n < twoTo 64) : ∃ r : ℕ, (ofNat n).value = r ∧ 2 ^ 53 * |(r : ℤ) - n| ≤ n := by
  have hvalue (r : ℕ) (hr : (ofNat n).units = r * one) : (ofNat n).value = r := by
    rw [value_ofNat hn, magnitude_eq_iff, hr, Nat.cast_mul]
  rcases Nat.lt_or_ge n (twoTo 53) with hlt | hge
  · refine ⟨n, hvalue n (units_ofNat_of_dvd hn ?_), by simp⟩
    rw [one_eq]
    exact gap_dvd hlt
  · obtain ⟨g, hg, hgap⟩ := exists_gap hge
    have hunits := (ofNat_spec hn).2.2
    obtain ⟨r, hr⟩ : ∃ r, (ofNat n).units = r * one := by
      rw [hg, ← Nat.mul_assoc] at hunits
      exact ⟨_, hunits⟩
    have hnear := @divEven_near (n * one) (gap (n * one) 1) (twoTo_pos _)
    rw [← hunits, hr, hg, ← Nat.mul_assoc, ← Nat.mul_assoc, ← Nat.add_mul, ← Nat.add_mul] at hnear
    have hle : 2 * r ≤ 2 * n + g := Nat.le_of_mul_le_mul_right hnear.1 one_pos
    have hge : 2 * n ≤ 2 * r + g := Nat.le_of_mul_le_mul_right hnear.2 one_pos
    refine ⟨r, hvalue r hr, ?_⟩
    rcases abs_cases ((r : ℤ) - n) with ⟨e, -⟩ | ⟨e, -⟩
    · rw [e]
      omega
    · rw [e]
      omega

/-- It stays as it is exactly if it is a value. -/
theorem value_ofNat_eq_iff (hn : n < twoTo 64) : (ofNat n).value = n ↔ Exact n := by
  constructor
  · intro h
    exact ⟨ofNat n, (ofNat_spec hn).2.1, h⟩
  · rintro ⟨x, hx, hvalue⟩
    have hunits : x.units = n * one := by
      have h : x.magnitude = n := by rw [← abs_value, hvalue, Nat.abs_cast]
      exact_mod_cast magnitude_eq_iff.mp h
    have hdvd : gap (n * one) 1 ∣ n * one := hunits ▸ gap_dvd hx.mantissa_lt
    rw [value_ofNat hn, magnitude_eq_iff, units_ofNat_of_dvd hn hdvd, Nat.cast_mul]

end

end CannedApi.Binary64
