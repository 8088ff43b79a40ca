import CannedApi.Number.Power
import CannedApi.Text.Digits

/-!
# Numerals

What digits are read as.  A number that is padded with zeros has the width if it fits in, and is read back
(`Text.isDigits_padded`).  Texts that begin with numerals of one width are in the order of the numbers
(`Text.IsDigits.append_lt_append_iff`).
-/

namespace CannedApi.Text

/-- `w` digits that are read as `n`. -/
def IsDigits (w n : Nat) (cs : List Char) : Prop := cs.length = w ∧ readDecimal cs = some n

theorem length_decimal_le {w n : Nat} (hw : 0 < w) (h : n < tenTo w) : (decimal n).length ≤ w := by
  induction w generalizing n with
  | zero => exact absurd hw (Nat.lt_irrefl 0)
  | succ w ih =>
    by_cases hn : n < 10
    · simp [decimal_of_lt hn]
    · have hlt : n / 10 < tenTo w := by
        have : n < tenTo w * 10 := h
        omega
      have hpos : 0 < w := Nat.pos_of_ne_zero fun e => by subst e; exact hn h
      simp [decimal_of_le (show 10 ≤ n by omega), ih hpos hlt]

theorem length_padded {w n : Nat} (hw : 0 < w) (h : n < tenTo w) : (padded w n).length = w := by
  have := length_decimal_le hw h
  simp only [padded, List.length_append, List.length_replicate]
  omega

theorem readDigits_zeros (k : Nat) (rest : List Char) :
    readDigits 0 (List.replicate k '0' ++ rest) = readDigits 0 rest := by
  induction k with
  | zero => rfl
  | succ k ih =>
    have hzero : digitValue? '0' = some 0 := rfl
    simp [List.replicate_succ, readDigits, hzero, ih]

theorem readDecimal_padded (w n : Nat) : readDecimal (padded w n) = some n := by
  cases h : padded w n with
  | nil => exact absurd (List.append_eq_nil_iff.mp h).2 (decimal_ne_nil n)
  | cons c rest =>
    show readDigits 0 (c :: rest) = some n
    rw [← h, padded, readDigits_zeros, readDigits_decimal]

/-- A number is padded to the width that it fits in. -/
theorem isDigits_padded {w n : Nat} (hw : 0 < w) (h : n < tenTo w) : IsDigits w n (padded w n) :=
  ⟨length_padded hw h, readDecimal_padded w n⟩

theorem isDigit_of_digitValue? {c : Char} {d : Nat} (h : digitValue? c = some d) : isDigit c := by
  unfold digitValue? at h
  split at h
  · assumption
  · cases h

theorem readDigits_cons_eq_some_iff {acc n : Nat} {c : Char} {rest : List Char} :
    readDigits acc (c :: rest) = some n ↔ ∃ d, digitValue? c = some d ∧ readDigits (acc * 10 + d) rest = some n := by
  cases hc : digitValue? c <;> simp [readDigits, hc]

theorem isDigit_of_readDigits {acc n : Nat} {cs : List Char} (h : readDigits acc cs = some n) :
    ∀ c ∈ cs, isDigit c := by
  induction cs generalizing acc with
  | nil => exact fun c hc => absurd hc List.not_mem_nil
  | cons c rest ih =>
    obtain ⟨d, hd, h⟩ := readDigits_cons_eq_some_iff.mp h
    exact List.forall_mem_cons.mpr ⟨isDigit_of_digitValue? hd, ih h⟩

theorem IsDigits.isDigit {w n : Nat} {cs : List Char} (h : IsDigits w n cs) : ∀ c ∈ cs, Text.isDigit c := by
  cases cs with
  | nil => exact fun c hc => absurd hc List.not_mem_nil
  | cons c rest => exact isDigit_of_readDigits h.2

theorem IsDigits.unique {w w' n n' : Nat} {cs : List Char} (h : IsDigits w n cs) (h' : IsDigits w' n' cs) : n = n' :=
  Option.some.inj (h.2.symm.trans h'.2)

/-! ## Order -/

theorem toNat_of_digitValue? {c : Char} {d : Nat} (h : digitValue? c = some d) : c.toNat = 48 + d ∧ d ≤ 9 := by
  have hdigit := isDigit_of_digitValue? h
  simp only [digitValue?, hdigit, ↓reduceIte, Option.some.injEq] at h
  simp only [isDigit, Bool.and_eq_true, decide_eq_true_eq] at hdigit
  have hlow : 48 ≤ c.toNat := hdigit.1
  have hhigh : c.toNat ≤ 57 := hdigit.2
  have hzero : '0'.toNat = 48 := rfl
  omega

section
variable {acc n n' : Nat} {a a' s s' : List Char}

/-- The digits that follow do not make up for a lead. -/
theorem lt_of_readDigits {acc' : Nat} (hlen : a.length = a'.length) (hacc : acc < acc')
    (h : readDigits acc a = some n) (h' : readDigits acc' a' = some n') : n < n' := by
  induction a generalizing acc acc' a' with
  | nil =>
    obtain rfl := List.length_eq_zero_iff.mp hlen.symm
    cases h
    cases h'
    exact hacc
  | cons c a ih =>
    obtain ⟨c', a', rfl⟩ := List.exists_cons_of_length_eq_add_one hlen.symm
    rw [readDigits_cons_eq_some_iff] at h h'
    obtain ⟨d, hd, h⟩ := h
    obtain ⟨d', hd', h'⟩ := h'
    have hle := (toNat_of_digitValue? hd).2
    exact ih (Nat.succ.inj hlen) (show acc * 10 + d < acc' * 10 + d' by omega) h h'

theorem readDigits_append_lt_iff (hlen : a.length = a'.length) (h : readDigits acc a = some n)
    (h' : readDigits acc a' = some n') : a ++ s < a' ++ s' ↔ n < n' ∨ n = n' ∧ s < s' := by
  induction a generalizing acc a' with
  | nil =>
    obtain rfl := List.length_eq_zero_iff.mp hlen.symm
    obtain rfl : n = n' := Option.some.inj (h.symm.trans h')
    simp
  | cons c a ih =>
    obtain ⟨c', a', rfl⟩ := List.exists_cons_of_length_eq_add_one hlen.symm
    have hrest : a.length = a'.length := Nat.succ.inj hlen
    rw [readDigits_cons_eq_some_iff] at h h'
    obtain ⟨d, hd, h⟩ := h
    obtain ⟨d', hd', h'⟩ := h'
    obtain ⟨hc, -⟩ := toNat_of_digitValue? hd
    obtain ⟨hc', -⟩ := toNat_of_digitValue? hd'
    have hchar : c < c' ↔ c.toNat < c'.toNat := Iff.rfl
    rw [List.cons_append, List.cons_append, List.cons_lt_cons_iff]
    -- the first digits that differ decide
    rcases Nat.lt_trichotomy d d' with hlt | rfl | hgt
    · have := lt_of_readDigits hrest (show acc * 10 + d < acc * 10 + d' by omega) h h'
      exact iff_of_true (.inl (hchar.mpr (by omega))) (.inl this)
    · obtain rfl : c = c' := Char.toNat_inj.mp (hc.trans hc'.symm)
      simp [ih hrest h h']
    · have := lt_of_readDigits hrest.symm (show acc * 10 + d' < acc * 10 + d by omega) h' h
      refine iff_of_false ?_ (by omega)
      rintro (hlt | ⟨rfl, -⟩)
      · rw [hchar] at hlt
        omega
      · omega

/-- Numerals of one width that come first are compared as numbers. -/
theorem IsDigits.append_lt_append_iff {w : Nat} (h : IsDigits w n a) (h' : IsDigits w n' a') :
    a ++ s < a' ++ s' ↔ n < n' ∨ n = n' ∧ s < s' := by
  obtain ⟨hlen, h⟩ := h
  obtain ⟨hlen', h'⟩ := h'
  cases a with
  | nil => cases h
  | cons c a =>
    cases a' with
    | nil => cases h'
    | cons c' a' => exact readDigits_append_lt_iff (hlen.trans hlen'.symm) h h'

end

end CannedApi.Text
