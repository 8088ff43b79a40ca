import CannedApi.Proofs.Text.Numerals
import CannedApi.Proofs.Time.Calendar
import CannedApi.Time.Instant

/-!
# Texts that denote instants

The fields of a calendar time, the text that they are read from (`TimeFields.Stands`) and the milliseconds since
1970 that they stand for (`TimeFields.millis`).  The text of an instant denotes the instant without what is below
its millisecond (`Instant.denotes_iso`).
-/

namespace CannedApi

open Text (IsDigits)

/-- A time of the calendar, to the millisecond. -/
structure TimeFields where
  date : Date
  hour : ℕ
  minute : ℕ
  second : ℕ
  milli : ℕ

namespace TimeFields

/-- The date exists, and so does the time of day. -/
structure IsValid (f : TimeFields) : Prop where
  date : f.date.IsValid
  hour : f.hour < 24
  minute : f.minute < 60
  second : f.second < 60
  milli : f.milli < 1000

/-- milliseconds since 1970 -/
def millis (f : TimeFields) : ℤ :=
  (f.date.toDays * 86400 + f.hour * 3600 + f.minute * 60 + f.second) * 1000 + f.milli

/-- A year has four digits; before the year 0 and behind the year 9999 it has a sign and at least four. -/
inductive YearStands (y : ℤ) : List Char → Prop
  | plain {cs : List Char} (hy : 0 ≤ y) (h : IsDigits 4 y.natAbs cs) : YearStands y cs
  | before {w : ℕ} {cs : List Char} (hy : y < 0) (hw : 4 ≤ w) (h : IsDigits w y.natAbs cs) : YearStands y ('-' :: cs)
  | behind {w : ℕ} {cs : List Char} (hy : 9999 < y) (hw : 4 ≤ w) (h : IsDigits w y.natAbs cs) :
      YearStands y ('+' :: cs)

/-- The text is `YYYY-MM-DDTHH:MM:SS.mmmZ` with these fields. -/
def Stands (f : TimeFields) (text : List Char) : Prop :=
  ∃ year month day hour minute second milli,
    YearStands f.date.year year ∧ IsDigits 2 f.date.month month ∧ IsDigits 2 f.date.day day ∧
    IsDigits 2 f.hour hour ∧ IsDigits 2 f.minute minute ∧ IsDigits 2 f.second second ∧ IsDigits 3 f.milli milli ∧
    text = year ++ '-' :: (month ++ '-' :: (day ++ 'T' :: (hour ++ ':' :: (minute ++ ':' :: (second ++
      '.' :: (milli ++ ['Z']))))))

theorem yearStands_yearText (y : ℤ) : YearStands y (Instant.yearText y).toList := by
  have habove {w : ℕ} (n : ℕ) : IsDigits (Text.padded w n).length n (Text.padded w n) :=
    ⟨rfl, Text.readDecimal_padded w n⟩
  unfold Instant.yearText
  split
  · have hlt : y.natAbs < 10000 := by omega
    rw [show y.toNat = y.natAbs by omega, Text.paddedText, String.toList_ofList]
    exact .plain (by omega) (Text.isDigits_padded (by decide) hlt)
  · rw [String.toList_append, Text.paddedText, String.toList_ofList]
    split
    · exact .before ‹_› (Text.le_length_padded 4 _) (habove _)
    · exact .behind (by omega) (Text.le_length_padded 4 _) (habove _)

/-! ## A text has one reading -/

section
variable {y y' : ℤ} {cs : List Char}

theorem YearStands.unique (h : YearStands y cs) (h' : YearStands y' cs) : y = y' := by
  have hsign {w n : ℕ} {c : Char} {rest : List Char} (hc : Text.isDigit c = false) :
      ¬ IsDigits w n (c :: rest) := fun hd => by
    have := hd.isDigit c List.mem_cons_self
    simp [hc] at this
  have hminus : Text.isDigit '-' = false := by decide
  have hplus : Text.isDigit '+' = false := by decide
  cases h with
  | plain hy h =>
    cases h' with
    | plain hy' h' =>
      have := h.unique h'
      omega
    | before _ _ _ => exact absurd h (hsign hminus)
    | behind _ _ _ => exact absurd h (hsign hplus)
  | before hy _ h =>
    cases h' with
    | plain _ h' => exact absurd h' (hsign hminus)
    | before hy' _ h' =>
      have := h.unique h'
      omega
  | behind hy _ h =>
    cases h' with
    | plain _ h' => exact absurd h' (hsign hplus)
    | behind hy' _ h' =>
      have := h.unique h'
      omega

/-- Numerals of one width end at the same place. -/
theorem unique_front {w n n' : ℕ} {a a' s s' : List Char} (h : IsDigits w n a) (h' : IsDigits w n' a')
    (heq : a ++ s = a' ++ s') : n = n' ∧ s = s' := by
  obtain ⟨rfl, rfl⟩ := List.append_inj heq (h.1.trans h'.1.symm)
  exact ⟨h.unique h', rfl⟩

theorem Stands.unique {f f' : TimeFields} {text : List Char} (h : f.Stands text) (h' : f'.Stands text) : f = f' := by
  obtain ⟨⟨year, month, day⟩, hour, minute, second, milli⟩ := f
  obtain ⟨⟨year', month', day'⟩, hour', minute', second', milli'⟩ := f'
  obtain ⟨y, mo, d, ho, mi, s, ms, hy, hmo, hd, hho, hmi, hs, hms, rfl⟩ := h
  obtain ⟨y', mo', d', ho', mi', s', ms', hy', hmo', hd', hho', hmi', hs', hms', heq⟩ := h'
  -- what is behind the year has the same length in all texts
  obtain ⟨rfl, h₁⟩ := List.append_inj' heq (by
    simp [hmo.1, hd.1, hho.1, hmi.1, hs.1, hms.1, hmo'.1, hd'.1, hho'.1, hmi'.1, hs'.1, hms'.1])
  obtain ⟨rfl, h₂⟩ := unique_front hmo hmo' (List.cons.inj h₁).2
  obtain ⟨rfl, h₃⟩ := unique_front hd hd' (List.cons.inj h₂).2
  obtain ⟨rfl, h₄⟩ := unique_front hho hho' (List.cons.inj h₃).2
  obtain ⟨rfl, h₅⟩ := unique_front hmi hmi' (List.cons.inj h₄).2
  obtain ⟨rfl, h₆⟩ := unique_front hs hs' (List.cons.inj h₅).2
  obtain ⟨rfl, -⟩ := unique_front hms hms' (List.cons.inj h₆).2
  obtain rfl : year = year' := hy.unique hy'
  rfl

end

end TimeFields

namespace Instant

/-- nanoseconds since 1970 -/
def nanoseconds (t : Instant) : ℤ := t.seconds * 1000000000 + t.nanos

/-- The text has the fields of a time that exists, so many milliseconds after the beginning of 1970. -/
def Denotes (text : String) (millis : ℤ) : Prop :=
  ∃ f : TimeFields, f.IsValid ∧ f.Stands text.toList ∧ f.millis = millis

theorem Denotes.unique {text : String} {n n' : ℤ} (h : Denotes text n) (h' : Denotes text n') : n = n' := by
  obtain ⟨f, -, hf, rfl⟩ := h
  obtain ⟨f', -, hf', rfl⟩ := h'
  rw [hf.unique hf']

/-- the time in the calendar, no leap second -/
def fields (t : Instant) : TimeFields where
  date := t.date
  hour := t.daySecond / 3600
  minute := t.daySecond / 60 % 60
  second := t.daySecond % 60
  milli := t.nanos / 1000000

section
variable {t : Instant}

theorem daySecond_lt : t.daySecond < 86400 := by
  simp only [daySecond, secondsPerDay]
  omega

theorem isValid_fields (h : t.nanos < nanosPerSecond) : t.fields.IsValid where
  date := Date.isValid_ofDays _
  hour := Nat.div_lt_of_lt_mul daySecond_lt
  minute := Nat.mod_lt _ (by decide)
  second := Nat.mod_lt _ (by decide)
  milli := Nat.div_lt_of_lt_mul h

theorem millis_fields : t.fields.millis = t.nanoseconds / 1000000 := by
  have hday : t.fields.date.toDays = t.seconds / secondsPerDay := Date.toDays_ofDays _
  simp only [TimeFields.millis, hday, nanoseconds]
  simp only [fields, daySecond, secondsPerDay]
  omega

theorem stands_fields (h : t.nanos < nanosPerSecond) : t.fields.Stands t.iso.toList := by
  have hlt : t.nanos / nanosPerSecond = 0 := Nat.div_eq_of_lt h
  obtain ⟨hdate, hhour, hminute, hsecond, hmilli⟩ := isValid_fields h
  have hmonth : t.fields.date.month < 100 := Nat.lt_of_le_of_lt hdate.2.1 (by decide)
  have hday : t.fields.date.day < 100 := by
    have := hdate.2.2.2
    unfold Date.monthLength at this
    grind
  have two {n : ℕ} (hn : n < 100) : IsDigits 2 n (Text.padded 2 n) := Text.isDigits_padded (by decide) hn
  refine ⟨_, _, _, _, _, _, _, TimeFields.yearStands_yearText _, two hmonth, two hday, two (by omega),
    two (by omega), two (by omega), Text.isDigits_padded (by decide) hmilli, ?_⟩
  simp [iso, fields, hlt, Nat.mod_eq_of_lt h, Text.paddedText, String.toList_append]

/-- The text of an instant that is no leap second denotes the instant, cut to milliseconds. -/
theorem denotes_iso (h : t.nanos < nanosPerSecond) : Denotes t.iso (t.nanoseconds / 1000000) :=
  ⟨t.fields, isValid_fields h, stands_fields h, millis_fields⟩

end

end Instant

end CannedApi
