/-!
# Decimal and hexadecimal digits

Numbers written without leading zeros (`decimal`), or padded with zeros to a width (`padded`), and
read back (`readDecimal`).
-/

namespace CannedApi.Text

/-! ## Writing -/

/-- the digit for `n % 10` -/
def digit (n : Nat) : Char := Char.ofNat ('0'.toNat + n % 10)

def decimal (n : Nat) : List Char :=
  if n < 10 then [digit n] else decimal (n / 10) ++ [digit n]
termination_by n

/-- at least `w` digits, zeros in front -/
def padded (w n : Nat) : List Char :=
  List.replicate (w - (decimal n).length) '0' ++ decimal n

def decimalText (n : Nat) : String := String.ofList (decimal n)
def paddedText (w n : Nat) : String := String.ofList (padded w n)

/-- with a minus sign for a negative number -/
def signedText (n : Int) : String :=
  if n < 0 then String.ofList ('-' :: decimal n.natAbs) else decimalText n.natAbs

theorem decimal_of_lt {n : Nat} (h : n < 10) : decimal n = [digit n] := by
  rw [decimal, if_pos h]

theorem decimal_of_le {n : Nat} (h : 10 ≤ n) : decimal n = decimal (n / 10) ++ [digit n] := by
  rw [decimal, if_neg (by omega)]

theorem decimal_ne_nil (n : Nat) : decimal n ≠ [] := by
  by_cases h : n < 10
  · simp [decimal_of_lt h]
  · simp [decimal_of_le (show 10 ≤ n by omega)]

theorem le_length_padded (w n : Nat) : w ≤ (padded w n).length := by
  simp only [padded, List.length_append, List.length_replicate]
  omega

/-! ## Reading -/

def isDigit (c : Char) : Bool := '0' ≤ c && c ≤ '9'

def digitValue? (c : Char) : Option Nat :=
  if isDigit c then some (c.toNat - '0'.toNat) else none

/-- the value of digits read from the left, on top of `acc`; nothing when one is no digit -/
def readDigits (acc : Nat) : List Char → Option Nat
  | [] => some acc
  | c :: rest =>
    match digitValue? c with
    | some d => readDigits (acc * 10 + d) rest
    | none => none

/-- one or more digits, leading zeros allowed -/
def readDecimal : List Char → Option Nat
  | [] => none
  | c :: rest => readDigits 0 (c :: rest)

/-- the value of a hexadecimal digit, in either letter case, given by its code -/
def hexValue? (n : Nat) : Option Nat :=
  if 48 ≤ n && n ≤ 57 then some (n - 48)
  else if 65 ≤ n && n ≤ 70 then some (n - 55)
  else if 97 ≤ n && n ≤ 102 then some (n - 87)
  else none

/-- a hexadecimal digit in lower case -/
def hexDigit (n : Nat) : Char :=
  if n % 16 < 10 then Char.ofNat ('0'.toNat + n % 16) else Char.ofNat ('a'.toNat + n % 16 - 10)

def hexDecimal (n : Nat) : List Char :=
  if n < 16 then [hexDigit n] else hexDecimal (n / 16) ++ [hexDigit n]
termination_by n

theorem readDigits_append (acc : Nat) (a b : List Char) :
    readDigits acc (a ++ b) = (readDigits acc a).bind fun n => readDigits n b := by
  induction a generalizing acc with
  | nil => rfl
  | cons c rest ih =>
    cases h : digitValue? c with
    | none => simp [readDigits, h]
    | some d => simp [readDigits, h, ih]

theorem digitValue_digit (n : Nat) : digitValue? (digit n) = some (n % 10) := by
  have h : ∀ k < 10, digitValue? (Char.ofNat ('0'.toNat + k)) = some k := by decide
  exact h (n % 10) (Nat.mod_lt _ (by decide))

theorem readDigits_decimal (n : Nat) : readDigits 0 (decimal n) = some n := by
  induction n using Nat.strongRecOn with
  | ind n ih =>
    rcases Nat.lt_or_ge n 10 with h | h
    · simp [decimal_of_lt h, readDigits, digitValue_digit, Nat.mod_eq_of_lt h]
    · have e : n / 10 * 10 + n % 10 = n := by omega
      rw [decimal_of_le h, readDigits_append, ih (n / 10) (by omega)]
      simp [readDigits, digitValue_digit, e]

/-- A number is read back from its decimal text. -/
theorem readDecimal_decimal (n : Nat) : readDecimal (decimal n) = some n := by
  cases h : decimal n with
  | nil => exact absurd h (decimal_ne_nil n)
  | cons c rest =>
    show readDigits 0 (c :: rest) = some n
    rw [← h, readDigits_decimal]

end CannedApi.Text
