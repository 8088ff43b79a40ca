import CannedApi.Text.Digits
import CannedApi.Time.Calendar

/-!
# Instants

A moment of time and its text `2024-01-31T23:59:59.999Z`.  Digits below the millisecond are cut off,
also before 1970.  A leap second is shown as second 60.
-/

namespace CannedApi

/-- Seconds since 1970 and nanoseconds above them; a leap second has a second more of these. -/
structure Instant where
  seconds : Int
  nanos : Nat
  deriving DecidableEq, Repr, Inhabited

namespace Instant

def nanosPerSecond : Nat := 1000000000
def secondsPerDay : Int := 86400

def firstYear : Int := -262143
def lastYear : Int := 262142

def date (t : Instant) : Date := Date.ofDays (t.seconds / secondsPerDay)

/-- seconds into the day -/
def daySecond (t : Instant) : Nat := (t.seconds % secondsPerDay).toNat

/-- The calendar reaches to it, and only the last second of a minute may be a leap second. -/
def IsValid (t : Instant) : Prop :=
  firstYear ≤ t.date.year ∧ t.date.year ≤ lastYear ∧
    (t.nanos < nanosPerSecond ∨ (t.nanos < 2 * nanosPerSecond ∧ t.seconds % 60 = 59))

instance (t : Instant) : Decidable t.IsValid := inferInstanceAs (Decidable (_ ∧ _ ∧ _))

/-- Four digits from year 0 to year 9999, else a sign and at least four digits. -/
def yearText (y : Int) : String :=
  if 0 ≤ y ∧ y ≤ 9999 then Text.paddedText 4 y.toNat
  else (if y < 0 then "-" else "+") ++ Text.paddedText 4 y.natAbs

/-- the text of an instant, to the millisecond -/
def iso (t : Instant) : String :=
  let d := t.date
  let s := t.daySecond
  let leap := t.nanos / nanosPerSecond
  let two := Text.paddedText 2
  yearText d.year ++ "-" ++ two d.month ++ "-" ++ two d.day ++ "T" ++ two (s / 3600) ++ ":" ++
    two (s / 60 % 60) ++ ":" ++ two (s % 60 + leap) ++ "." ++
    Text.paddedText 3 (t.nanos % nanosPerSecond / 1000000) ++ "Z"

/-- the instant some milliseconds earlier -/
def minusMillis (t : Instant) (ms : Nat) : Instant :=
  let total : Int := t.seconds * 1000000000 + t.nanos - ms * 1000000
  ⟨total / 1000000000, (total % 1000000000).toNat⟩

end Instant

end CannedApi
