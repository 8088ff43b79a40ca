/-!
# Calendar dates

Dates of the proleptic Gregorian calendar and their numbers, counted in days from 1970-01-01.  The
calendar repeats every 400 years (`era`); inside an era years begin on 1 March, so that the leap day
is the last day of its year.
-/

namespace CannedApi

structure Date where
  year : Int
  month : Nat
  day : Nat
  deriving DecidableEq, Repr

namespace Date

/-- days in 400 years -/
def eraDays : Int := 146097

/-- days from 0000-03-01 to 1970-01-01 -/
def epochDays : Int := 719468

/-- the date with a number -/
def ofDays (n : Int) : Date :=
  let z := n + epochDays
  let era := z / eraDays
  let ofEra := (z % eraDays).toNat
  let year := (ofEra - ofEra / 1460 + ofEra / 36524 - ofEra / 146096) / 365
  let ofYear := ofEra - (365 * year + year / 4 - year / 100)
  -- months of 31, 30, 31, 30, 31 days follow each other from March on
  let m := (5 * ofYear + 2) / 153
  let month := if m < 10 then m + 3 else m - 9
  { year := era * 400 + year + if month ≤ 2 then 1 else 0
    month := month
    day := ofYear - (153 * m + 2) / 5 + 1 }

/-- the number of a date -/
def toDays (d : Date) : Int :=
  let y := if d.month ≤ 2 then d.year - 1 else d.year
  let m := if d.month ≤ 2 then d.month + 9 else d.month - 3
  let year := (y % 400).toNat
  let ofYear := (153 * m + 2) / 5 + d.day - 1
  let ofEra := year * 365 + year / 4 - year / 100 + ofYear
  y / 400 * eraDays + ofEra - epochDays

def isLeapYear (y : Int) : Bool := y % 4 = 0 && (y % 100 ≠ 0 || y % 400 = 0)

def monthLength (y : Int) (m : Nat) : Nat :=
  if m = 2 then if isLeapYear y then 29 else 28
  else if m = 4 ∨ m = 6 ∨ m = 9 ∨ m = 11 then 30
  else 31

/-- The month and the day exist. -/
def IsValid (d : Date) : Prop :=
  1 ≤ d.month ∧ d.month ≤ 12 ∧ 1 ≤ d.day ∧ d.day ≤ monthLength d.year d.month

instance (d : Date) : Decidable d.IsValid := inferInstanceAs (Decidable (_ ∧ _ ∧ _ ∧ _))

end Date

end CannedApi
