import CannedApi.Entries
import CannedApi.Number.Binary64

/-!
# JSON values

A number is a whole number of 64 bits or a binary64 value, so `1` and `1.0` differ.  Objects keep the
order of their entries.
-/

namespace CannedApi

/-- The whole numbers that stay whole: 64 bits, with or without a sign. -/
def IsWhole (n : Int) : Prop := -9223372036854775808 ≤ n ∧ n < 18446744073709551616

instance (n : Int) : Decidable (IsWhole n) := inferInstanceAs (Decidable (_ ∧ _))

inductive JsonNumber where
  | whole (value : Int) (inRange : IsWhole value)
  | double (value : Binary64)
  deriving DecidableEq, Repr

inductive Json where
  | null
  | bool (b : Bool)
  | number (n : JsonNumber)
  | text (s : String)
  | array (items : List Json)
  | object (entries : List (String × Json))
  deriving Repr, Inhabited

namespace JsonNumber

/-- a whole number if it has at most 64 bits, else the nearest double -/
def ofInt (n : Int) : JsonNumber :=
  if h : IsWhole n then .whole n h
  else .double { Binary64.ofNat n.natAbs with negative := decide (n < 0) }

/-- the number as a double; whole numbers are rounded to the nearest one -/
def toBinary64 : JsonNumber → Binary64
  | .whole n _ => { Binary64.ofNat n.natAbs with negative := decide (n < 0) }
  | .double x => x

end JsonNumber

namespace Json

def ofNat (n : Nat) : Json := .number (.ofInt n)
def ofInt (n : Int) : Json := .number (.ofInt n)
def texts (l : List String) : Json := .array (l.map .text)

/-- the value of a whole number that is not negative -/
def asNat? : Json → Option Nat
  | .number (.whole n _) => if 0 ≤ n then some n.toNat else none
  | _ => none

def isNull : Json → Bool
  | .null => true
  | _ => false

/-- the value under a key of an object -/
def get? : Json → String → Option Json
  | .object entries, k => Entries.get? entries k
  | _, _ => none

end Json

end CannedApi
