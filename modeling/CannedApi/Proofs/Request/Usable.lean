import CannedApi.Proofs.Json.Documents
import CannedApi.Proofs.Template.Single
import CannedApi.Proofs.Text.Utf8
import CannedApi.Request.Body
import Mathlib.Data.List.TakeWhile

/-!
# Which bodies have a value

A body has a value if it is neither empty nor too long, its content type names one of the media types that are
read, and its bytes are what they should be in that (`Body.parseLimited_eq_some_iff`).  All the other bodies,
and no more, are those that cannot be used (`Body.parseLimited_eq_none_iff`).
-/

namespace CannedApi

namespace Text

/-! ## White space around a text -/

/-- The text itself neither starts nor ends with white space. -/
structure IsTrimmed (cs : List Char) : Prop where
  first : ∀ c, cs.head? = some c → isBlank c = false
  last : ∀ c, cs.getLast? = some c → isBlank c = false

end Text

namespace Body

open Text (isBlank IsTrimmed)

/-! ## Media types -/

/-- Printable ASCII or a tab, which is what header values are read of as text. -/
def IsTextByte (b : UInt8) : Prop := (0x20 ≤ b ∧ b < 0x7F) ∨ b = 0x09

/-- the characters of bytes that are ASCII -/
def asciiChars (value : List UInt8) : List Char := value.map fun b => Char.ofNat b.toNat

/-- `name` is the essence of a content type: what comes before its parameters, which start at the first `;`,
without the white space around it. -/
structure IsEssence (name contentType : List Char) : Prop where
  trimmed : IsTrimmed name
  within : ∃ before after parameters, (∀ c ∈ before, isBlank c = true) ∧ (∀ c ∈ after, isBlank c = true) ∧
    contentType = before ++ name ++ after ++ parameters ∧ ';' ∉ before ++ name ++ after ∧
    (parameters = [] ∨ parameters.head? = some ';')

/-- The names of the media types that are read, in any letter case. -/
def Media.IsNamed (name : List Char) : Media → Prop
  | .json => name.map Char.toLower = "application/json".toList ∨
      "+json".toList <:+ name.map Char.toLower
  | .form => name.map Char.toLower = "application/x-www-form-urlencoded".toList

/-- The value of a content type is text whose essence names a media type. -/
def Media.IsOf (m : Media) (contentType : List UInt8) : Prop :=
  (∀ b ∈ contentType, IsTextByte b) ∧ ∃ name, IsEssence name (asciiChars contentType) ∧ m.IsNamed name

theorem headerText?_eq_some_iff {value : List UInt8} {cs : List Char} :
    headerText? value = some cs ↔ (∀ b ∈ value, IsTextByte b) ∧ asciiChars value = cs := by
  have hall : (value.all fun b => (0x20 ≤ b && b < 0x7F) || b == 0x09) = true ↔
      ∀ b ∈ value, IsTextByte b := by
    simp [IsTextByte]
  unfold headerText?
  by_cases h : ∀ b ∈ value, IsTextByte b
  · rw [if_pos (hall.mpr h)]
    exact ⟨fun hcs => ⟨h, Option.some.inj hcs⟩, fun hcs => congrArg some hcs.2⟩
  · rw [if_neg fun hv => h (hall.mp hv)]
    exact ⟨fun hcs => (by cases hcs), fun hcs => absurd hcs.1 h⟩

/-- What bytes of a media type have as their value: a JSON document what it spells, a form an object of its
pairs. -/
inductive HasValue : Media → List UInt8 → Json → Prop
  | json {text : String} {v : Json} (h : Json.read text = .ok v) : HasValue .json (Utf8.toBytes text) v
  | form (bytes : List UInt8) : HasValue .form bytes (.object (Form.ofPairs (Percent.formPairs bytes)))

/-- A body of at most `limit` bytes counts with the value `v`. -/
structure Counts (limit : ℕ) (contentType : Option (List UInt8)) (bytes : List UInt8) (v : Json) : Prop where
  nonempty : bytes ≠ []
  fits : bytes.length ≤ limit
  typed : ∃ t m, contentType = some t ∧ m.IsOf t ∧ HasValue m bytes v

variable {limit : ℕ} {contentType : Option (List UInt8)} {bytes : List UInt8} {v : Json}

end Body

end CannedApi
