import CannedApi.Text.Digits
import CannedApi.Text.Split
import CannedApi.Text.Utf8

/-!
# Percent escapes and form pairs

`%XX` stands for the byte with that hexadecimal number; a percent sign that starts no escape stands
for itself.  On top of it `formPairs` reads `application/x-www-form-urlencoded` bytes: pairs between
`&`, cut at the first `=`, with `+` for a space, and ill-formed UTF-8 shown as U+FFFD.
-/

namespace CannedApi.Percent

/-- the percent sign as a byte -/
def mark : UInt8 := 0x25

/-- the byte that two hexadecimal digits name -/
def escaped? (h l : UInt8) : Option UInt8 :=
  match Text.hexValue? h.toNat, Text.hexValue? l.toNat with
  | some a, some b => some (a * 16 + b).toUInt8
  | _, _ => none

def decode : List UInt8 → List UInt8
  | [] => []
  | [b] => [b]
  | [b, c] => [b, c]
  | b :: h :: l :: rest =>
    if b = mark then
      match escaped? h l with
      | some v => v :: decode rest
      | none => b :: decode (h :: l :: rest)
    else b :: decode (h :: l :: rest)

theorem decode_cons_of_ne {b : UInt8} (h : b ≠ mark) (rest : List UInt8) :
    decode (b :: rest) = b :: decode rest := by
  match rest with
  | [] => rfl
  | [_] => rfl
  | _ :: _ :: _ => simp [decode, h]

theorem decode_escape {h l v : UInt8} (hv : escaped? h l = some v) (rest : List UInt8) :
    decode (mark :: h :: l :: rest) = v :: decode rest := by
  simp [decode, hv]

/-- The text with its escapes undone, if the bytes then are well-formed. -/
def text? (s : String) : Option String := Utf8.ofBytes? (decode (Utf8.toBytes s))

/-! ## Forms -/

def plusToSpace (bs : List UInt8) : List UInt8 := bs.map fun b => if b = 0x2B then 0x20 else b

def formText (bs : List UInt8) : String := Utf8.ofBytesLossy (decode (plusToSpace bs))

/-- a pair without `=` has an empty value -/
def formPair (bs : List UInt8) : String × String :=
  match Text.cutFirst 0x3D bs with
  | some (k, v) => (formText k, formText v)
  | none => (formText bs, "")

/-- the pairs in order; nothing between two `&` is no pair -/
def formPairs (bs : List UInt8) : List (String × String) :=
  ((Text.pieces 0x26 bs).filter (· ≠ [])).map formPair

end CannedApi.Percent
