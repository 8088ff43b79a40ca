/-!
# UTF-8

Texts as bytes and back.  `encode` writes, `decode` reads any bytes at all: it gives a character for
every well-formed sequence and `none` for every ill-formed one, where an ill-formed sequence is as
long as it could still have become a character.  Reading strictly (`ofBytes?`) refuses a `none`,
reading loosely (`ofBytesLossy`) shows it as U+FFFD.
-/

namespace CannedApi.Utf8

/-! ## Writing -/

def encodeChar (c : Char) : List UInt8 :=
  let n := c.toNat
  if n < 0x80 then [n.toUInt8]
  else if n < 0x800 then [(0xC0 + n / 0x40).toUInt8, (0x80 + n % 0x40).toUInt8]
  else if n < 0x10000 then
    [(0xE0 + n / 0x1000).toUInt8, (0x80 + n / 0x40 % 0x40).toUInt8, (0x80 + n % 0x40).toUInt8]
  else
    [(0xF0 + n / 0x40000).toUInt8, (0x80 + n / 0x1000 % 0x40).toUInt8,
      (0x80 + n / 0x40 % 0x40).toUInt8, (0x80 + n % 0x40).toUInt8]

def encode (cs : List Char) : List UInt8 := cs.flatMap encodeChar

@[simp] theorem encode_nil : encode [] = [] := rfl

theorem encode_cons (c : Char) (cs : List Char) : encode (c :: cs) = encodeChar c ++ encode cs := rfl

theorem encode_append (a b : List Char) : encode (a ++ b) = encode a ++ encode b := by
  simp [encode]

theorem encodeChar_ne_nil (c : Char) : encodeChar c ≠ [] := by
  unfold encodeChar
  dsimp only
  split
  · simp
  · split
    · simp
    · split <;> simp

/-! ## Reading -/

/-- a byte that goes on with a sequence -/
def isTail (b : UInt8) : Bool := 0x80 ≤ b && b ≤ 0xBF

/-- How many bytes the sequence has that starts with `a`; 0 when none starts so. -/
def width (a : UInt8) : Nat :=
  if a < 0x80 then 1
  else if 0xC2 ≤ a && a ≤ 0xDF then 2
  else if 0xE0 ≤ a && a ≤ 0xEF then 3
  else if 0xF0 ≤ a && a ≤ 0xF4 then 4
  else 0

/-- Whether `b` may follow the first byte `a` of three or four: this rules out forms that are longer
than they need be, surrogates, and values beyond U+10FFFF. -/
def isSecond (a b : UInt8) : Bool :=
  if a == 0xE0 then 0xA0 ≤ b && b ≤ 0xBF
  else if a == 0xED then 0x80 ≤ b && b ≤ 0x9F
  else if a == 0xF0 then 0x90 ≤ b && b ≤ 0xBF
  else if a == 0xF4 then 0x80 ≤ b && b ≤ 0x8F
  else isTail b

/-- the payload of a byte that goes on -/
def tailBits (b : UInt8) : Nat := b.toNat - 0x80

def decode : List UInt8 → List (Option Char)
  | [] => []
  | a :: rest =>
    match width a, rest with
    | 1, rest => some (Char.ofNat a.toNat) :: decode rest
    | 2, b :: rest₁ =>
      if isTail b then some (Char.ofNat ((a.toNat - 0xC0) * 0x40 + tailBits b)) :: decode rest₁
      else none :: decode (b :: rest₁)
    | 3, b :: rest₁ =>
      if isSecond a b then
        match rest₁ with
        | c :: rest₂ =>
          if isTail c then
            some (Char.ofNat ((a.toNat - 0xE0) * 0x1000 + tailBits b * 0x40 + tailBits c))
              :: decode rest₂
          else none :: decode (c :: rest₂)
        | [] => [none]
      else none :: decode (b :: rest₁)
    | 4, b :: rest₁ =>
      if isSecond a b then
        match rest₁ with
        | c :: rest₂ =>
          if isTail c then
            match rest₂ with
            | d :: rest₃ =>
              if isTail d then
                some (Char.ofNat ((a.toNat - 0xF0) * 0x40000 + tailBits b * 0x1000
                  + tailBits c * 0x40 + tailBits d)) :: decode rest₃
              else none :: decode (d :: rest₃)
            | [] => [none]
          else none :: decode (c :: rest₂)
        | [] => [none]
      else none :: decode (b :: rest₁)
    | _, rest => none :: decode rest

/-- all of them, or nothing when one is missing -/
def allSome : List (Option Char) → Option (List Char)
  | [] => some []
  | none :: _ => none
  | some c :: rest => (allSome rest).map (c :: ·)

/-- the characters of well-formed bytes -/
def decode? (bs : List UInt8) : Option (List Char) := allSome (decode bs)

/-- The text that the bytes spell, if they are well-formed. -/
def ofBytes? (bs : List UInt8) : Option String := (decode? bs).map String.ofList

/-- The text with U+FFFD for every ill-formed sequence. -/
def ofBytesLossy (bs : List UInt8) : String :=
  String.ofList ((decode bs).map (·.getD (Char.ofNat 0xFFFD)))

def toBytes (s : String) : List UInt8 := encode s.toList

/-- the byte of an ASCII character -/
def ascii (c : Char) : UInt8 := c.toNat.toUInt8

end CannedApi.Utf8
