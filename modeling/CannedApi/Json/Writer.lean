import CannedApi.Json.Value
import CannedApi.Number.Shortest
import CannedApi.Text.Digits

/-!
# Writing JSON

The compact form: no spaces, entries in their order.  Inside texts only the quote, the backslash and
the characters below U+0020 are escaped.
-/

namespace CannedApi

/-! ## Numbers -/

/-- How doubles are written. -/
structure NumberStyle where
  /-- the least decimal exponent written without an exponent part -/
  lowest : Int
  /-- the least decimal exponent above those written without an exponent part -/
  highest : Int

/-- Doubles from `0.00001` to below `10 ^ 16` have no exponent part. -/
def NumberStyle.json : NumberStyle := ⟨-5, 16⟩

/-- digits with zeros at the end dropped into the exponent -/
def Decimal.stripped (d : Decimal) : List Char × Int :=
  let cs := Text.decimal d.digits
  let zeros := (cs.reverse.takeWhile (· = '0')).length
  (cs.take (cs.length - zeros), d.exponent + zeros)

/-- the text of the digits `cs` times `10 ^ exponent` -/
def NumberStyle.write (style : NumberStyle) (cs : List Char) (exponent : Int) : List Char :=
  let leading : Int := exponent + cs.length - 1
  if style.lowest ≤ leading ∧ leading < style.highest then
    if 0 ≤ exponent then cs ++ List.replicate exponent.toNat '0' ++ ['.', '0']
    else if 0 ≤ leading then
      cs.take (leading.toNat + 1) ++ '.' :: cs.drop (leading.toNat + 1)
    else '0' :: '.' :: List.replicate (-leading - 1).toNat '0' ++ cs
  else
    let fraction := match cs.drop 1 with
      | [] => []
      | rest => '.' :: rest
    cs.take 1 ++ fraction ++ 'e' :: (if leading < 0 then '-' else '+') :: Text.decimal leading.natAbs

def Binary64.chars (x : Binary64) : List Char :=
  let magnitude :=
    if x.mantissa = 0 then ['0', '.', '0']
    else
      let (cs, exponent) := x.shortest.stripped
      NumberStyle.json.write cs exponent
  if x.negative then '-' :: magnitude else magnitude

namespace Json

def numberChars : JsonNumber → List Char
  | .whole n _ => (Text.signedText n).toList
  | .double x => x.chars

/-! ## Texts -/

/-- the escapes that have a letter of their own -/
def shortEscape? (c : Char) : Option Char :=
  if c = '"' then some '"'
  else if c = '\\' then some '\\'
  else if c.toNat = 8 then some 'b'
  else if c.toNat = 12 then some 'f'
  else if c = '\n' then some 'n'
  else if c = '\r' then some 'r'
  else if c = '\t' then some 't'
  else none

def escapeChar (c : Char) : List Char :=
  match shortEscape? c with
  | some e => ['\\', e]
  | none =>
    if c.toNat < 0x20 then
      ['\\', 'u', '0', '0', Text.hexDigit (c.toNat / 16), Text.hexDigit c.toNat]
    else [c]

def escape (cs : List Char) : List Char := cs.flatMap escapeChar

theorem escape_cons (c : Char) (cs : List Char) : escape (c :: cs) = escapeChar c ++ escape cs := by
  simp [escape]

/-- a text between quotes -/
def quoted (s : String) : List Char := '"' :: escape s.toList ++ ['"']

/-! ## Values -/

mutual

def chars : Json → List Char
  | .null => ['n', 'u', 'l', 'l']
  | .bool true => ['t', 'r', 'u', 'e']
  | .bool false => ['f', 'a', 'l', 's', 'e']
  | .number n => numberChars n
  | .text s => quoted s
  | .array items => '[' :: itemsChars items ++ [']']
  | .object entries => '{' :: entriesChars entries ++ ['}']

def itemsChars : List Json → List Char
  | [] => []
  | [x] => chars x
  | x :: y :: rest => chars x ++ ',' :: itemsChars (y :: rest)

def entriesChars : List (String × Json) → List Char
  | [] => []
  | [(k, x)] => quoted k ++ ':' :: chars x
  | (k, x) :: e :: rest => quoted k ++ ':' :: chars x ++ ',' :: entriesChars (e :: rest)

end

/-- The compact text of a value. -/
def write (x : Json) : String := String.ofList x.chars

/-! ## No value is written as nothing -/

theorem numberChars_ne_nil (n : JsonNumber) : numberChars n ≠ [] := by
  cases n with
  | whole n h =>
    show (Text.signedText n).toList ≠ []
    unfold Text.signedText
    split
    · simp
    · simp [Text.decimalText, Text.decimal_ne_nil]
  | double x =>
    have hstyle : ∀ cs exponent, NumberStyle.json.write cs exponent ≠ [] := by
      intro cs exponent
      unfold NumberStyle.write
      dsimp only
      split
      · split
        · simp
        · split <;> simp
      · simp
    show x.chars ≠ []
    unfold Binary64.chars
    dsimp only
    split
    · simp
    · split
      · simp
      · exact hstyle _ _

theorem chars_ne_nil (x : Json) : x.chars ≠ [] := by
  cases x with
  | null => simp [chars]
  | bool b => cases b <;> simp [chars]
  | number n =>
    rw [chars]
    exact numberChars_ne_nil n
  | text s => simp [chars, quoted]
  | array items => simp [chars]
  | object entries => simp [chars]

theorem write_ne_empty (x : Json) : x.write ≠ "" := by
  intro h
  have hc := congrArg String.toList h
  rw [write, String.toList_ofList] at hc
  exact chars_ne_nil x hc

end Json

end CannedApi
