import CannedApi.Config.Toml.Value
import CannedApi.Number.Binary64
import CannedApi.Text.Digits
import CannedApi.Time.Calendar

/-!
# TOML scalars

Texts in their four spellings, numbers, dates and times.  Each reader takes the characters that are
left and gives a result with what it leaves, or nothing.
-/

namespace CannedApi.Toml

/-- a result and the characters that are left, or nothing -/
abbrev Reading (α : Type) := Option (α × List Char)

/-! ## Characters -/

def isSpace (c : Char) : Bool := c == ' ' || c == '\t'

/-- Any character but controls; the tab is none. -/
def isPlain (c : Char) : Bool := c == '\t' || (0x20 ≤ c.toNat && c.toNat != 0x7F)

def skipSpaces (cs : List Char) : List Char := cs.dropWhile isSpace

/-- what follows a line feed, with or without a carriage return before it -/
def newline? : List Char → Option (List Char)
  | '\n' :: rest => some rest
  | '\r' :: '\n' :: rest => some rest
  | _ => none

/-- the end of a comment or what follows it, from its number sign on -/
def skipComment : List Char → List Char
  | '#' :: rest => rest.dropWhile isPlain
  | cs => cs

/-! ## Texts -/

def hexCode? (cs : List Char) : Option Nat :=
  cs.foldlM (fun n c => (Text.hexValue? c.toNat).map (n * 16 + ·)) 0

def charOf? (n : Nat) : Option Char := if h : n.isValidChar then some (Char.ofNatAux n h) else none

/-- the character with a number of `digits` hexadecimal digits -/
def numbered (digits : Nat) (cs : List Char) : Reading Char :=
  if cs.length < digits then none
  else ((hexCode? (cs.take digits)).bind charOf?).map fun c => (c, cs.drop digits)

/-- the character of an escape, from behind the backslash on -/
def escape : List Char → Reading Char
  | 'b' :: rest => some (Char.ofNat 8, rest)
  | 'f' :: rest => some (Char.ofNat 12, rest)
  | 'n' :: rest => some ('\n', rest)
  | 'r' :: rest => some ('\r', rest)
  | 't' :: rest => some ('\t', rest)
  | '"' :: rest => some ('"', rest)
  | '\\' :: rest => some ('\\', rest)
  | 'u' :: rest => numbered 4 rest
  | 'U' :: rest => numbered 8 rest
  | _ => none

/-- puts a character in front of a text that has been read -/
def prepend (c : Char) (r : Reading (List Char)) : Reading (List Char) :=
  r.map fun p => (c :: p.1, p.2)

/-- the rest of a text between double quotes on one line -/
def basicText : Nat → List Char → Reading (List Char)
  | 0, _ => none
  | fuel + 1, cs =>
    match cs with
    | [] => none
    | '"' :: rest => some ([], rest)
    | '\\' :: rest => (escape rest).bind fun p => prepend p.1 (basicText fuel p.2)
    | c :: rest => if isPlain c then prepend c (basicText fuel rest) else none

/-- the rest of a text between single quotes on one line -/
def literalText : List Char → Reading (List Char)
  | [] => none
  | c :: rest =>
    if c = '\'' then some ([], rest)
    else if isPlain c then prepend c (literalText rest)
    else none

/-- The end of a text between tripled quotes, if it is here: up to two quotes more belong to the text. -/
def tripleEnd (q : Char) (cs : List Char) : Reading (List Char) :=
  let n := (cs.takeWhile (· = q)).length
  if 3 ≤ n then
    let extra := min (n - 3) 2
    some (List.replicate extra q, cs.drop (3 + extra))
  else none

/-- what follows an escaped line end: all blanks and line ends are skipped -/
def skipBlankLines (cs : List Char) : List Char :=
  cs.dropWhile fun c => isSpace c || c == '\n' || c == '\r'

/-- whether every carriage return in the blank part in front stands before a line feed -/
def blankLinesOk : List Char → Bool
  | '\r' :: '\n' :: rest => blankLinesOk rest
  | c :: rest => if isSpace c || c == '\n' then blankLinesOk rest else c != '\r'
  | [] => true

/-- The rest of a text between tripled quotes `q`; only double ones have escapes. -/
def longText (q : Char) : Nat → List Char → Reading (List Char)
  | 0, _ => none
  | fuel + 1, cs =>
    match tripleEnd q cs with
    | some r => some r
    | none =>
      match cs with
      | [] => none
      | '\n' :: rest => prepend '\n' (longText q fuel rest)
      | '\r' :: '\n' :: rest => prepend '\n' (longText q fuel rest)
      | c :: rest =>
        if c = '\\' ∧ q = '"' then
          match newline? (skipSpaces rest) with
          | some more => if blankLinesOk more then longText q fuel (skipBlankLines more) else none
          | none => (escape rest).bind fun p => prepend p.1 (longText q fuel p.2)
        else if isPlain c then prepend c (longText q fuel rest)
        else none

/-- a text between tripled quotes; a line end behind the opening ones does not count -/
def longTextStart (q : Char) (cs : List Char) : Reading (List Char) :=
  let cs := (newline? cs).getD cs
  longText q (cs.length + 1) cs

/-- A text in any spelling. -/
def text : List Char → Reading String
  | '"' :: '"' :: '"' :: rest => (longTextStart '"' rest).map fun p => (String.ofList p.1, p.2)
  | '\'' :: '\'' :: '\'' :: rest => (longTextStart '\'' rest).map fun p => (String.ofList p.1, p.2)
  | '"' :: rest => (basicText (rest.length + 1) rest).map fun p => (String.ofList p.1, p.2)
  | '\'' :: rest => (literalText rest).map fun p => (String.ofList p.1, p.2)
  | _ => none

/-! ## Numbers -/

/-- the most and the least integer -/
def inRange (n : Int) : Bool := -9223372036854775808 ≤ n && n ≤ 9223372036854775807

/-- digits of a base, single underscores between them dropped; at least one -/
def digitRun (isDigit : Char → Bool) : List Char → Reading (List Char)
  | [] => none
  | c :: rest =>
    if isDigit c then
      match rest with
      | '_' :: d :: more =>
        if isDigit d then prepend c (digitRun isDigit (d :: more)) else some ([c], '_' :: d :: more)
      | rest =>
        match digitRun isDigit rest with
        | some p => some (c :: p.1, p.2)
        | none => some ([c], rest)
    else none

def isDigitBelow (base : Nat) (c : Char) : Bool :=
  match Text.hexValue? c.toNat with
  | some d => d < base
  | none => false

def valueIn (base : Nat) (ds : List Char) : Nat :=
  ds.foldl (fun n c => n * base + (Text.hexValue? c.toNat).getD 0) 0

/-- an optional sign: whether it is a minus, and the rest -/
def cutSign : List Char → Bool × List Char
  | '+' :: rest => (false, rest)
  | '-' :: rest => (true, rest)
  | cs => (false, cs)

/-- decimal digits without leading zeros -/
def decimalRun (cs : List Char) : Reading (List Char) :=
  match cs with
  | '0' :: rest => some (['0'], rest)
  | cs => digitRun Text.isDigit cs

def integerFrom (base : Nat) (cs : List Char) : Reading Value :=
  (digitRun (isDigitBelow base) cs).bind fun p =>
    let n : Int := valueIn base p.1
    if inRange n then some (.integer n, p.2) else none

def integer (cs : List Char) : Reading Value :=
  match cs with
  | '0' :: 'x' :: rest => integerFrom 16 rest
  | '0' :: 'o' :: rest => integerFrom 8 rest
  | '0' :: 'b' :: rest => integerFrom 2 rest
  | cs =>
    let (negative, cs) := cutSign cs
    (decimalRun cs).bind fun p =>
      let n : Int := if negative then -(valueIn 10 p.1 : Int) else valueIn 10 p.1
      if inRange n then some (.integer n, p.2) else none

/-- an exponent, if one is here -/
def exponent : List Char → Reading Int
  | [] => none
  | c :: rest =>
    if c = 'e' ∨ c = 'E' then
      let (negative, rest) := cutSign rest
      (digitRun Text.isDigit rest).map fun p =>
        (if negative then -(valueIn 10 p.1 : Int) else valueIn 10 p.1, p.2)
    else none

/-- a number with a fraction, an exponent or both, not beyond the largest double -/
def fractional (cs : List Char) : Reading Value :=
  let (negative, cs) := cutSign cs
  (decimalRun cs).bind fun whole =>
    let fraction : Option (List Char × List Char) := match whole.2 with
      | '.' :: rest => digitRun Text.isDigit rest
      | _ => none
    let digits := whole.1 ++ (fraction.map Prod.fst).getD []
    let rest := (fraction.map Prod.snd).getD whole.2
    let power := exponent rest
    if fraction.isNone && power.isNone then none
    else
      let places : Int := ((fraction.map Prod.fst).getD []).length
      let e : Int := (power.map Prod.fst).getD 0 - places
      let rest := (power.map Prod.snd).getD rest
      if negative || (Binary64.ofDecimal false (valueIn 10 digits) e).isSome then some (.float, rest)
      else none

/-- infinity, or what is no number -/
def specialFloat (cs : List Char) : Reading Value :=
  match (cutSign cs).2 with
  | 'i' :: 'n' :: 'f' :: rest => some (.float, rest)
  | 'n' :: 'a' :: 'n' :: rest => some (.float, rest)
  | _ => none

/-! ## Dates and times -/

/-- a number of exactly so many digits, within bounds -/
def fixed (digits low high : Nat) (cs : List Char) : Reading Nat :=
  if cs.length < digits then none
  else
    (Text.readDecimal (cs.take digits)).bind fun n =>
      if low ≤ n ∧ n ≤ high then some (n, cs.drop digits) else none

def expect (c : Char) : List Char → Option (List Char)
  | d :: rest => if d = c then some rest else none
  | [] => none

/-- a date that exists; what it leaves -/
def skipDate (cs : List Char) : Option (List Char) := do
  let (year, cs) ← fixed 4 0 9999 cs
  let cs ← expect '-' cs
  let (month, cs) ← fixed 2 1 12 cs
  let cs ← expect '-' cs
  let (day, cs) ← fixed 2 1 31 cs
  if day ≤ Date.monthLength year month then some cs else none

/-- a time of day, seconds and their fraction included; what it leaves -/
def skipTime (cs : List Char) : Option (List Char) := do
  let (_, cs) ← fixed 2 0 23 cs
  let cs ← expect ':' cs
  let (_, cs) ← fixed 2 0 59 cs
  let cs ← expect ':' cs
  let (_, cs) ← fixed 2 0 60 cs
  match cs with
  | '.' :: d :: rest => if Text.isDigit d then some (rest.dropWhile Text.isDigit) else some cs
  | cs => some cs

/-- a distance to universal time, if there is one; what it leaves -/
def skipOffset (cs : List Char) : Option (List Char) :=
  match cs with
  | [] => some []
  | c :: rest =>
    if c = 'Z' ∨ c = 'z' then some rest
    else if c = '+' ∨ c = '-' then do
      let (_, cs) ← fixed 2 0 23 rest
      let cs ← expect ':' cs
      let (_, cs) ← fixed 2 0 59 cs
      some cs
    else some cs

/-- a date, a time, or both -/
def datetime (cs : List Char) : Reading Value :=
  match skipDate cs with
  | none => (skipTime cs).map fun rest => (.datetime, rest)
  | some rest =>
    match rest with
    | [] => some (.datetime, [])
    | c :: more =>
      if c = 'T' ∨ c = 't' ∨ c = ' ' then
        match skipTime more with
        | none => some (.datetime, rest)
        | some after => (skipOffset after).map fun left => (.datetime, left)
      else some (.datetime, rest)

/-- A number, a date or a time. -/
def number (cs : List Char) : Reading Value :=
  datetime cs <|> fractional cs <|> specialFloat cs <|> integer cs

end CannedApi.Toml
