import CannedApi.Json.Value
import CannedApi.Text.Digits
import CannedApi.Text.Utf8

/-!
# Reading JSON

A reader over bytes that either gives a value or names the first fault with its line and column.
Each part takes the bytes that are left and gives back what it leaves in turn; a fault is recorded by
how many bytes were left at it, and only `read` turns that into a line and a column.
-/

namespace CannedApi.Json

open Utf8 (ascii)

/-! ## Faults -/

inductive Reason where
  | endInValue
  | endInArray
  | endInObject
  | endInText
  | noValue
  | noKeyword
  | noKey
  | noColon
  | noCommaOrBrace
  | noCommaOrBracket
  | trailingComma
  | trailingCharacters
  | badNumber
  | numberOutOfRange
  | controlCharacter
  | badEscape
  | loneSurrogate
  | endOfEscape
  | nestedTooDeep
  deriving DecidableEq, Repr

def Reason.message : Reason → String
  | .endInValue => "EOF while parsing a value"
  | .endInArray => "EOF while parsing a list"
  | .endInObject => "EOF while parsing an object"
  | .endInText => "EOF while parsing a string"
  | .noValue => "expected value"
  | .noKeyword => "expected ident"
  | .noKey => "key must be a string"
  | .noColon => "expected `:`"
  | .noCommaOrBrace => "expected `,` or `\x7d`"
  | .noCommaOrBracket => "expected `,` or `]`"
  | .trailingComma => "trailing comma"
  | .trailingCharacters => "trailing characters"
  | .badNumber => "invalid number"
  | .numberOutOfRange => "number out of range"
  | .controlCharacter => "control character (\\u0000-\\u001F) found while parsing a string"
  | .badEscape => "invalid escape"
  | .loneSurrogate => "lone leading surrogate in hex escape"
  | .endOfEscape => "unexpected end of hex escape"
  | .nestedTooDeep => "recursion limit exceeded"

/-- A reason and the number of bytes after its place. -/
structure Fault where
  reason : Reason
  left : Nat

/-- What a part of the reader gives: a fault, or a result and the bytes it leaves. -/
abbrev Outcome (α : Type) := Except Fault (α × List UInt8)

/-- a fault just before the bytes `s` -/
def faultBefore {α : Type} (r : Reason) (s : List UInt8) : Except Fault α := .error ⟨r, s.length⟩

/-- a fault at the first of the bytes `s`, or at their end if there are none -/
def faultAt {α : Type} (r : Reason) (s : List UInt8) : Except Fault α := .error ⟨r, s.length - 1⟩

/-! ## Blanks and keywords -/

def isBlankByte (b : UInt8) : Bool := b == 0x20 || b == 0x09 || b == 0x0A || b == 0x0D

def skipBlanks (s : List UInt8) : List UInt8 := s.dropWhile isBlankByte

/-- the rest of a keyword after its first letter -/
def keyword (x : Json) : List Char → List UInt8 → Outcome Json
  | [], s => .ok (x, s)
  | _ :: _, [] => faultBefore .endInValue []
  | c :: cs, b :: s => if b = ascii c then keyword x cs s else faultBefore .noKeyword s

/-! ## Numbers -/

def isDigitByte (b : UInt8) : Bool := 0x30 ≤ b && b ≤ 0x39

def digitsValue (ds : List UInt8) : Nat := ds.foldl (fun n b => n * 10 + (b.toNat - 0x30)) 0

/-- An exponent is read up to this number. -/
def exponentLimit : Nat := 2147483647

/-- reads digits on top of `n`, and stops behind the one that goes beyond the limit -/
def exponentDigits (n : Nat) : List UInt8 → Nat × List UInt8
  | [] => (n, [])
  | b :: s =>
    if isDigitByte b then
      let m := n * 10 + (b.toNat - 0x30)
      if exponentLimit < m then (m, s) else exponentDigits m s
    else (n, b :: s)

/-- the double for `digits * 10 ^ exponent` -/
def double (negative : Bool) (digits : Nat) (exponent : Int) (s : List UInt8) : Outcome Json :=
  match Binary64.ofDecimal negative digits exponent with
  | some x => .ok (.number (.double x), s)
  | none => faultBefore .numberOutOfRange s

/-- the number when its exponent is still to come -/
def exponentPart (negative : Bool) (digits : Nat) (shift : Nat) (s : List UInt8) : Outcome Json :=
  let (down, s) := match s with
    | b :: rest =>
      if b = ascii '+' then (false, rest) else if b = ascii '-' then (true, rest) else (false, s)
    | [] => (false, [])
  match s with
  | [] => faultBefore .endInValue []
  | b :: rest =>
    if isDigitByte b then
      let (n, s) := exponentDigits 0 (b :: rest)
      if exponentLimit < n then
        if down || digits = 0 then
          .ok (.number (.double (.zero negative)), s.dropWhile isDigitByte)
        else faultBefore .numberOutOfRange s
      else double negative digits ((if down then -(n : Int) else n) - shift) s
    else faultBefore .badNumber rest

/-- the number when its fraction is still to come -/
def fractionPart (negative : Bool) (whole s : List UInt8) : Outcome Json :=
  let fraction := s.takeWhile isDigitByte
  let s := s.dropWhile isDigitByte
  match fraction, s with
  | [], [] => faultBefore .endInValue []
  | [], s => faultAt .badNumber s
  | fraction, s =>
    let digits := digitsValue (whole ++ fraction)
    match s with
    | b :: rest =>
      if b = ascii 'e' ∨ b = ascii 'E' then exponentPart negative digits fraction.length rest
      else double negative digits (-(fraction.length : Int)) s
    | [] => double negative digits (-(fraction.length : Int)) s

/-- A number without fraction and exponent: whole if it has at most 64 bits and is not `-0`. -/
def wholeNumber (negative : Bool) (n : Nat) (s : List UInt8) : Outcome Json :=
  let value : Int := if negative then -(n : Int) else n
  if h : IsWhole value ∧ ¬ (negative = true ∧ n = 0) then .ok (.number (.whole value h.1), s)
  else double negative n 0 s

/-- the number after its sign -/
def unsigned (negative : Bool) (s : List UInt8) : Outcome Json :=
  match s with
  | [] => faultBefore .endInValue []
  | b :: rest =>
    if isDigitByte b then
      let whole := if b = ascii '0' then [b] else (b :: rest).takeWhile isDigitByte
      let after := if b = ascii '0' then rest else (b :: rest).dropWhile isDigitByte
      match after with
      | c :: more =>
        if isDigitByte c then faultAt .badNumber after
        else if c = ascii '.' then fractionPart negative whole more
        else if c = ascii 'e' ∨ c = ascii 'E' then exponentPart negative (digitsValue whole) 0 more
        else wholeNumber negative (digitsValue whole) after
      | [] => wholeNumber negative (digitsValue whole) []
    else faultBefore .badNumber rest

/-! ## Texts -/

/-- the number that four hexadecimal digits name -/
def hexNumber? (a b c d : UInt8) : Option Nat :=
  match Text.hexValue? a.toNat, Text.hexValue? b.toNat, Text.hexValue? c.toNat,
    Text.hexValue? d.toNat with
  | some a, some b, some c, some d => some (((a * 16 + b) * 16 + c) * 16 + d)
  | _, _, _, _ => none

/-- the character behind an escape letter -/
def escapedChar? (b : UInt8) : Option Char :=
  if b = ascii '"' then some '"'
  else if b = ascii '\\' then some '\\'
  else if b = ascii '/' then some '/'
  else if b = ascii 'b' then some (Char.ofNat 8)
  else if b = ascii 'f' then some (Char.ofNat 12)
  else if b = ascii 'n' then some '\n'
  else if b = ascii 'r' then some '\r'
  else if b = ascii 't' then some '\t'
  else none

def isHighSurrogate (n : Nat) : Bool := 0xD800 ≤ n && n ≤ 0xDBFF
def isLowSurrogate (n : Nat) : Bool := 0xDC00 ≤ n && n ≤ 0xDFFF

/-- puts bytes in front of a result -/
def prepend (bs : List UInt8) (o : Outcome (List UInt8)) : Outcome (List UInt8) :=
  o.map fun p => (bs ++ p.1, p.2)

/-- the bytes of a text after its opening quote, escapes undone -/
def textBytes : List UInt8 → Outcome (List UInt8)
  | [] => faultBefore .endInText []
  | b :: rest =>
    if b = ascii '"' then .ok ([], rest)
    else if b < 0x20 then faultBefore .controlCharacter rest
    else if b = ascii '\\' then
      match rest with
      | [] => faultBefore .endInText []
      | e :: rest₁ =>
        if e = ascii 'u' then
          match rest₁ with
          | h₁ :: h₂ :: h₃ :: h₄ :: rest₂ =>
            match hexNumber? h₁ h₂ h₃ h₄ with
            | none => faultBefore .badEscape rest₂
            | some n =>
              if isLowSurrogate n then faultBefore .loneSurrogate rest₂
              else if isHighSurrogate n then
                match rest₂ with
                | [] => faultBefore .endInText []
                | q :: rest₃ =>
                  if q = ascii '\\' then
                    match rest₃ with
                    | [] => faultBefore .endInText []
                    | u :: rest₄ =>
                      if u = ascii 'u' then
                        match rest₄ with
                        | k₁ :: k₂ :: k₃ :: k₄ :: rest₅ =>
                          match hexNumber? k₁ k₂ k₃ k₄ with
                          | none => faultBefore .badEscape rest₅
                          | some m =>
                            if isLowSurrogate m then
                              let c := Char.ofNat (0x10000 + (n - 0xD800) * 0x400 + (m - 0xDC00))
                              prepend (Utf8.encodeChar c) (textBytes rest₅)
                            else faultBefore .loneSurrogate rest₅
                        | _ => faultBefore .endInText []
                      else faultBefore .endOfEscape rest₄
                  else faultBefore .endOfEscape rest₃
              else prepend (Utf8.encodeChar (Char.ofNat n)) (textBytes rest₂)
          | _ => faultBefore .endInText []
        else
          match escapedChar? e with
          | some c => prepend (Utf8.encodeChar c) (textBytes rest₁)
          | none => faultBefore .badEscape rest₁
    else prepend [b] (textBytes rest)

/-- a text after its opening quote -/
def quotedText (s : List UInt8) : Outcome String :=
  (textBytes s).map fun p => (Utf8.ofBytesLossy p.1, p.2)

/-- a key and its colon -/
def key : List UInt8 → Outcome String
  | [] => faultAt .endInValue []
  | q :: s =>
    if q = ascii '"' then (quotedText s).bind fun (k, s) =>
      match skipBlanks s with
      | [] => faultAt .endInObject []
      | b :: rest => if b = ascii ':' then .ok (k, rest) else faultAt .noColon (b :: rest)
    else faultAt .noKey (q :: s)

/-! ## Values -/

/-- how many arrays and objects may stand inside each other -/
def depthLimit : Nat := 127

mutual

/-- a value; `depth` more arrays and objects may be opened -/
def value : Nat → Nat → List UInt8 → Outcome Json
  | 0, _, s => faultBefore .nestedTooDeep s
  | fuel + 1, depth, s =>
    match skipBlanks s with
    | [] => faultAt .endInValue []
    | b :: rest =>
      if b = ascii 'n' then keyword .null ['u', 'l', 'l'] rest
      else if b = ascii 't' then keyword (.bool true) ['r', 'u', 'e'] rest
      else if b = ascii 'f' then keyword (.bool false) ['a', 'l', 's', 'e'] rest
      else if b = ascii '-' then unsigned true rest
      else if isDigitByte b then unsigned false (b :: rest)
      else if b = ascii '"' then (quotedText rest).map fun p => (.text p.1, p.2)
      else if b = ascii '[' then
        match depth with
        | 0 => faultAt .nestedTooDeep (b :: rest)
        | depth + 1 =>
          match skipBlanks rest with
          | [] => faultAt .endInArray []
          | c :: more =>
            if c = ascii ']' then .ok (.array [], more)
            else (items fuel depth (c :: more)).map fun p => (.array p.1, p.2)
      else if b = ascii '{' then
        match depth with
        | 0 => faultAt .nestedTooDeep (b :: rest)
        | depth + 1 =>
          match skipBlanks rest with
          | [] => faultAt .endInObject []
          | c :: more =>
            if c = ascii '}' then .ok (.object [], more)
            else (members fuel depth [] (c :: more)).map fun p => (.object p.1, p.2)
      else faultAt .noValue (b :: rest)

/-- the items of an array from one that must be there, and its closing bracket -/
def items : Nat → Nat → List UInt8 → Outcome (List Json)
  | 0, _, s => faultBefore .nestedTooDeep s
  | fuel + 1, depth, s => (value fuel depth s).bind fun (x, s) =>
    match skipBlanks s with
    | [] => faultAt .endInArray []
    | b :: rest =>
      if b = ascii ']' then .ok ([x], rest)
      else if b = ascii ',' then
        match skipBlanks rest with
        | [] => faultAt .endInValue []
        | c :: more =>
          if c = ascii ']' then faultAt .trailingComma (c :: more)
          else (items fuel depth (c :: more)).map fun p => (x :: p.1, p.2)
      else faultAt .noCommaOrBracket (b :: rest)

/-- the entries of an object from one that must be there, on top of `acc`, and its closing brace -/
def members : Nat → Nat → Entries String Json → List UInt8 → Outcome (Entries String Json)
  | 0, _, _, s => faultBefore .nestedTooDeep s
  | fuel + 1, depth, acc, s => (key s).bind fun (k, s) => (value fuel depth s).bind fun (x, s) =>
    match skipBlanks s with
    | [] => faultAt .endInObject []
    | b :: rest =>
      if b = ascii '}' then .ok (acc.put k x, rest)
      else if b = ascii ',' then
        match skipBlanks rest with
        | [] => faultAt .endInValue []
        | c :: more =>
          if c = ascii '}' then faultAt .trailingComma (c :: more)
          else members fuel depth (acc.put k x) (c :: more)
      else faultAt .noCommaOrBrace (b :: rest)

end

/-- one value and nothing after it but blanks -/
def document (s : List UInt8) : Except Fault Json := do
  -- every step down takes a byte or follows one that did
  let (x, rest) ← value (2 * s.length + 2) depthLimit s
  match skipBlanks rest with
  | [] => .ok x
  | b :: more => faultAt .trailingCharacters (b :: more)

/-! ## Places -/

/-- What is wrong with a text, where: lines count from 1, columns are bytes into the line. -/
structure ReadError where
  reason : Reason
  line : Nat
  column : Nat
  deriving DecidableEq, Repr

def ReadError.message (e : ReadError) : String :=
  s!"{e.reason.message} at line {Text.decimalText e.line} column {Text.decimalText e.column}"

/-- line and column after the bytes -/
def placeAfter (s : List UInt8) : Nat × Nat :=
  s.foldl (fun p b => if b = 0x0A then (p.1 + 1, 0) else (p.1, p.2 + 1)) (1, 0)

def Fault.toError (f : Fault) (s : List UInt8) : ReadError :=
  let place := placeAfter (s.take (s.length - f.left))
  ⟨f.reason, place.1, place.2⟩

def readBytes (s : List UInt8) : Except ReadError Json :=
  (document s).mapError fun f => f.toError s

/-- The value that a text spells. -/
def read (s : String) : Except ReadError Json := readBytes (Utf8.toBytes s)

end CannedApi.Json
