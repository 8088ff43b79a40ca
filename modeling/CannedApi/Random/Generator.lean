import CannedApi.Random.Source
import CannedApi.Random.Words
import CannedApi.Time.Instant

/-!
# Random values

The kinds of values that a template may ask for, and how one is drawn.  The parts of a value are drawn
in the order in which they stand in it, the number of its parts first.
-/

namespace CannedApi.Random

inductive Generator where
  | uuid
  | name
  | email
  | phone
  | number
  | boolean
  | avatar
  | url
  | date
  | text
  | paragraph
  | word
  | company
  | address
  | city
  | country
  | zipCode
  | color
  deriving DecidableEq, Repr

/-- A name that is not that of a generator. -/
structure UnknownGenerator where
  name : String
  deriving DecidableEq, Repr

def UnknownGenerator.message (e : UnknownGenerator) : String := s!"unknown random generator: {e.name}"

/-- What a value is made from besides words: the time, and 128 bits for an identifier. -/
structure Moment where
  now : Instant
  high : UInt64
  low : UInt64
  deriving Repr

namespace Generator

def all : List Generator :=
  [.uuid, .name, .email, .phone, .number, .boolean, .avatar, .url, .date, .text, .paragraph, .word,
    .company, .address, .city, .country, .zipCode, .color]

/-- the name by which a template asks for it -/
def key : Generator → String
  | .uuid => "uuid"
  | .name => "name"
  | .email => "email"
  | .phone => "phone"
  | .number => "number"
  | .boolean => "boolean"
  | .avatar => "avatar"
  | .url => "url"
  | .date => "date"
  | .text => "text"
  | .paragraph => "paragraph"
  | .word => "word"
  | .company => "company"
  | .address => "address"
  | .city => "city"
  | .country => "country"
  | .zipCode => "zipCode"
  | .color => "color"

def ofKey? (name : String) : Option Generator := all.find? fun g => g.key == name

def ofKey (name : String) : Except UnknownGenerator Generator :=
  match ofKey? name with
  | some g => .ok g
  | none => .error ⟨name⟩

end Generator

/-! ## Parts of values -/

/-- the last `n` hexadecimal digits of a number -/
def hexDigits : Nat → Nat → List Char
  | 0, _ => []
  | n + 1, v => hexDigits n (v / 16) ++ [Text.hexDigit v]

/-- Version 4 of the identifiers: all bits are random but those for the version and the variant. -/
def uuidText (high low : UInt64) : String :=
  let high := high.toNat / 0x10000 * 0x10000 + 0x4000 + high.toNat % 0x1000
  let low := low.toNat % twoTo 62 + twoTo 63
  String.ofList (hexDigits 8 (high / twoTo 32) ++ '-' :: hexDigits 4 (high / twoTo 16) ++
    '-' :: hexDigits 4 high ++ '-' :: hexDigits 4 (low / twoTo 48) ++ '-' :: hexDigits 12 low)

/-- the texts with a space between them -/
def spaced (words : List String) : String := " ".intercalate words

/-- with its first letter in upper case -/
def capital (s : String) : String :=
  match s.toList with
  | [] => ""
  | c :: cs => String.ofList (c.toUpper :: cs)

/-- in lower case -/
def lower (s : String) : String := String.ofList (s.toList.map Char.toLower)

/-- four to ten words as a sentence -/
def sentence : Draw String := do
  let n ← range 4 11
  let words ← times n (pick Words.filler)
  return capital (spaced words) ++ "."

/-- milliseconds in a day -/
def dayMillis : Nat := 86400000

/-! ## Values -/

/-- one value of a kind -/
def Generator.draw (m : Moment) : Generator → Draw String
  | .uuid => return uuidText m.high m.low
  | .name => do
    let first ← pick Words.firstNames
    let last ← pick Words.lastNames
    return s!"{first} {last}"
  | .email => do
    let first ← pick Words.firstNames
    let last ← pick Words.lastNames
    let n ← range 1 100
    let domain ← pick Words.mailDomains
    return s!"{lower first}.{lower last}{Text.decimalText n}@{domain}"
  | .phone => do
    let a ← range 200 1000
    let b ← range 200 1000
    let c ← range 0 10000
    return s!"({Text.paddedText 3 a}) {Text.paddedText 3 b}-{Text.paddedText 4 c}"
  | .number => do return Text.decimalText (← range 1 1001)
  | .boolean => do return if ← coin then "true" else "false"
  | .avatar => do
    return "https://avatars.githubusercontent.com/u/" ++ Text.decimalText (← range 1 100000000)
  | .url => do
    let word ← pick Words.filler
    let top ← pick Words.topDomains
    return s!"https://{word}.{top}"
  | .date => do return (m.now.minusMillis (← wideBelow dayMillis)).iso
  | .text => sentence
  | .paragraph => do
    let n ← range 3 7
    return spaced (← times n sentence)
  | .word => pick Words.filler
  | .company => do
    let last ← pick Words.lastNames
    let ending ← pick Words.companyEndings
    return s!"{last} {ending}"
  | .address => do
    let n ← range 1 10000
    let last ← pick Words.lastNames
    let ending ← pick Words.streetEndings
    return s!"{Text.decimalText n} {last} {ending}"
  | .city => pick Words.cities
  | .country => pick Words.countries
  | .zipCode => do return Text.paddedText 5 (← range 0 100000)
  | .color => pick Words.colors

end CannedApi.Random
