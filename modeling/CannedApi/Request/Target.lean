import CannedApi.Text.Split
import CannedApi.Text.Utf8

/-!
# Request targets

What a request is sent to: mostly a path with a query, sometimes a whole address or a star.  A target
is taken apart byte by byte with the character classes of addresses; anything else is refused.
-/

namespace CannedApi

open Utf8 (ascii)

/-- A request target as it was given, taken apart. -/
structure Target where
  /-- the scheme and the host, as far as they were given -/
  scheme : Option String
  authority : Option String
  /-- the path; empty only if a host alone was given -/
  path : String
  query : Option String
  deriving DecidableEq, Repr

namespace Target

/-- the target as text; an absolute one without a path gets a slash -/
def text (t : Target) : String :=
  (match t.scheme with | some s => s ++ "://" | none => "") ++ t.authority.getD "" ++ t.path ++
    match t.query with | some q => "?" ++ q | none => ""

/-! ## Characters -/

def isBetween (low high b : UInt8) : Bool := low ≤ b && b ≤ high

def isAlphanumeric (b : UInt8) : Bool :=
  isBetween 0x30 0x39 b || isBetween 0x41 0x5A b || isBetween 0x61 0x7A b

/-- one of the characters of a text -/
def isOneOf (cs : String) (b : UInt8) : Bool := cs.toList.any fun c => ascii c == b

/-- may stand in a path; quotes and braces are let through, as are bytes beyond ASCII -/
def isPathByte (b : UInt8) : Bool :=
  b == 0x21 || isBetween 0x24 0x3B b || b == 0x3D || isBetween 0x40 0x5F b ||
  isBetween 0x61 0x7A b || b == 0x7C || b == 0x7E || 0x80 ≤ b || isOneOf "\"\x7b\x7d" b

def isQueryByte (b : UInt8) : Bool :=
  b == 0x21 || isBetween 0x24 0x3B b || b == 0x3D || isBetween 0x3F 0x7E b || 0x80 ≤ b

def isSchemeByte (b : UInt8) : Bool := isAlphanumeric b || isOneOf "+-.~" b

/-- may stand in a host with its user and port -/
def isAuthorityByte (b : UInt8) : Bool := isAlphanumeric b || isOneOf "!#$&'()*+,-./:;=?@[]_~" b

/-! ## Path and query -/

/-- The path and the query; a fragment is dropped unseen. -/
def pathAndQuery? (bs : List UInt8) : Option (String × Option String) :=
  let isEnd (b : UInt8) : Bool := b == ascii '?' || b == ascii '#'
  let path := bs.takeWhile (!isEnd ·)
  if path.all isPathByte then
    match bs.dropWhile (!isEnd ·) with
    | [] => some (Utf8.ofBytesLossy path, none)
    | mark :: rest =>
      if mark = ascii '#' then some (Utf8.ofBytesLossy path, none)
      else
        let query := rest.takeWhile (· != ascii '#')
        if query.all isQueryByte then some (Utf8.ofBytesLossy path, some (Utf8.ofBytesLossy query))
        else none
  else none

/-! ## Host -/

/-- What has been seen of a host so far. -/
structure AuthorityScan where
  colons : Nat := 0
  opened : Bool := false
  closed : Bool := false
  /-- a percent sign that is not in the user part -/
  percent : Bool := false
  /-- the last byte was an at sign -/
  afterAt : Bool := false

/-- the most colons before a user part or a bracket ends -/
def colonLimit : Nat := 8

def AuthorityScan.step (s : AuthorityScan) (b : UInt8) : Option AuthorityScan :=
  let s := { s with afterAt := b == ascii '@' }
  if b = ascii ':' then
    if colonLimit ≤ s.colons then none else some { s with colons := s.colons + 1 }
  else if b = ascii '[' then
    if s.percent || s.opened then none else some { s with opened := true }
  else if b = ascii ']' then
    if !s.opened || s.closed then none
    else some { s with closed := true, colons := 0, percent := false }
  else if b = ascii '@' then some { s with colons := 0, percent := false }
  else if b = ascii '%' then some { s with percent := true }
  else if isAuthorityByte b then some s
  else none

def AuthorityScan.isComplete (s : AuthorityScan) : Bool :=
  s.opened == s.closed && s.colons ≤ 1 && !s.afterAt && !s.percent

/-- the bytes of a host and what follows it, from the first slash, question mark or number sign on -/
def cutAuthority? (bs : List UInt8) : Option (List UInt8 × List UInt8) :=
  let isEnd := isOneOf "/?#"
  let host := bs.takeWhile (!isEnd ·)
  match host.foldlM AuthorityScan.step {} with
  | some s => if s.isComplete then some (host, bs.dropWhile (!isEnd ·)) else none
  | none => none

/-! ## Scheme -/

/-- the longest scheme -/
def schemeLimit : Nat := 64

def lowerByte (b : UInt8) : UInt8 := if isBetween 0x41 0x5A b then b + 0x20 else b

/-- the scheme and what follows its `://`; the two schemes of the web are put in lower case -/
def cutScheme (bs : List UInt8) : Option (List UInt8 × List UInt8) :=
  let scheme := bs.takeWhile isSchemeByte
  match Text.dropHead? ("://".toList.map ascii) (bs.dropWhile isSchemeByte) with
  | none => none
  | some rest =>
    let lower := scheme.map lowerByte
    if lower = "http".toList.map ascii ∨ lower = "https".toList.map ascii then some (lower, rest)
    else some (scheme, rest)

/-! ## Reading -/

/-- a target must be shorter than this, in bytes -/
def lengthLimit : Nat := 65535

/-- The target that a text spells. -/
def parse (s : String) : Option Target :=
  let bs := Utf8.toBytes s
  if bs.length ≥ lengthLimit then none
  else if bs = [] then none
  else if s = "*" then some ⟨none, none, "*", none⟩
  else if bs.head? = some (ascii '/') then
    (pathAndQuery? bs).map fun p => ⟨none, none, p.1, p.2⟩
  else
    match cutScheme bs with
    | none =>
      match cutAuthority? bs with
      | some (host, []) => some ⟨none, some (Utf8.ofBytesLossy host), "", none⟩
      | _ => none
    | some (scheme, rest) =>
      if schemeLimit < scheme.length then none
      else
        match cutAuthority? rest with
        | none => none
        | some ([], _) => none
        | some (host, rest) =>
          (pathAndQuery? rest).map fun p =>
            ⟨some (Utf8.ofBytesLossy scheme), some (Utf8.ofBytesLossy host),
              if p.1 = "" then "/" else p.1, p.2⟩

end Target

end CannedApi
