import CannedApi.Text.Digits
import CannedApi.Text.Split

/-!
# Socket addresses

Addresses of the form `1.2.3.4:80` and `[1:2::3%4]:80`: numbers only, no names.  The parts of an address
of version 4 have no leading zeros, ports may have them.
-/

namespace CannedApi

inductive SocketAddress where
  | v4 (parts : List Nat) (port : Nat)
  | v6 (groups : List Nat) (scope port : Nat)
  deriving DecidableEq, Repr

namespace SocketAddress

/-- a result and the characters that are left, or nothing -/
abbrev Reading (α : Type) := Option (α × List Char)

def expect (c : Char) : List Char → Option (List Char)
  | d :: rest => if d = c then some rest else none
  | [] => none

/-- a decimal number of any length up to a bound -/
def number (bound : Nat) (cs : List Char) : Reading Nat :=
  (Text.readDecimal (cs.takeWhile Text.isDigit)).bind fun n =>
    if n ≤ bound then some (n, cs.dropWhile Text.isDigit) else none

/-- a part of an address of version 4: up to 255, no leading zeros -/
def part (cs : List Char) : Reading Nat :=
  let ds := cs.takeWhile Text.isDigit
  if 3 < ds.length ∨ (1 < ds.length ∧ ds.head? = some '0') then none else number 255 cs

def host4 (cs : List Char) : Option (List Nat × List Char) := do
  let (a, cs) ← part cs
  let cs ← expect '.' cs
  let (b, cs) ← part cs
  let cs ← expect '.' cs
  let (c, cs) ← part cs
  let cs ← expect '.' cs
  let (d, cs) ← part cs
  return ([a, b, c, d], cs)

/-- a group of an address of version 6: one to four hexadecimal digits -/
def group (cs : List Char) : Reading Nat :=
  let ds := cs.takeWhile fun c => (Text.hexValue? c.toNat).isSome
  if ds = [] ∨ 4 < ds.length then none
  else
    some (ds.foldl (fun n c => n * 16 + (Text.hexValue? c.toNat).getD 0) 0, cs.drop ds.length)

/-- the separator before every group but the first -/
def separator (first : Bool) (cs : List Char) : Option (List Char) :=
  if first then some cs else expect ':' cs

/-- Up to `limit` groups with colons between them; an address of version 4 may stand for the last two.
Tells whether one did. -/
def groups (first : Bool) : Nat → List Char → (List Nat × Bool) × List Char
  | 0, cs => (([], false), cs)
  | limit + 1, cs =>
    let embedded := if limit = 0 then none else (separator first cs).bind host4
    match embedded with
    | some ([a, b, c, d], rest) => (([a * 256 + b, c * 256 + d], true), rest)
    | _ =>
      match (separator first cs).bind group with
      | some (g, rest) =>
        let more := groups false limit rest
        ((g :: more.1.1, more.1.2), more.2)
      | none => (([], false), cs)

/-- An address of version 6; a doubled colon stands for the groups that are missing. -/
def host6 (cs : List Char) : Reading (List Nat) :=
  let head := groups true 8 cs
  if head.1.1.length = 8 then some (head.1.1, head.2)
  else if head.1.2 then none
  else
    ((expect ':' head.2).bind (expect ':')).map fun rest =>
      let tail := groups true (7 - head.1.1.length) rest
      let missing := 8 - head.1.1.length - tail.1.1.length
      (head.1.1 ++ List.replicate missing 0 ++ tail.1.1, tail.2)

def scopeBound : Nat := 4294967295
def portBound : Nat := 65535

/-- the port, which nothing may follow -/
def port (cs : List Char) : Option Nat :=
  (expect ':' cs).bind fun cs =>
    match number portBound cs with
    | some (n, []) => some n
    | _ => none

def ofChars? (cs : List Char) : Option SocketAddress :=
  match host4 cs with
  | some (parts, rest) => (port rest).map (.v4 parts)
  | none => do
    let cs ← expect '[' cs
    let (gs, cs) ← host6 cs
    let (scope, cs) ← match cs with
      | '%' :: rest => number scopeBound rest
      | cs => some (0, cs)
    let cs ← expect ']' cs
    let p ← port cs
    return .v6 gs scope p

/-- The address that a text spells. -/
def parse? (s : String) : Option SocketAddress := ofChars? s.toList

end SocketAddress

end CannedApi
