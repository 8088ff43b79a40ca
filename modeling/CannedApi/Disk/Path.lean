import CannedApi.Text.Split
import CannedApi.Text.Utf8

/-!
# File names and paths

A file name is a legal name of one directory entry.  A path is the text by which a program names a
place; it may be any bytes at all, and only resolving it (`Disk/Resolve.lean`) tells what it names.
`Path.parts` is the reading of a path under which two spellings count as the same path.
-/

namespace CannedApi

/-- the byte `/` -/
def slash : UInt8 := 0x2F

/-- the longest file name, in bytes -/
def nameLimit : Nat := 255

/-- a path must be shorter than this, in bytes -/
def pathLimit : Nat := 4096

/-- What may stand in a directory as a name. -/
def IsFileName (bs : List UInt8) : Prop :=
  bs ≠ [] ∧ slash ∉ bs ∧ 0 ∉ bs ∧ bs ≠ [0x2E] ∧ bs ≠ [0x2E, 0x2E] ∧ bs.length ≤ nameLimit

instance (bs : List UInt8) : Decidable (IsFileName bs) :=
  inferInstanceAs (Decidable (_ ∧ _ ∧ _ ∧ _ ∧ _ ∧ _))

structure FileName where
  bytes : List UInt8
  legal : IsFileName bytes
  deriving DecidableEq

namespace FileName

theorem ext_bytes {a b : FileName} (h : a.bytes = b.bytes) : a = b := by
  cases a
  cases b
  simp at h
  subst h
  rfl

/-- names are ordered by their bytes -/
def le (a b : FileName) : Bool := decide (a.bytes ≤ b.bytes)

/-- the name as text, if it is well-formed -/
def text? (n : FileName) : Option String := Utf8.ofBytes? n.bytes

/-- the name as text, ill-formed sequences as U+FFFD -/
def display (n : FileName) : String := Utf8.ofBytesLossy n.bytes

theorem ne_nil (n : FileName) : n.bytes ≠ [] := n.legal.1

theorem length_pos (n : FileName) : 0 < n.bytes.length := List.length_pos_iff.2 n.ne_nil

end FileName

structure Path where
  bytes : List UInt8
  deriving DecidableEq, Repr

/-- One part of a path between slashes. -/
inductive PathPart where
  | root
  | here
  | up
  | name (bytes : List UInt8)
  deriving DecidableEq, Repr

namespace Path

def ofText (s : String) : Path := ⟨Utf8.toBytes s⟩

def display (p : Path) : String := Utf8.ofBytesLossy p.bytes

def length (p : Path) : Nat := p.bytes.length

def isAbsolute (p : Path) : Bool := p.bytes.head? == some slash

/-- the path of an entry of the directory `p` -/
def join (p : Path) (n : FileName) : Path :=
  if p.bytes = [] ∨ p.bytes.getLast? = some slash then ⟨p.bytes ++ n.bytes⟩
  else ⟨p.bytes ++ slash :: n.bytes⟩

theorem length_lt_join (p : Path) (n : FileName) : p.length < (p.join n).length := by
  have h := n.length_pos
  unfold join length
  split
  · rw [List.length_append]
    omega
  · rw [List.length_append, List.length_cons]
    omega

/-- the pieces between slashes, empty ones dropped -/
def pieces (p : Path) : List (List UInt8) := (Text.pieces slash p.bytes).filter (· ≠ [])

/-- The parts that count when paths are compared: repeated slashes and dots other than a leading one
do not. -/
def parts (p : Path) : List PathPart :=
  let ps := p.pieces
  let start := if p.isAbsolute then [PathPart.root] else if ps.head? = some [0x2E] then [.here] else []
  start ++ (ps.filter (· ≠ [0x2E])).map fun bs => if bs = [0x2E, 0x2E] then .up else .name bs

/-- the name at the end of the path, if there is one -/
def lastName? (p : Path) : Option (List UInt8) :=
  match p.parts.getLast? with
  | some (.name bs) => some bs
  | _ => none

end Path

end CannedApi
