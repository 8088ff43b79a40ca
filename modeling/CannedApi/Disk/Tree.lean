import CannedApi.Disk.Path
import CannedApi.Entries

/-!
# The disk

The files, directories and symbolic links of a machine.  An entry stands under its real path: the names
that lead to it from the top directory, which itself has the empty real path.  Paths that do not start
at the top start at the working directory.
-/

namespace CannedApi

/-- What the owner may do with an entry. -/
structure Access where
  read : Bool
  write : Bool
  search : Bool
  deriving DecidableEq, Repr

namespace Access

def file : Access := ⟨true, true, false⟩
def directory : Access := ⟨true, true, true⟩

/-- the owner's three bits of a mode -/
def ofMode (mode : Nat) : Access :=
  let owner := mode / 64
  ⟨owner / 4 % 2 = 1, owner / 2 % 2 = 1, owner % 2 = 1⟩

end Access

inductive Entry where
  | file (access : Access) (content : List UInt8)
  | directory (access : Access)
  | link (target : Path)
  deriving DecidableEq, Repr

abbrev RealPath := List FileName

/-- Entries by their real paths.  The order of the list means nothing. -/
structure Disk where
  entries : Entries RealPath Entry
  top : Access := Access.directory
  workingDir : RealPath := []
  distinct : Entries.Distinct entries

namespace Disk

/-- a disk with nothing on it -/
def empty : Disk := ⟨[], Access.directory, [], List.nodup_nil⟩

/-- what stands at a real path; the top directory stands at the empty one -/
def get? (d : Disk) (p : RealPath) : Option Entry :=
  if p = [] then some (.directory d.top) else Entries.get? d.entries p

/-- the entry at `p` becomes `e` -/
def put (d : Disk) (p : RealPath) (e : Entry) : Disk :=
  { d with entries := Entries.put d.entries p e, distinct := Entries.distinct_put d.distinct p e }

theorem get?_put (d : Disk) {p : RealPath} (hp : p ≠ []) (e : Entry) (q : RealPath) :
    (d.put p e).get? q = if p = q then some e else d.get? q := by
  unfold get? put
  by_cases hq : q = []
  · subst hq
    simp [hp]
  · simp [hq, Entries.get?_put]

/-- an entry is a direct child of the directory -/
def isChild (dir p : RealPath) : Bool := p ≠ [] && p.dropLast == dir

/-- the names in a directory, in no order that means anything -/
def childNames (d : Disk) (dir : RealPath) : List FileName :=
  (d.entries.filter fun e => isChild dir e.1).filterMap fun e => e.1.getLast?

/-- an entry stands at `top` or below it -/
def isWithin (top p : RealPath) : Bool := top.isPrefixOf p

/-- the disk without what stands at `top` or below it -/
def dropWithin (d : Disk) (top : RealPath) : Disk :=
  { d with
    entries := d.entries.filter fun e => !isWithin top e.1
    distinct := by
      refine List.Nodup.sublist ?_ d.distinct
      exact (List.filter_sublist (l := d.entries)).map Prod.fst }

end Disk

end CannedApi
