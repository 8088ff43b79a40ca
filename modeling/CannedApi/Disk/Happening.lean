import CannedApi.Disk.Change

/-!
# What a change does

A change of the disk as single happenings, each at one entry.  A happening can be told in the directory
that the entry stands in, by the name of the entry there, or at the entry itself, by whatever name it is
known.
-/

namespace CannedApi

inductive EventKind where
  | created
  | modified
  | removed
  | renamedFrom
  | renamedTo
  deriving DecidableEq, Repr

/-- Where a happening can be heard of. -/
inductive HeardAt where
  | directory
  | entry
  deriving DecidableEq, Repr

/-- Something that happened to the entry at a real path. -/
structure Happening where
  kind : EventKind
  entry : RealPath
  heardAt : HeardAt
  deriving DecidableEq

namespace Happening

def inDirectory (kind : EventKind) (p : RealPath) : Happening := ⟨kind, p, .directory⟩

def atEntry (kind : EventKind) (p : RealPath) : Happening := ⟨kind, p, .entry⟩

/-- heard of in both places -/
def everywhere (kind : EventKind) (ps : List RealPath) : List Happening :=
  ps.map (inDirectory kind) ++ ps.map (atEntry kind)

end Happening

namespace Disk

/-- the entries that are in `d'` and not in `d` -/
def added (d d' : Disk) : List RealPath :=
  (d'.entries.map Prod.fst).filter fun p => (d.get? p).isNone

/-- where an entry is, links at its end not followed -/
def entryAt (d : Disk) (p : Path) : List RealPath :=
  match d.locate false p with
  | .ok (.existing q) => [q]
  | _ => []

/-- where a path leads, links followed -/
def targetOf (d : Disk) (p : Path) : List RealPath :=
  match d.realPath p with
  | .ok q => [q]
  | .error _ => []

/-- The real paths between which a renaming moves an entry; none if both paths name the same one. -/
def moveOf (d : Disk) (p dest : Path) : Option (RealPath × RealPath) :=
  match d.locate false p.trimmed, d.locate false dest.trimmed with
  | .ok (.existing old), .ok place => if place.path = old then none else some (old, place.path)
  | _, _ => none

/-- What happens when a change takes the disk from `d` to `d'`.  A removal happens to all that goes, a
renaming only to what is named and to what it takes the place of. -/
def happenings (d d' : Disk) : Change → List Happening
  | .write p _ =>
    (d.added d').map (.inDirectory .created) ++ Happening.everywhere .modified (d.targetOf p)
  | .makeDirectory _ => (d.added d').map (.inDirectory .created)
  | .remove _ => Happening.everywhere .removed (d'.added d)
  | .rename p dest =>
    match d.moveOf p dest with
    | none => []
    | some (old, new) =>
      let replaced := if (d.get? new).isSome then [new] else []
      [.inDirectory .renamedFrom old, .inDirectory .renamedTo new, .atEntry .renamedFrom old] ++
        replaced.map (.atEntry .modified) ++ replaced.map (.atEntry .removed)
  | .link _ _ => (d.added d').map (.inDirectory .created)
  | .setMode p _ => Happening.everywhere .modified (d.targetOf p)

/-- The real path at which an entry of `d` stands in `d'`, if it is still there. -/
def whereNow (d d' : Disk) (c : Change) (p : RealPath) : Option RealPath :=
  match c with
  | .rename q dest =>
    match d.moveOf q dest with
    | none => some p
    | some (old, new) =>
      if isWithin old p then some (moved old new p) else if isWithin new p then none else some p
  | _ => if (d'.get? p).isSome then some p else none

end Disk

end CannedApi
