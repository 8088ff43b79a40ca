import CannedApi.Disk.Resolve

/-!
# Changing the disk

Writing, making directories, removing, renaming, linking and setting modes.  A change either gives
the new disk or leaves the old one with the cause of the failure.
-/

namespace CannedApi

inductive Change where
  | write (path : Path) (content : List UInt8)
  | makeDirectory (path : Path)
  | remove (path : Path)
  | rename (path dest : Path)
  | link (path target : Path)
  | setMode (path : Path) (mode : Nat)
  deriving DecidableEq, Repr

namespace Path

/-- the path up to its last name, slashes at the end ignored -/
def parent (p : Path) : Path :=
  let bytes := (p.bytes.reverse.dropWhile (· = slash)).dropWhile (· ≠ slash)
  ⟨(bytes.dropWhile (· = slash)).reverse⟩

/-- without slashes at the end -/
def trimmed (p : Path) : Path := ⟨(p.bytes.reverse.dropWhile (· = slash)).reverse⟩

/-- the path itself after each of its names: `a`, `a/b`, `a/b/c` -/
def stages (p : Path) : List Path :=
  let ps := p.pieces
  let start := if p.isAbsolute then [slash] else []
  (List.range ps.length).map fun i => ⟨start ++ Text.join slash (ps.take (i + 1))⟩

end Path

namespace Disk

/-- names may be put into the directory and taken out of it -/
def isWritable (d : Disk) (dir : RealPath) : Bool :=
  match d.get? dir with
  | some (.directory access) => access.write && access.search
  | _ => false

/-- a new entry in a directory that allows it -/
def create (d : Disk) (dir : RealPath) (n : FileName) (e : Entry) : Except OsError Disk :=
  if d.isWritable dir then .ok (d.put (dir ++ [n]) e) else .error .permissionDenied

/-- one directory, which may already be there -/
def ensureDirectory (d : Disk) (p : Path) : Except OsError Disk :=
  if d.isDirectory p then .ok d
  else
    (d.locate false p).bind fun
      | .existing _ => .error .fileExists
      | .vacant dir n => d.create dir n (.directory .directory)

/-- a directory with all directories above it -/
def makeDirectories (d : Disk) (p : Path) : Except OsError Disk := p.stages.foldlM ensureDirectory d

/-- the file holds exactly the content; a file that is there keeps its mode -/
def writeFile (d : Disk) (p : Path) (content : List UInt8) : Except OsError Disk :=
  (d.locate true p).bind fun
    | .vacant dir n => d.create dir n (.file .file content)
    | .existing q =>
      match d.get? q with
      | some (.file access _) =>
        if access.write then .ok (d.put q (.file access content)) else .error .permissionDenied
      | _ => .error .isDirectory

/-- the directories at or below `top` that are not empty -/
def filledWithin (d : Disk) (top : RealPath) : List RealPath :=
  (d.entries.map Prod.fst).filter fun p => isWithin top p && !(d.childNames p).isEmpty

/-- takes out an entry with all below it; links are not followed -/
def removeTree (d : Disk) (p : Path) : Except OsError Disk :=
  (d.locate false p).bind fun
    | .vacant _ _ => .error .noEntry
    | .existing q =>
      if q = [] then .error .invalidArgument
      else if !d.isWritable q.dropLast then .error .permissionDenied
      else if (d.filledWithin q).all d.isWritable then .ok (d.dropWithin q)
      else .error .permissionDenied

/-- the real path `p`, which stands within `old`, moved to stand within `new` -/
def moved (old new p : RealPath) : RealPath := new ++ p.drop old.length

/-- All at `old` and below it stands at `new` and below it, the working directory too if it is there;
what stood there is gone. -/
def moveWithin (d : Disk) (old new : RealPath) : Disk :=
  let kept := (d.dropWithin new).dropWithin old
  let home := if isWithin old d.workingDir then moved old new d.workingDir else d.workingDir
  (d.entries.filter fun e => isWithin old e.1).foldl
    (fun d' e => d'.put (moved old new e.1) e.2) { kept with workingDir := home }

/-- Whether `e` may take the place of what stands at `q`: files replace files, directories replace
empty directories. -/
def replaceable (d : Disk) (e : Entry) (q : RealPath) : Except OsError Unit :=
  match e, d.get? q with
  | .directory _, some (.directory _) =>
    if (d.childNames q).isEmpty then .ok () else .error .notEmpty
  | .directory _, some _ => .error .notDirectory
  | _, some (.directory _) => .error .isDirectory
  | _, _ => .ok ()

def renameEntry (d : Disk) (p dest : Path) : Except OsError Disk :=
  (d.locate false p.trimmed).bind fun
    | .vacant _ _ => .error .noEntry
    | .existing q =>
      match d.get? q with
      | none => .error .noEntry
      | some e =>
        (d.locate false dest.trimmed).bind fun place =>
          let (target, known) := match place with
            | .existing t => (t, true)
            | .vacant dir n => (dir ++ [n], false)
          if target = q then .ok d
          else if q = [] ∨ target = [] ∨ isWithin q target then .error .invalidArgument
          else if !(d.isWritable q.dropLast && d.isWritable target.dropLast) then
            .error .permissionDenied
          else (if known then d.replaceable e target else .ok ()).bind fun _ =>
            .ok (d.moveWithin q target)

def makeLink (d : Disk) (p target : Path) : Except OsError Disk :=
  if target.bytes = [] then .error .noEntry
  else
    (d.locate false p).bind fun
      | .existing _ => .error .fileExists
      | .vacant dir n => d.create dir n (.link target)

def setMode (d : Disk) (p : Path) (mode : Nat) : Except OsError Disk :=
  (d.find p).bind fun r =>
    match r.2 with
    | .file _ content => .ok (d.put r.1 (.file (.ofMode mode) content))
    | .directory _ =>
      if r.1 = [] then .ok { d with top := .ofMode mode }
      else .ok (d.put r.1 (.directory (.ofMode mode)))
    | .link _ => .error .tooManyLinks

/-- The disk after a change. -/
def apply (d : Disk) : Change → Except OsError Disk
  | .write p content => (d.makeDirectories p.parent).bind fun d => d.writeFile p content
  | .makeDirectory p => d.makeDirectories p
  | .remove p => d.removeTree p
  | .rename p dest => d.renameEntry p dest
  | .link p target => d.makeLink p target
  | .setMode p mode => d.setMode p mode

end Disk

end CannedApi
