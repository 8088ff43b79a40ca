import CannedApi.Disk.Tree

/-!
# Resolving and reading

`Disk.locate` follows a path through directories and symbolic links to the place that it names: at
most `linkLimit` links are followed, every directory on the way must be searchable, and a place that
does not exist is still a place if only the last name is missing.  On top of it `stat`, `list` and
`readFile` look at what is there.
-/

namespace CannedApi

inductive OsError where
  | noEntry
  | permissionDenied
  | fileExists
  | notDirectory
  | isDirectory
  | invalidArgument
  | nameTooLong
  | notEmpty
  | tooManyLinks
  | nulInPath
  | notText
  deriving DecidableEq, Repr

def OsError.message : OsError → String
  | .noEntry => "No such file or directory (os error 2)"
  | .permissionDenied => "Permission denied (os error 13)"
  | .fileExists => "File exists (os error 17)"
  | .notDirectory => "Not a directory (os error 20)"
  | .isDirectory => "Is a directory (os error 21)"
  | .invalidArgument => "Invalid argument (os error 22)"
  | .nameTooLong => "File name too long (os error 36)"
  | .notEmpty => "Directory not empty (os error 39)"
  | .tooManyLinks => "Too many levels of symbolic links (os error 40)"
  | .nulInPath => "file name contained an unexpected NUL byte"
  | .notText => "stream did not contain valid UTF-8"

/-! ## Steps -/

/-- One step on the way along a path. -/
inductive PathStep where
  | here
  | up
  | name (n : FileName)
  | tooLong

def PathStep.ofPiece (bs : List UInt8) : PathStep :=
  if h : IsFileName bs then .name ⟨bs, h⟩
  else if bs = [0x2E] then .here
  else if bs = [0x2E, 0x2E] then .up
  else .tooLong

/-- A slash at the end asks for a directory, as one more step to the same place does. -/
def Path.steps (p : Path) : List PathStep :=
  p.pieces.map .ofPiece ++ if p.bytes.getLast? = some slash then [.here] else []

/-- What a path names: something that is there, or a free name in a directory. -/
inductive Place where
  | existing (p : RealPath)
  | vacant (dir : RealPath) (name : FileName)

/-- where it is, or would be -/
def Place.path : Place → RealPath
  | .existing p => p
  | .vacant dir name => dir ++ [name]

/-- how many symbolic links one path may lead through -/
def linkLimit : Nat := 40

namespace Disk

/-- Goes on from the real path `at_` along the steps.  What comes of a link, with the steps after it and the
directory that it is in, `onLink` tells.  Above the top directory is the top directory again. -/
def followWith (d : Disk) (followLast : Bool)
    (onLink : Path → List PathStep → RealPath → Except OsError Place) :
    List PathStep → RealPath → Except OsError Place
  | [], at_ => .ok (.existing at_)
  | step :: rest, at_ =>
    match d.get? at_ with
    | none => .error .noEntry
    | some (.directory access) =>
      if access.search then
        match step with
        | .here => d.followWith followLast onLink rest at_
        | .up => d.followWith followLast onLink rest at_.dropLast
        | .tooLong => .error .nameTooLong
        | .name n =>
          match d.get? (at_ ++ [n]) with
          | none => if rest.isEmpty then .ok (.vacant at_ n) else .error .noEntry
          | some (.link target) =>
            if rest.isEmpty && !followLast then .ok (.existing (at_ ++ [n]))
            else onLink target rest at_
          | some _ => d.followWith followLast onLink rest (at_ ++ [n])
      else .error .permissionDenied
    | some _ => .error .notDirectory

/-- Follows the steps, and `links` links at most. -/
def follow (d : Disk) (followLast : Bool) :
    (links : Nat) → List PathStep → RealPath → Except OsError Place
  | 0 => d.followWith followLast fun _ _ _ => .error .tooManyLinks
  | links + 1 => d.followWith followLast fun target rest at_ =>
      d.follow followLast links (target.steps ++ rest) (if target.isAbsolute then [] else at_)

def locate (d : Disk) (followLast : Bool) (p : Path) : Except OsError Place :=
  if 0 ∈ p.bytes then .error .nulInPath
  else if p.bytes = [] then .error .noEntry
  else if pathLimit ≤ p.length then .error .nameTooLong
  else d.follow followLast linkLimit p.steps (if p.isAbsolute then [] else d.workingDir)

/-- the real path of what is there, links followed -/
def realPath (d : Disk) (p : Path) : Except OsError RealPath :=
  (d.locate true p).bind fun
    | .existing q => .ok q
    | .vacant _ _ => .error .noEntry

/-- the entry that is there, links followed, with its real path -/
def find (d : Disk) (p : Path) : Except OsError (RealPath × Entry) :=
  (d.realPath p).bind fun q =>
    match d.get? q with
    | some e => .ok (q, e)
    | none => .error .noEntry

theorem length_lt_of_find {d : Disk} {p : Path} {r : RealPath × Entry} (h : d.find p = .ok r) :
    p.length < pathLimit := by
  unfold find realPath locate at h
  by_cases h0 : 0 ∈ p.bytes
  · rw [if_pos h0] at h
    cases h
  · by_cases h1 : p.bytes = []
    · rw [if_neg h0, if_pos h1] at h
      cases h
    · by_cases h2 : pathLimit ≤ p.length
      · rw [if_neg h0, if_neg h1, if_pos h2] at h
        cases h
      · omega

/-! ## Looking -/

inductive Kind where
  | file
  | directory
  deriving DecidableEq, Repr

/-- what a path leads to, links followed -/
def stat (d : Disk) (p : Path) : Except OsError Kind :=
  (d.find p).bind fun r =>
    match r.2 with
    | .file _ _ => .ok .file
    | .directory _ => .ok .directory
    | .link _ => .error .tooManyLinks

theorem length_lt_of_stat {d : Disk} {p : Path} {k : Kind} (h : d.stat p = .ok k) :
    p.length < pathLimit := by
  unfold stat at h
  cases hf : d.find p with
  | error e =>
    rw [hf] at h
    cases h
  | ok r => exact length_lt_of_find hf

def isDirectory (d : Disk) (p : Path) : Bool :=
  match d.stat p with
  | .ok .directory => true
  | _ => false

def isFile (d : Disk) (p : Path) : Bool :=
  match d.stat p with
  | .ok .file => true
  | _ => false

/-- the names in a directory, in the order of their bytes -/
def list (d : Disk) (p : Path) : Except OsError (List FileName) :=
  (d.find p).bind fun r =>
    match r.2 with
    | .directory access =>
      if access.read then .ok ((d.childNames r.1).mergeSort FileName.le)
      else .error .permissionDenied
    | _ => .error .notDirectory

def readFile (d : Disk) (p : Path) : Except OsError (List UInt8) :=
  (d.find p).bind fun r =>
    match r.2 with
    | .file access content => if access.read then .ok content else .error .permissionDenied
    | .directory access => .error (if access.read then .isDirectory else .permissionDenied)
    | .link _ => .error .tooManyLinks

def readText (d : Disk) (p : Path) : Except OsError String :=
  (d.readFile p).bind fun bs =>
    match Utf8.ofBytes? bs with
    | some s => .ok s
    | none => .error .notText

end Disk

end CannedApi
