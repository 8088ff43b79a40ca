import CannedApi.Route.Expansion
import CannedApi.Route.Scan

/-!
# The route of a file, read off its path

All that a route needs stands in the path of its file: the parts behind those of the root are directories
and a name.  The pattern is put together in one list, to which the common path, the directories and the
logical name add their segments in turn.
-/

namespace CannedApi

/-- a part of a path as it is written -/
def PathPart.bytes : PathPart → List UInt8
  | .root => [slash]
  | .here => [0x2E]
  | .up => [0x2E, 0x2E]
  | .name bs => bs

/-- Where a file lies below a root: the directories on the way as they are shown, and its name. -/
structure Placement where
  directories : List String
  name : String
  deriving DecidableEq, Repr

/-- The placement of a file below `root`, if it lies there and its name is text. -/
def Path.placement? (root file : Path) : Option Placement :=
  (Text.dropHead? root.parts file.parts).bind fun parts =>
    match parts.getLast? with
    | some (.name bs) => (Utf8.ofBytes? bs).map fun name =>
        ⟨parts.dropLast.map fun part => Utf8.ofBytesLossy part.bytes, name⟩
    | _ => none

namespace Naming

open Text (BadOffset)

/-- The list with the segments of all the names behind it. -/
def expandAllInto (names : List String) (out : Pattern) : Except BadOffset Pattern :=
  match names with
  | [] => .ok out
  | n :: rest => (expandInto n out).bind fun out => expandAllInto rest out

/-- The pattern below a common path, put together in one list; a logical name may be missing. -/
def assemble (base : String) (directories : List String) (logical : String) : Except BadOffset Pattern :=
  (expandAllInto directories (baseSegments base.toList)).bind fun out =>
    if logical = "" then .ok out else expandInto logical out

end Naming

/-- The route of a file below `root`, if its name is that of an answer. -/
def Route.describe (root : Path) (base : String) (file : Path) : Except Text.BadOffset (Option Route) :=
  match root.placement? file with
  | none => .ok none
  | some f =>
    match Naming.splitMethod f.name with
    | none => .ok none
    | some (method, logical) =>
      (Naming.assemble base f.directories logical).map fun pattern => some ⟨method, pattern, file⟩

end CannedApi
