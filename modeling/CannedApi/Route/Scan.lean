import CannedApi.Disk.Resolve
import CannedApi.Route.Index
import CannedApi.Route.Naming

/-!
# From a directory to an index

The walk visits a directory and, through symbolic links too, every directory below it, in the order
of the names; entries that cannot be looked at are passed over, a directory that cannot be listed ends
the walk.  It comes to an end whatever the links point to: each step down makes the path longer, and
too long a path cannot be looked at.
-/

namespace CannedApi

/-- A directory that could not be listed. -/
structure ScanError where
  directory : Path
  cause : OsError
  deriving DecidableEq, Repr

def ScanError.message (e : ScanError) : String :=
  s!"failed to read mock directory {e.directory.display}: {e.cause.message}"

/-- A file with an answer: the directories that lead to it from the root of the walk, its name, and
the path by which it was reached. -/
structure FoundFile where
  directories : List FileName
  name : FileName
  path : Path
  deriving DecidableEq

namespace Scan

/-- a name that is text with the ending of answers -/
def isAnswerName (n : FileName) : Bool :=
  match n.text? with
  | some s => (Text.dropTail? Naming.ending s.toList).isSome
  | none => false

/-- The files at and below the named entries of the directory `dir`, which lies `above` the root. -/
def visit (d : Disk) (dir : Path) (above : List FileName) (names : List FileName) :
    Except ScanError (List FoundFile) :=
  match names with
  | [] => .ok []
  | n :: rest =>
    match h : d.stat (dir.join n) with
    | .error _ => visit d dir above rest
    | .ok .file =>
      (visit d dir above rest).map fun more =>
        if isAnswerName n then ⟨above, n, dir.join n⟩ :: more else more
    | .ok .directory =>
      match d.list (dir.join n) with
      | .error e => .error ⟨dir.join n, e⟩
      | .ok inner =>
        have := Disk.length_lt_of_stat h
        have := Path.length_lt_join dir n
        (visit d (dir.join n) (above ++ [n]) inner).bind fun below =>
          (visit d dir above rest).map fun more => below ++ more
termination_by (pathLimit - dir.length, names.length)

theorem visit_nil (d : Disk) (dir : Path) (above : List FileName) :
    visit d dir above [] = .ok [] := by
  rw [visit]

theorem visit_cons (d : Disk) (dir : Path) (above : List FileName) (n : FileName)
    (rest : List FileName) :
    visit d dir above (n :: rest) =
      match d.stat (dir.join n) with
      | .error _ => visit d dir above rest
      | .ok .file =>
        (visit d dir above rest).map fun more =>
          if isAnswerName n then ⟨above, n, dir.join n⟩ :: more else more
      | .ok .directory =>
        match d.list (dir.join n) with
        | .error e => .error ⟨dir.join n, e⟩
        | .ok inner =>
          (visit d (dir.join n) (above ++ [n]) inner).bind fun below =>
            (visit d dir above rest).map fun more => below ++ more := by
  rw [visit]
  split <;> simp only [*]

/-- Of the names in a directory the first is refused, or it is a file, or a directory that cannot be listed, or one
that is listed. -/
@[elab_as_elim]
theorem visit_induction (d : Disk) {P : Path → List FileName → List FileName → Prop}
    (nil : ∀ dir above, P dir above [])
    (refused : ∀ dir above n rest e, d.stat (dir.join n) = .error e → P dir above rest → P dir above (n :: rest))
    (file : ∀ dir above n rest, d.stat (dir.join n) = .ok .file → P dir above rest → P dir above (n :: rest))
    (unlisted : ∀ dir above n rest e, d.stat (dir.join n) = .ok .directory → d.list (dir.join n) = .error e →
      P dir above (n :: rest))
    (listed : ∀ dir above n rest inner, d.stat (dir.join n) = .ok .directory →
      d.list (dir.join n) = .ok inner → P (dir.join n) (above ++ [n]) inner → P dir above rest →
      P dir above (n :: rest))
    (dir : Path) (above names : List FileName) : P dir above names :=
  visit.induct d P nil refused file (fun dir above n rest hstat e hlist => unlisted dir above n rest e hstat hlist)
    (fun dir above n rest hstat inner hlist _ _ => listed dir above n rest inner hstat hlist) dir above names

theorem visit_files {d : Disk} {dir : Path} {names : List FileName}
    (h : ∀ n ∈ names, d.stat (dir.join n) = .ok .file) (above : List FileName) :
    visit d dir above names =
      .ok ((names.filter isAnswerName).map fun n => ⟨above, n, dir.join n⟩) := by
  induction names with
  | nil => rw [visit_nil]; rfl
  | cons n rest ih =>
    have ih' := ih fun x hx => h x (List.mem_cons_of_mem n hx)
    rw [visit_cons, h n List.mem_cons_self, ih']
    cases hn : isAnswerName n <;> simp [Except.map, hn]

/-- all files with answers below a directory -/
def files (d : Disk) (root : Path) : Except ScanError (List FoundFile) :=
  match d.list root with
  | .error e => .error ⟨root, e⟩
  | .ok names => visit d root [] names

/-- the route of a file, if its name is that of an answer -/
def route? (base : String) (f : FoundFile) : Option Route :=
  match f.name.text? with
  | none => none
  | some name =>
    (Naming.splitMethod name).map fun p =>
      { method := p.1
        pattern := Naming.pattern base (f.directories.map FileName.display) p.2
        file := f.path }

end Scan

/-- The index of all answers below `root`; where no directory is there are none. -/
def RouteIndex.build (d : Disk) (root : Path) (base : String) : Except ScanError RouteIndex :=
  if d.isDirectory root then
    (Scan.files d root).map fun fs => .ofRoutes (fs.filterMap (Scan.route? (Naming.normalizeBase base)))
  else .ok .empty

namespace RouteIndex

variable {d : Disk} {root : Path}

theorem build_of_isDirectory (hdir : d.isDirectory root = true) (base : String) :
    build d root base = (Scan.files d root).map fun fs =>
      .ofRoutes (fs.filterMap (Scan.route? (Naming.normalizeBase base))) := by
  rw [build, if_pos hdir]

theorem build_of_list_error {e : OsError} (hdir : d.isDirectory root = true)
    (hlist : d.list root = .error e) (base : String) : build d root base = .error ⟨root, e⟩ := by
  rw [build_of_isDirectory hdir, Scan.files, hlist]
  rfl

/-- A directory in which there are files alone. -/
theorem build_of_files {names : List FileName} (hdir : d.isDirectory root = true)
    (hlist : d.list root = .ok names) (hstat : ∀ n ∈ names, d.stat (root.join n) = .ok .file)
    (base : String) :
    build d root base =
      .ok (.ofRoutes (((names.filter Scan.isAnswerName).map fun n =>
        ⟨[], n, root.join n⟩).filterMap (Scan.route? (Naming.normalizeBase base)))) := by
  rw [build_of_isDirectory hdir, Scan.files, hlist]
  show (Scan.visit d root [] names).map _ = _
  rw [Scan.visit_files hstat]
  rfl

end RouteIndex

end CannedApi
