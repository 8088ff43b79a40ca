import CannedApi.Disk.Happening
import CannedApi.Route.Scan

/-!
# Watching a directory

Which changes of the disk are noticed.  A watcher puts watches on a directory and on all directories below
it.  A watch is on the directory itself: it stays there when the directory is moved, and goes with it.
What happens is reported under the path by which the directory was last found, whatever has become of that
path.  Directories that come to be in a watched one are watched from then on, with all below them.
-/

namespace CannedApi

/-- Something that a watcher reports, under the path by which it knows the entry. -/
structure Event where
  kind : EventKind
  path : Path
  deriving DecidableEq, Repr

/-- A watch, told from others by its number. -/
abbrev Watch := Nat

structure Watcher where
  /-- the directory that is watched with all below it -/
  top : Path
  /-- the watches that are in force, each where it is -/
  marks : Entries RealPath Watch
  /-- the path under which a watch was put last -/
  names : Entries Watch Path
  /-- the watch that was put last under a path; it need not be in force any more -/
  places : Entries Path Watch
  /-- the watch that is put next -/
  next : Watch

namespace Watcher

/-! ## What can be watched -/

/-- a watch may be put on what can be read -/
def mayWatch (d : Disk) (p : RealPath) : Bool :=
  match d.get? p with
  | some (.directory access) => access.read
  | some (.file access _) => access.read
  | _ => false

/-- The directories at the named entries of `dir` and below them.  A link is followed if its target can be
read and is not a directory on the way. -/
def below (d : Disk) (dir : Path) (above : List RealPath) (names : List FileName) :
    List (RealPath × Path) :=
  match names with
  | [] => []
  | n :: rest =>
    match h : d.stat (dir.join n), d.realPath (dir.join n) with
    | .ok .directory, .ok q =>
      let isLink := d.entryAt (dir.join n) ≠ [q]
      if isLink ∧ (q ∈ above ∨ mayWatch d q = false) then below d dir above rest
      else
        have := Disk.length_lt_of_stat h
        have := Path.length_lt_join dir n
        let inner := (d.list (dir.join n)).toOption.getD []
        (q, dir.join n) :: below d (dir.join n) (q :: above) inner ++ below d dir above rest
    | _, _ => below d dir above rest
termination_by (pathLimit - dir.length, names.length)

theorem below_of_files {d : Disk} {dir : Path} {names : List FileName}
    (h : ∀ n ∈ names, d.stat (dir.join n) = .ok .file) (above : List RealPath) :
    below d dir above names = [] := by
  induction names with
  | nil => rw [below]
  | cons n rest ih =>
    have hn := h n List.mem_cons_self
    rw [below]
    split
    · rename_i hdir _
      rw [hn] at hdir
      cases hdir
    · exact ih fun m hm => h m (List.mem_cons_of_mem n hm)

/-- what is watched with a path: a file alone, a directory with all directories below it -/
def findings (d : Disk) (p : Path) : List (RealPath × Path) :=
  match d.stat p, d.realPath p with
  | .ok .file, .ok q => [(q, p)]
  | .ok .directory, .ok q =>
    if d.entryAt p ≠ [q] ∧ mayWatch d q = false then []
    else (q, p) :: below d p [q] ((d.list p).toOption.getD [])
  | _, _ => []

/-! ## Putting watches -/

/-- A watch at `q` under the path `p`; an entry that has a watch keeps it. -/
def put (w : Watcher) (q : RealPath) (p : Path) : Watcher :=
  let n := (Entries.get? w.marks q).getD w.next
  { w with
    marks := Entries.put w.marks q n
    names := Entries.put w.names n p
    places := Entries.put w.places p n
    next := if n = w.next then w.next + 1 else w.next }

/-- watches on all that is found, up to the first place where none may be put -/
def putAll (w : Watcher) (d : Disk) (found : List (RealPath × Path)) : Watcher :=
  (found.takeWhile fun e => mayWatch d e.1).foldl (fun w e => w.put e.1 e.2) w

/-- Watching can start where something is, if all that is found can be watched. -/
def start (d : Disk) (top : Path) : Except OsError Watcher :=
  (d.stat top).bind fun _ =>
    let found := findings d top
    if found.all fun e => mayWatch d e.1 then .ok (putAll ⟨top, [], [], [], 0⟩ d found)
    else .error .permissionDenied

/-- A directory that may be read, with files alone in it, can be watched. -/
theorem exists_start_of_files {d : Disk} {top : Path} {q : RealPath} {names : List FileName}
    (hstat : d.stat top = .ok .directory) (hreal : d.realPath top = .ok q)
    (hread : mayWatch d q = true) (hlist : d.list top = .ok names)
    (hfiles : ∀ n ∈ names, d.stat (top.join n) = .ok .file) : ∃ w, start d top = .ok w := by
  have hfound : findings d top = [(q, top)] := by
    rw [findings, hstat, hreal, hlist]
    simp [hread, Except.toOption, below_of_files hfiles]
  refine ⟨putAll ⟨top, [], [], [], 0⟩ d [(q, top)], ?_⟩
  rw [start, hstat, hfound]
  simp [Except.bind, hread]

/-! ## Taking watches away -/

/-- whether a path lies at another or below it -/
def isUnder (top p : Path) : Bool :=
  p = top || (top.bytes ++ [slash]).isPrefixOf p.bytes

/-- Takes the watch under a path away, and, if it was in force, those known under paths below. -/
def forget (w : Watcher) (p : Path) : Watcher :=
  match Entries.get? w.places p with
  | none => w
  | some n =>
    let places := Entries.erase w.places p
    if w.marks.any fun e => e.2 = n then
      let lost := w.names.filter fun e => e.1 = n || isUnder p e.2
      let gone := lost.map Prod.fst
      { w with
        marks := w.marks.filter fun e => e.2 ∉ gone
        names := w.names.filter fun e => e.1 ∉ gone
        places := places.filter fun e => e.1 ∉ (lost.filter fun l => l.1 ≠ n).map Prod.snd }
    else { w with places := places }

/-- The watches where their entries are after a change; those on entries that are gone end. -/
def carry (w : Watcher) (d d' : Disk) (c : Change) : Watcher :=
  let marks := w.marks.filterMap fun e => (d.whereNow d' c e.1).map fun p => (p, e.2)
  { w with
    marks := marks
    names := w.names.filter fun e => e.1 ∈ marks.map Prod.snd }

/-! ## Reporting -/

/-- the path under which what stands at a real path was last found, if it is watched -/
def nameOf (w : Watcher) (p : RealPath) : Option Path :=
  (Entries.get? w.marks p).bind fun n => Entries.get? w.names n

/-- the path under which an entry is known, if its directory is watched -/
def known? (w : Watcher) (p : RealPath) : Option Path :=
  match p.getLast?, w.nameOf p.dropLast with
  | some n, some dir => some (dir.join n)
  | _, _ => none

/-- The event for what happened, if it is heard of.  That an entry itself is moved or removed is heard of
at the top only. -/
def event? (w : Watcher) (h : Happening) : Option Event :=
  match h.heardAt with
  | .directory => (w.known? h.entry).map (⟨h.kind, ·⟩)
  | .entry =>
    match w.nameOf h.entry with
    | some p => if h.kind = .modified ∨ p = w.top then some ⟨h.kind, p⟩ else none
    | none => none

/-- the path of what is no longer to be watched after what happened -/
def loss? (w : Watcher) (h : Happening) : Option Path :=
  if h.kind = .removed ∨ (h.kind = .renamedFrom ∧ h.heardAt = .directory) then
    (w.event? h).map Event.path
  else none

/-- the path of the directory that has come to be in a watched one -/
def gain? (w : Watcher) (d' : Disk) (h : Happening) : Option Path :=
  if (h.kind = .created ∨ h.kind = .renamedTo) ∧ h.heardAt = .directory then
    match d'.get? h.entry, w.nameOf h.entry.dropLast with
    | some (.directory _), some dir =>
      if (Entries.get? w.places dir).isSome then w.known? h.entry else none
    | _, _ => none
  else none

/-- The watcher after what happened: first watches are taken away, then new ones are put. -/
def follow (w : Watcher) (d d' : Disk) (c : Change) : Watcher :=
  let hs := d.happenings d' c
  let kept := (hs.filterMap w.loss?).foldl forget (w.carry d d' c)
  (hs.filterMap (w.gain? d')).foldl (fun x p => x.putAll d' (findings d' p)) kept

/-! ## Forwarding -/

def isAnswerPath (p : Path) : Bool :=
  match p.lastName?.bind Utf8.ofBytes? with
  | some s => (Text.dropTail? Naming.ending s.toList).isSome
  | none => false

/-- Whether an event calls for a reload: it is about a file with the ending of answers, or something
that is not a plain file came, went or was renamed. -/
def forwards (d : Disk) (e : Event) : Bool :=
  isAnswerPath e.path || (e.kind != .modified && !d.isFile e.path)

/-- The paths that a change makes the watcher report, and the watcher from then on. -/
def observe (w : Watcher) (d d' : Disk) (c : Change) : List Path × Watcher :=
  let events := (d.happenings d' c).filterMap w.event?
  ((events.filter (forwards d')).map Event.path, w.follow d d' c)

end Watcher

end CannedApi
