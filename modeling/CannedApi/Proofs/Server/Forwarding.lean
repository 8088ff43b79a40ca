import CannedApi.Proofs.Route.Immaterial
import CannedApi.Proofs.Server.Reloads
import CannedApi.Server.Watch

/-!
# Changes that are forwarded

Files change, and each change is told of by events, which may be handled at any later time.  Whether an
event is forwarded depends on its name and on what is at its path when it is handled, not when it happened.
A change of which nothing is forwarded makes no difference to the routes, if all that is overlooked with it
is minor (`Course.build_step`).  So routes that differ after a course of changes have been noticed, or
overlooked at an entry that matters (`Course.forwards_or_misses`).
-/

namespace CannedApi

/-- An entry went away, or at least from where it was. -/
def Happening.goes (h : Happening) : Bool := h.kind = .removed || h.kind = .renamedFrom

/-- Changes one after the other, and the events that are handled. -/
structure Course where
  /-- the disk after so many changes -/
  disk : Nat → Disk
  changes : List Change
  /-- events, each with the number of changes made by the time it is handled -/
  events : List (Nat × Event)

namespace Course

variable {x : Course} {top : Path} {base : String} {i : Nat} {c : Change} {h : Happening}

/-- Each change is made, and it changes names or contents. -/
structure Valid (x : Course) : Prop where
  step : ∀ i c, x.changes[i]? = some c → (x.disk i).apply c = .ok (x.disk (i + 1)) ∧ c.KeepsModes
  handled : ∀ e ∈ x.events, e.1 ≤ x.changes.length

/-- With the `i`th change this happens to a name in a directory. -/
def Happens (x : Course) (i : Nat) (h : Happening) : Prop :=
  ∃ c, x.changes[i]? = some c ∧ h ∈ (x.disk i).happenings (x.disk (i + 1)) c ∧
    h.heardAt = .directory

/-- the disk on which the entry is to be found -/
def witnessed (x : Course) (i : Nat) (h : Happening) : Disk :=
  if h.goes then x.disk i else x.disk (i + 1)

/-- The event is handled after what happened and is of its kind, and its path leads to the entry. -/
structure Names (x : Course) (i : Nat) (h : Happening) (e : Nat × Event) : Prop where
  later : i < e.1
  kind : e.2.kind = h.kind
  path : (x.witnessed i h).entryAt e.2.path = [h.entry]

/-- The event is about what happened: it names the entry, or at least its path ends in the name of the
entry, as when the directory is known by a path that it had before. -/
def Tells (x : Course) (i : Nat) (h : Happening) (e : Nat × Event) : Prop :=
  x.Names i h e ∨ i < e.1 ∧ e.2.kind = h.kind ∧
    ∃ (dir : Path) (n : FileName), e.2.path = dir.join n ∧ h.entry.getLast? = some n

/-- All that happens is told of, except where no path below `top` passes. -/
def Told (x : Course) (top : Path) : Prop :=
  ∀ i h, x.Happens i h →
    (∃ e ∈ x.events, x.Tells i h e) ∨ Scan.OutOfReach (x.witnessed i h) top h.entry

/-- The event is about a name that is not that of an answer, and a plain file is there when it is
handled. -/
def Ignores (x : Course) (e : Nat × Event) : Prop :=
  Watcher.isAnswerPath e.2.path = false ∧ (x.disk e.1).isFile e.2.path = true

/-- What happens is told of, but all events that tell of it are ignored. -/
structure Overlooks (x : Course) (i : Nat) (h : Happening) : Prop where
  happens : x.Happens i h
  kind : h.kind ≠ .modified
  told : ∃ e ∈ x.events, x.Tells i h e
  ignores : ∀ e ∈ x.events, x.Tells i h e → x.Ignores e

/-- A change that makes the routes differ is overlooked at an entry that is not minor, before or after
it: something else than a plain file is there then, or the path of an answer leads to it. -/
def Misses (x : Course) (top : Path) (base : String) : Prop :=
  ∃ i h, x.Overlooks i h ∧
    RouteIndex.build (x.disk i) top base ≠ RouteIndex.build (x.disk (i + 1)) top base ∧
    ∃ d, (d = x.disk i ∨ d = x.disk (i + 1)) ∧ ¬ Scan.Minor d top h.entry ∧
      (¬ d.AtMostFile h.entry ∨ Scan.AnswerLeads d top h.entry)

/-- Some event is forwarded. -/
def Forwards (x : Course) : Prop := ∃ e ∈ x.events, Watcher.forwards (x.disk e.1) e.2 = true

/-! ## One change -/

/-- An event that is not forwarded is ignored, unless contents alone were changed. -/
theorem ignores_of_not_forwards {e : Nat × Event} (hkind : e.2.kind ≠ .modified)
    (hnot : Watcher.forwards (x.disk e.1) e.2 ≠ true) : x.Ignores e := by
  rw [Watcher.forwards, ne_eq, Bool.not_eq_true, Bool.or_eq_false_iff, Bool.and_eq_false_iff] at hnot
  obtain ⟨hname, hfile⟩ := hnot
  refine ⟨hname, ?_⟩
  rcases hfile with hmodified | hfile
  · exact absurd (by simpa using hmodified) hkind
  · simpa using hfile

theorem Tells.kind {e : Nat × Event} (ht : x.Tells i h e) : e.2.kind = h.kind := by
  rcases ht with ht | ht
  · exact ht.kind
  · exact ht.2.1

/-- When nothing is forwarded, all that happens is out of reach or overlooked. -/
theorem overlooks_of_not_forwards (htold : x.Told top) (hnot : ¬ x.Forwards) (hh : x.Happens i h)
    (hkind : h.kind ≠ .modified) :
    Scan.OutOfReach (x.witnessed i h) top h.entry ∨ x.Overlooks i h := by
  refine (htold i h hh).symm.imp_right fun htells => ⟨hh, hkind, htells, fun e he ht => ?_⟩
  refine ignores_of_not_forwards ?_ fun hforward => hnot ⟨e, he, hforward⟩
  rw [ht.kind]
  exact hkind

/-- Where the top is reached from a working directory at or below a minor entry, it is no directory. -/
theorem not_isDirectory_of_minor {d : Disk} {e : RealPath} (hrel : top.isAbsolute = false)
    (hin : Disk.isWithin e d.workingDir = true) (hminor : Scan.Minor d top e) :
    d.isDirectory top = false := by
  by_contra hdir
  rw [Bool.not_eq_false] at hdir
  obtain ⟨⟨q, y⟩, hfind, -⟩ := Except.bind_eq_ok_iff.mp (Disk.isDirectory_iff.mp hdir)
  have hpass : d.Passes top e := by
    refine ⟨(Disk.follow_of_find hfind).1, Disk.length_lt_of_find hfind, .start ?_⟩
    simpa [hrel] using hin
  have hno := hminor.directory [] hpass
  rw [show d.isDirectory (top.below []) = true from hdir] at hno
  cases hno

theorem build_of_not_isDirectory {d : Disk} (h : d.isDirectory top = false) (base : String) :
    RouteIndex.build d top base = .ok .empty := by
  rw [RouteIndex.build, h]
  rfl

/-- A change of which nothing is forwarded makes no difference to the routes, if all that is overlooked is
minor. -/
theorem build_step (hvalid : x.Valid) (htold : x.Told top) (hnot : ¬ x.Forwards)
    (hminor : ∀ h, x.Overlooks i h →
      Scan.Minor (x.disk i) top h.entry ∧ Scan.Minor (x.disk (i + 1)) top h.entry)
    (hc : x.changes[i]? = some c) (base : String) :
    RouteIndex.build (x.disk i) top base = RouteIndex.build (x.disk (i + 1)) top base := by
  obtain ⟨happly, hmodes⟩ := hvalid.step i c hc
  have hsilent : ∀ h, x.Happens i h → h.kind ≠ .modified →
      Scan.OutOfReach (x.witnessed i h) top h.entry ∨
        Scan.Minor (x.disk i) top h.entry ∧ Scan.Minor (x.disk (i + 1)) top h.entry := fun h hh hkind =>
    (overlooks_of_not_forwards htold hnot hh hkind).imp_right (hminor h)
  by_cases hstart : top.isAbsolute = true ∨ (x.disk (i + 1)).workingDir = (x.disk i).workingDir
  · have hsame : Scan.Indistinct (x.disk i) (x.disk (i + 1)) top
        fun e => ∃ h, x.Happens i h ∧ h.kind ≠ .modified ∧ h.entry = e := by
      refine ⟨fun q => ?_, ?_, hstart⟩
      · refine (Disk.similar_or_happens happly hmodes q).imp_right ?_
        rintro ⟨h, hh, ⟨hdir, hkind⟩, hin⟩
        exact ⟨h.entry, ⟨h, ⟨c, hc, hh, hdir⟩, hkind, rfl⟩, hin⟩
      · rintro e ⟨h, hh, hkind, rfl⟩
        rcases hsilent h hh hkind with hout | hboth
        · unfold witnessed at hout
          split at hout
          · exact Or.inl hout
          · exact Or.inr (Or.inl hout)
        · exact Or.inr (Or.inr hboth)
    exact hsame.build_eq base
  · -- the working directory has been moved, and with it all that is reached from it
    simp only [not_or, Bool.not_eq_true] at hstart
    obtain ⟨hrel, hmoved⟩ := hstart
    obtain ⟨old, new, hfrom, hto, hold, hnew⟩ :=
      (Disk.workingDir_or_happens happly).resolve_left hmoved
    have hleft : Scan.Minor (x.disk i) top old := by
      rcases hsilent _ ⟨c, hc, hfrom, rfl⟩ (by simp [Happening.inDirectory]) with hout | hboth
      · exact hout.minor
      · exact hboth.1
    have hright : Scan.Minor (x.disk (i + 1)) top new := by
      rcases hsilent _ ⟨c, hc, hto, rfl⟩ (by simp [Happening.inDirectory]) with hout | hboth
      · exact hout.minor
      · exact hboth.2
    rw [build_of_not_isDirectory (not_isDirectory_of_minor hrel hold hleft),
      build_of_not_isDirectory (not_isDirectory_of_minor hrel hnew hright)]

/-! ## A course of changes -/

/-- If the routes are not the same after a number of changes, one of the changes made them differ. -/
theorem exists_step_of_ne (x : Course) (top : Path) (base : String) (n : Nat)
    (h : RouteIndex.build (x.disk 0) top base ≠ RouteIndex.build (x.disk n) top base) :
    ∃ i < n, RouteIndex.build (x.disk i) top base ≠ RouteIndex.build (x.disk (i + 1)) top base := by
  induction n with
  | zero => exact absurd rfl h
  | succ n ih =>
    by_cases hn : RouteIndex.build (x.disk 0) top base = RouteIndex.build (x.disk n) top base
    · exact ⟨n, Nat.lt_succ_self n, hn ▸ h⟩
    · obtain ⟨i, hi, hne⟩ := ih hn
      exact ⟨i, Nat.lt_succ_of_lt hi, hne⟩

/-- **Changes are noticed.**  In every course of changes that are told of by events, each handled at any
time after its change, if the routes before and after the course are not the same, then some event is
forwarded, unless a change that made them differ is overlooked at an entry that is not minor. -/
theorem forwards_or_misses (hvalid : x.Valid) (htold : x.Told top)
    (hdiff : RouteIndex.build (x.disk 0) top base ≠
      RouteIndex.build (x.disk x.changes.length) top base) :
    x.Forwards ∨ x.Misses top base := by
  obtain ⟨i, hi, hne⟩ := exists_step_of_ne x top base _ hdiff
  by_contra hnone
  rw [not_or] at hnone
  obtain ⟨hnot, hmiss⟩ := hnone
  have hminor : ∀ h d, x.Overlooks i h → d = x.disk i ∨ d = x.disk (i + 1) →
      Scan.Minor d top h.entry := by
    intro h d hh hd
    by_contra hmajor
    refine hmiss ⟨i, h, hh, hne, d, hd, hmajor, ?_⟩
    by_contra hplain
    rw [not_or, not_not] at hplain
    exact hmajor (Scan.minor_of_atMostFile hplain.1 hplain.2)
  refine hne (build_step hvalid htold hnot (fun h hh => ?_) (List.getElem?_eq_getElem hi) base)
  exact ⟨hminor h _ hh (Or.inl rfl), hminor h _ hh (Or.inr rfl)⟩

/-! ## Exact reports -/

/-- Every event names something that happened, by a path below `top`, and all that happens is named so. -/
structure Exact (x : Course) (top : Path) : Prop where
  complete : ∀ i h, x.Happens i h →
    ∃ e ∈ x.events, x.Names i h e ∧ Watcher.isUnder top e.2.path = true
  sound : ∀ e ∈ x.events, ∃ i h, x.Happens i h ∧ x.Names i h e ∧ Watcher.isUnder top e.2.path = true

theorem Exact.told (h : x.Exact top) : x.Told top := fun i h' hh => by
  obtain ⟨e, he, hnames, -⟩ := h.complete i h' hh
  exact Or.inl ⟨e, he, Or.inl hnames⟩

/-- A course of one change, with events that are handled after it. -/
def single (d d' : Disk) (c : Change) (events : List Event) : Course where
  disk i := if i = 0 then d else d'
  changes := [c]
  events := events.map fun e => (1, e)

theorem valid_single {d d' : Disk} (happly : d.apply c = .ok d') (hmodes : c.KeepsModes)
    (events : List Event) : (single d d' c events).Valid := by
  constructor
  · intro i c' hc
    cases i with
    | zero =>
      cases hc
      exact ⟨happly, hmodes⟩
    | succ i => simp [single] at hc
  · intro e he
    obtain ⟨e', -, rfl⟩ := List.mem_map.mp he
    exact Nat.le_refl _

theorem exact_single {d d' : Disk} {e : Event} (hh : d.happenings d' c = [h])
    (hdir : h.heardAt = .directory) (hkind : e.kind = h.kind) (hunder : Watcher.isUnder top e.path = true)
    (hat : (if h.goes then d else d').entryAt e.path = [h.entry]) : (single d d' c [e]).Exact top := by
  have hhappens : ∀ i h', (single d d' c [e]).Happens i h' ↔ i = 0 ∧ h' = h := fun i h' => by
    constructor
    · rintro ⟨c', hc, hmem, -⟩
      cases i with
      | zero =>
        cases hc
        rw [show (single d d' c [e]).disk 0 = d from rfl,
          show (single d d' c [e]).disk (0 + 1) = d' from rfl, hh, List.mem_singleton] at hmem
        exact ⟨rfl, hmem⟩
      | succ i => simp [single] at hc
    · rintro ⟨rfl, rfl⟩
      refine ⟨c, rfl, ?_, hdir⟩
      show h' ∈ d.happenings d' c
      rw [hh]
      exact List.mem_singleton_self _
  have hnames : (single d d' c [e]).Names 0 h (1, e) := ⟨Nat.one_pos, hkind, hat⟩
  constructor
  · intro i h' hh'
    obtain ⟨rfl, rfl⟩ := (hhappens i h').mp hh'
    exact ⟨(1, e), List.mem_singleton_self _, hnames, hunder⟩
  · intro e' he'
    rw [List.mem_singleton.mp he']
    exact ⟨0, h, (hhappens 0 h).mpr ⟨rfl, rfl⟩, hnames, hunder⟩

/-! ## An answer, and one through a link -/

def mockDir : Path := .ofText "mocks"

theorem apply_write {d : Disk} {p : Path} {dir : RealPath} {n : FileName}
    (hstages : p.parent.stages = [mockDir]) (hdir : d.isDirectory mockDir = true)
    (hplace : d.locate true p = .ok (.vacant dir n)) (hwritable : d.isWritable dir = true)
    (bytes : List UInt8) :
    d.apply (.write p bytes) = .ok (d.put (dir ++ [n]) (.file .file bytes)) := by
  have hparent : d.makeDirectories p.parent = .ok d := by
    rw [Disk.makeDirectories, hstages]
    simp [Disk.ensureDirectory, hdir, Bind.bind, Except.bind, pure, Except.pure]
  simp only [Disk.apply, hparent, Except.bind, Disk.writeFile, hplace, Disk.create, hwritable, if_true]

namespace Direct

def bare : Disk := Disk.empty.put [ServerRun.Lost.mocks] (.directory .directory)

def written : Change := .write (.ofText "mocks/a.json") []

def course : Course := single bare ServerRun.Lost.full written [⟨.created, .ofText "mocks/a.json"⟩]

theorem apply_written : bare.apply written = .ok ServerRun.Lost.full := by
  have hstages : (Path.ofText "mocks/a.json").parent.stages = [mockDir] := rfl
  have hdir : bare.isDirectory mockDir = true := rfl
  have hplace : bare.locate true (.ofText "mocks/a.json") =
      .ok (.vacant [ServerRun.Lost.mocks] ServerRun.Lost.answer) := rfl
  have hwritable : bare.isWritable [ServerRun.Lost.mocks] = true := rfl
  exact apply_write hstages hdir hplace hwritable []

theorem exact_course : course.Exact mockDir := by
  have hh : bare.happenings ServerRun.Lost.full written =
      [.inDirectory .created [ServerRun.Lost.mocks, ServerRun.Lost.answer]] := rfl
  have hunder : Watcher.isUnder mockDir (.ofText "mocks/a.json") = true := rfl
  have hat : ServerRun.Lost.full.entryAt (.ofText "mocks/a.json") =
      [[ServerRun.Lost.mocks, ServerRun.Lost.answer]] := rfl
  exact exact_single hh rfl rfl hunder hat

theorem build_bare : RouteIndex.build bare mockDir "" = .ok .empty := by
  have hgives : bare.Gives mockDir [] := ⟨[ServerRun.Lost.mocks], .directory, rfl, rfl, .refl _⟩
  rw [← RouteIndex.ofRoutes_nil]
  exact RouteIndex.build_of_gives hgives .nil (fun n hn => absurd hn List.not_mem_nil) rfl

end Direct

theorem forwards_or_misses_direct :
    Direct.course.Valid ∧ Direct.course.Told mockDir ∧
      RouteIndex.build (Direct.course.disk 0) mockDir "" ≠
        RouteIndex.build (Direct.course.disk Direct.course.changes.length) mockDir "" ∧
      (Direct.course.Forwards ∨ Direct.course.Misses mockDir "") := by
  have hvalid : Direct.course.Valid :=
    valid_single Direct.apply_written (fun p mode => by simp [Direct.written]) _
  have hdiff : RouteIndex.build Direct.bare mockDir "" ≠
      RouteIndex.build ServerRun.Lost.full mockDir "" := by
    have hfull : RouteIndex.build ServerRun.Lost.full mockDir "" = .ok ServerRun.Lost.index :=
      ServerRun.Lost.build_full
    rw [Direct.build_bare, hfull]
    intro h
    injection h with h
    exact ServerRun.Lost.index_ne_empty h.symm
  exact ⟨hvalid, Direct.exact_course.told, hdiff,
    forwards_or_misses hvalid Direct.exact_course.told hdiff⟩

namespace Linked

def notes : FileName := ⟨Utf8.toBytes "notes.md", by decide⟩

/-- a directory in which the name of an answer leads to a file that is not there -/
def dangling : Disk :=
  (Disk.empty.put [ServerRun.Lost.mocks] (.directory .directory)).put
    [ServerRun.Lost.mocks, ServerRun.Lost.answer] (.link (.ofText "notes.md"))

def written : Change := .write (.ofText "mocks/notes.md") []

def filled : Disk := dangling.put [ServerRun.Lost.mocks, notes] (.file .file [])

def course : Course := single dangling filled written [⟨.created, .ofText "mocks/notes.md"⟩]

theorem apply_written : dangling.apply written = .ok filled := by
  have hstages : (Path.ofText "mocks/notes.md").parent.stages = [mockDir] := rfl
  have hdir : dangling.isDirectory mockDir = true := rfl
  have hplace : dangling.locate true (.ofText "mocks/notes.md") =
      .ok (.vacant [ServerRun.Lost.mocks] notes) := rfl
  have hwritable : dangling.isWritable [ServerRun.Lost.mocks] = true := rfl
  exact apply_write hstages hdir hplace hwritable []

theorem exact_course : course.Exact mockDir := by
  have hh : dangling.happenings filled written =
      [.inDirectory .created [ServerRun.Lost.mocks, notes]] := rfl
  have hunder : Watcher.isUnder mockDir (.ofText "mocks/notes.md") = true := rfl
  have hat : filled.entryAt (.ofText "mocks/notes.md") = [[ServerRun.Lost.mocks, notes]] := rfl
  exact exact_single hh rfl rfl hunder hat

theorem build_dangling : RouteIndex.build dangling mockDir "" = .ok .empty := by
  have hdir : dangling.isDirectory mockDir = true := rfl
  have hlist : dangling.list mockDir = .ok [ServerRun.Lost.answer] :=
    Disk.list_of_sorted ⟨[ServerRun.Lost.mocks], .directory, rfl, rfl, .refl _⟩ (List.pairwise_singleton _ _)
  have hstat : dangling.stat (mockDir.join ServerRun.Lost.answer) = .error .noEntry := rfl
  rw [RouteIndex.build_of_isDirectory hdir, Scan.files, hlist]
  simp only [Scan.visit_cons, hstat, Scan.visit_nil, ← RouteIndex.ofRoutes_nil]
  rfl

theorem build_filled : RouteIndex.build filled mockDir "" = .ok ServerRun.Lost.index := by
  have hgives : filled.Gives mockDir [ServerRun.Lost.answer, notes] :=
    ⟨[ServerRun.Lost.mocks], .directory, rfl, rfl, .refl _⟩
  have hstat : ∀ n ∈ [ServerRun.Lost.answer, notes], filled.stat (mockDir.join n) = .ok .file :=
    List.forall_mem_cons.mpr ⟨rfl, List.forall_mem_singleton.mpr rfl⟩
  exact RouteIndex.build_of_gives hgives (by decide) hstat (by decide +kernel)

theorem not_forwards_course : ¬ course.Forwards := by
  rintro ⟨e, he, hforward⟩
  rw [List.mem_singleton.mp he] at hforward
  have hno : Watcher.forwards filled ⟨.created, .ofText "mocks/notes.md"⟩ = false := rfl
  exact absurd hforward (by rw [show course.disk 1 = filled from rfl, hno]; simp)

end Linked

/-- When a plain file is written that a link with the name of an answer leads to, no event is forwarded. -/
theorem not_forwards :
    ¬ ∀ (x : Course) (top : Path) (base : String), x.Valid → x.Exact top →
      RouteIndex.build (x.disk 0) top base ≠ RouteIndex.build (x.disk x.changes.length) top base →
        x.Forwards := by
  intro h
  have hvalid : Linked.course.Valid :=
    valid_single Linked.apply_written (fun p mode => by simp [Linked.written]) _
  have hdiff : RouteIndex.build Linked.dangling mockDir "" ≠
      RouteIndex.build Linked.filled mockDir "" := by
    rw [Linked.build_dangling, Linked.build_filled]
    intro h
    injection h with h
    exact ServerRun.Lost.index_ne_empty h.symm
  exact Linked.not_forwards_course (h Linked.course mockDir "" hvalid Linked.exact_course hdiff)

end Course

end CannedApi
