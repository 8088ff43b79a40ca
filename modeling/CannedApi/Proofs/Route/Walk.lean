import CannedApi.Proofs.Disk.Listing
import CannedApi.Proofs.Disk.PathOrder
import CannedApi.Route.Scan

/-!
# What the walk comes upon

The walk ends at the first directory that it cannot list.  Here it goes on past it (`Scan.sights`), so
that all it can come upon stands in one list: the files with answers and the directories that cannot be
listed.  What stands there is what can be reached from the root (`Scan.mem_look`), in the order of the
paths (`Scan.pairwise_look`), and the walk itself reads this list up to the first directory that cannot
be listed (`Scan.files_eq`).
-/

namespace CannedApi.Scan

/-! ## What can be reached -/

/-- The walk from `root` can come to `dir`, through directories with the names `above`. -/
inductive Visits (d : Disk) (root : Path) : List FileName → Path → Prop
  | root : Visits d root [] root
  | inside {above : List FileName} {dir : Path} {names : List FileName} {n : FileName}
      (outer : Visits d root above dir) (hlist : d.list dir = .ok names) (hn : n ∈ names)
      (hstat : d.stat (dir.join n) = .ok .directory) : Visits d root (above ++ [n]) (dir.join n)

/-- A file that the walk can come to and whose name is text that ends in `.json`. -/
structure Finds (d : Disk) (root : Path) (f : FoundFile) : Prop where
  listed : ∃ dir names, Visits d root f.directories dir ∧ d.list dir = .ok names ∧
    f.name ∈ names ∧ f.path = dir.join f.name
  isFile : d.stat f.path = .ok .file
  named : ∃ name, f.name.text? = some name ∧ Naming.ending <:+ name.toList

/-- A directory that the walk can come to and that cannot be listed. -/
def Fails (d : Disk) (root : Path) (e : ScanError) : Prop :=
  ∃ above, Visits d root above e.directory ∧ d.list e.directory = .error e.cause

theorem isAnswerName_iff {n : FileName} :
    isAnswerName n = true ↔ ∃ name, n.text? = some name ∧ Naming.ending <:+ name.toList := by
  unfold isAnswerName
  cases n.text? with
  | none => simp
  | some name => simp [Text.dropTail?]

/-! ## Sights -/

inductive Sight where
  | answer (f : FoundFile)
  | unlisted (e : ScanError)

namespace Sight

def path : Sight → Path
  | .answer f => f.path
  | .unlisted e => e.directory

/-- there is such a thing to be seen from `root` -/
def Real (d : Disk) (root : Path) : Sight → Prop
  | .answer f => Finds d root f
  | .unlisted e => Fails d root e

/-- the files up to the first directory that cannot be listed -/
def collect : List Sight → Except ScanError (List FoundFile)
  | [] => .ok []
  | .answer f :: rest => (collect rest).map (f :: ·)
  | .unlisted e :: _ => .error e

theorem collect_append (a b : List Sight) :
    collect (a ++ b) = (collect a).bind fun fs => (collect b).map fun gs => fs ++ gs := by
  induction a with
  | nil => cases h : collect b <;> simp [collect, Except.bind, Except.map, h]
  | cons s a ih =>
    cases s with
    | unlisted e => rfl
    | answer f =>
      rw [List.cons_append, collect, collect, ih]
      cases collect a with
      | error e => rfl
      | ok fs => cases collect b <;> rfl

theorem collect_eq_ok_iff {ss : List Sight} {fs : List FoundFile} :
    collect ss = .ok fs ↔ ss = fs.map .answer := by
  induction ss generalizing fs with
  | nil => simp [collect, eq_comm]
  | cons s ss ih =>
    cases s with
    | unlisted e => cases fs <;> simp [collect]
    | answer f =>
      rw [collect, Except.map_eq_ok_iff]
      cases fs with
      | nil => simp
      | cons g gs => simp [ih, and_comm]

/-- The first directory that cannot be listed ends the collecting. -/
theorem collect_eq_error_iff {ss : List Sight} {e : ScanError} :
    collect ss = .error e ↔ ∃ (fs : List FoundFile) (rest : List Sight),
      ss = fs.map .answer ++ .unlisted e :: rest := by
  induction ss with
  | nil => simp [collect]
  | cons s ss ih =>
    cases s with
    | unlisted e' =>
      constructor
      · intro h
        cases h
        exact ⟨[], ss, rfl⟩
      · rintro ⟨fs, rest, h⟩
        cases fs with
        | nil =>
          cases h
          rfl
        | cons f fs => cases h
    | answer f =>
      rw [collect, Except.map_eq_error_iff, ih]
      constructor
      · rintro ⟨fs, rest, rfl⟩
        exact ⟨f :: fs, rest, rfl⟩
      · rintro ⟨fs, rest, h⟩
        cases fs with
        | nil => cases h
        | cons g gs =>
          cases h
          exact ⟨gs, rest, rfl⟩

end Sight

/-- What the walk would come upon in the directory `dir`, which lies `above` the root, if it went on past
directories that cannot be listed. -/
def look (d : Disk) (dir : Path) (above : List FileName) : List Sight :=
  match d.list dir with
  | .error e => [.unlisted ⟨dir, e⟩]
  | .ok names =>
    names.flatMap fun n =>
      match h : d.stat (dir.join n) with
      | .error _ => []
      | .ok .file => if isAnswerName n then [.answer ⟨above, n, dir.join n⟩] else []
      | .ok .directory =>
        have := Disk.length_lt_of_stat h
        have := Path.length_lt_join dir n
        look d (dir.join n) (above ++ [n])
termination_by pathLimit - dir.length

/-- what it would come upon at one name in the directory -/
def glimpse (d : Disk) (dir : Path) (above : List FileName) (n : FileName) : List Sight :=
  match d.stat (dir.join n) with
  | .error _ => []
  | .ok .file => if isAnswerName n then [.answer ⟨above, n, dir.join n⟩] else []
  | .ok .directory => look d (dir.join n) (above ++ [n])

section
variable {d : Disk} {dir root : Path} {above names : List FileName} {n : FileName} {e : OsError}
  {s : Sight}

theorem look_of_error (h : d.list dir = .error e) (above : List FileName) :
    look d dir above = [.unlisted ⟨dir, e⟩] := by
  rw [look, h]

theorem look_of_ok (h : d.list dir = .ok names) (above : List FileName) :
    look d dir above = names.flatMap (glimpse d dir above) := by
  rw [look, h]
  show names.flatMap _ = _
  congr 1
  funext n
  unfold glimpse
  split <;> simp only [*]

theorem glimpse_of_directory (h : d.stat (dir.join n) = .ok .directory) (above : List FileName) :
    glimpse d dir above n = look d (dir.join n) (above ++ [n]) := by
  rw [glimpse, h]

theorem glimpse_of_file (h : d.stat (dir.join n) = .ok .file) (above : List FileName) :
    glimpse d dir above n = if isAnswerName n then [.answer ⟨above, n, dir.join n⟩] else [] := by
  rw [glimpse, h]

/-- Whatever is seen at a name is a file there, or is seen in a directory there. -/
theorem cases_of_mem_glimpse (hs : s ∈ glimpse d dir above n) :
    (d.stat (dir.join n) = .ok .file ∧ isAnswerName n = true ∧ s = .answer ⟨above, n, dir.join n⟩) ∨
      (d.stat (dir.join n) = .ok .directory ∧ s ∈ look d (dir.join n) (above ++ [n])) := by
  unfold glimpse at hs
  split at hs
  · cases hs
  · rename_i hstat
    split at hs
    · rename_i hname
      exact Or.inl ⟨hstat, hname, List.mem_singleton.mp hs⟩
    · cases hs
  · rename_i hstat
    exact Or.inr ⟨hstat, hs⟩

/-! ## The walk reads the sights -/

theorem visit_eq (d : Disk) (dir : Path) (above names : List FileName) :
    visit d dir above names = Sight.collect (names.flatMap (glimpse d dir above)) := by
  induction dir, above, names using visit_induction d with
  | nil dir above => exact visit_nil d dir above
  | refused dir above n rest e hstat ih =>
    rw [visit_cons, hstat, List.flatMap_cons, glimpse, hstat]
    exact ih
  | file dir above n rest hstat ih =>
    rw [visit_cons, hstat, List.flatMap_cons, glimpse_of_file hstat, Sight.collect_append, ← ih]
    cases isAnswerName n <;> rfl
  | unlisted dir above n rest e hstat hlist =>
    rw [visit_cons, hstat, hlist, List.flatMap_cons, glimpse_of_directory hstat, look_of_error hlist]
    rfl
  | listed dir above n rest inner hstat hlist ihinner ih =>
    rw [visit_cons, hstat, hlist, List.flatMap_cons, glimpse_of_directory hstat, look_of_ok hlist,
      Sight.collect_append, ← ihinner, ← ih]

/-- **The walk gives the files that it comes upon before the first directory that cannot be listed, and
fails with that directory if there is one.** -/
theorem files_eq (d : Disk) (root : Path) : files d root = Sight.collect (look d root []) := by
  unfold files
  cases hlist : d.list root with
  | error e =>
    rw [look_of_error hlist]
    rfl
  | ok names =>
    rw [look_of_ok hlist]
    exact visit_eq d root [] names

/-! ## What is seen is what can be reached -/

/-- A fact about directories holds of all if it goes up from the directories in a directory to it: the
length of paths is bounded. -/
theorem directory_induction {motive : Path → List FileName → Prop} (d : Disk)
    (step : ∀ dir above, (∀ n, d.stat (dir.join n) = .ok .directory →
      motive (dir.join n) (above ++ [n])) → motive dir above)
    (dir : Path) (above : List FileName) : motive dir above := by
  refine step dir above fun n h => ?_
  -- what can be looked at has a path below the limit, and a name more makes the path longer
  have := Disk.length_lt_of_stat h
  have := Path.length_lt_join dir n
  exact directory_induction d step (dir.join n) (above ++ [n])
termination_by pathLimit - dir.length

/-- Two walks come upon the same in a directory if they see the same in it, and so on in the directories
that they enter from there; `P` tells which these are. -/
theorem look_congr {d' : Disk} {P : Path → List FileName → Prop}
    (hlist : ∀ dir above, P dir above → d.list dir = d'.list dir)
    (hstat : ∀ dir above n, P dir above → d.stat (dir.join n) = d'.stat (dir.join n))
    (hin : ∀ dir above n, P dir above → d.stat (dir.join n) = .ok .directory →
      P (dir.join n) (above ++ [n]))
    (h : P dir above) : look d dir above = look d' dir above := by
  induction dir, above using directory_induction d with
  | step dir above ih =>
    have hlists := hlist dir above h
    cases hnames : d.list dir with
    | error e => rw [look_of_error hnames, look_of_error (hlists.symm.trans hnames)]
    | ok names =>
      rw [look_of_ok hnames, look_of_ok (hlists.symm.trans hnames)]
      congr 1
      funext n
      unfold glimpse
      rw [← hstat dir above n h]
      split
      · rfl
      · rfl
      · rename_i hdir
        exact ih n hdir (hin dir above n h hdir)

theorem real_of_mem_look (hv : Visits d root above dir) (hs : s ∈ look d dir above) :
    s.Real d root := by
  induction dir, above using directory_induction d with
  | step dir above ih =>
    cases hlist : d.list dir with
    | error e =>
      rw [look_of_error hlist, List.mem_singleton] at hs
      subst hs
      exact ⟨above, hv, hlist⟩
    | ok names =>
      rw [look_of_ok hlist, List.mem_flatMap] at hs
      obtain ⟨n, hn, hs⟩ := hs
      rcases cases_of_mem_glimpse hs with ⟨hstat, hname, rfl⟩ | ⟨hstat, hs⟩
      · exact ⟨⟨dir, names, hv, hlist, hn, rfl⟩, hstat, isAnswerName_iff.mp hname⟩
      · exact ih n hstat (hv.inside hlist hn hstat) hs

theorem look_subset (hv : Visits d root above dir) : look d dir above ⊆ look d root [] := by
  -- along the way from the root: what is seen in a directory is seen in the one that it stands in
  induction hv with
  | root => exact List.Subset.refl _
  | inside outer hlist hn hstat ih =>
    intro s hs
    apply ih
    rw [look_of_ok hlist, List.mem_flatMap]
    refine ⟨_, hn, ?_⟩
    rwa [glimpse_of_directory hstat]

/-- From the root all is seen that can be reached, and nothing else. -/
theorem mem_look : s ∈ look d root [] ↔ s.Real d root := by
  refine ⟨real_of_mem_look .root, fun h => ?_⟩
  cases s with
  | answer f =>
    obtain ⟨⟨dir, names, hv, hlist, hn, hpath⟩, hstat, hname⟩ := h
    obtain ⟨above, n, path⟩ := f
    simp only at hv hn hpath hstat hname
    subst hpath
    apply look_subset hv
    rw [look_of_ok hlist, List.mem_flatMap]
    refine ⟨n, hn, ?_⟩
    rw [glimpse_of_file hstat, if_pos (isAnswerName_iff.mpr hname)]
    exact List.mem_singleton_self _
  | unlisted e =>
    obtain ⟨above, hv, hlist⟩ := h
    apply look_subset hv
    rw [look_of_error hlist]
    exact List.mem_singleton_self _

/-! ## The order of the sights -/

theorem parts_prefix_of_mem_look (hs : s ∈ look d dir above) : dir.parts <+: s.path.parts := by
  induction dir, above using directory_induction d with
  | step dir above ih =>
    cases hlist : d.list dir with
    | error e =>
      rw [look_of_error hlist, List.mem_singleton] at hs
      subst hs
      exact List.prefix_rfl
    | ok names =>
      rw [look_of_ok hlist, List.mem_flatMap] at hs
      obtain ⟨n, -, hs⟩ := hs
      have hjoin : dir.parts <+: (dir.join n).parts := by
        rw [Path.parts_join]
        exact List.prefix_append _ _
      rcases cases_of_mem_glimpse hs with ⟨-, -, rfl⟩ | ⟨hstat, hs⟩
      · exact hjoin
      · exact hjoin.trans (ih n hstat hs)

theorem parts_prefix_of_mem_glimpse (hs : s ∈ glimpse d dir above n) :
    (dir.join n).parts <+: s.path.parts := by
  rcases cases_of_mem_glimpse hs with ⟨-, -, rfl⟩ | ⟨-, hs⟩
  · exact List.prefix_rfl
  · exact parts_prefix_of_mem_look hs

/-- Sights come in the order of their paths. -/
theorem pairwise_look (d : Disk) (dir : Path) (above : List FileName) :
    (look d dir above).Pairwise fun a b => a.path.Before b.path := by
  induction dir, above using directory_induction d with
  | step dir above ih =>
    cases hlist : d.list dir with
    | error e =>
      rw [look_of_error hlist]
      exact List.pairwise_singleton _ _
    | ok names =>
      rw [look_of_ok hlist, List.pairwise_flatMap]
      -- sights at one name are in order by the induction, those at two names because the names are
      refine ⟨fun n _ => ?_, (Disk.pairwise_list hlist).imp fun hmn a ha b hb => ?_⟩
      · unfold glimpse
        split
        · exact .nil
        · split
          · exact List.pairwise_singleton _ _
          · exact .nil
        · rename_i hstat
          exact ih n hstat
      · exact Path.before_of_prefix hmn (parts_prefix_of_mem_glimpse ha)
          (parts_prefix_of_mem_glimpse hb)

/-! ## What the walk gives -/

/-- `e` is, of the directories that cannot be listed, the one whose path comes first. -/
def FailsFirst (d : Disk) (root : Path) (e : ScanError) : Prop :=
  Fails d root e ∧ ∀ e', Fails d root e' → e' = e ∨ e.directory.Before e'.directory

theorem FailsFirst.unique {e e' : ScanError} (h : FailsFirst d root e) (h' : FailsFirst d root e') :
    e = e' := by
  rcases h.2 e' h'.1 with rfl | hbefore
  · rfl
  · rcases h'.2 e h.1 with rfl | hafter
    · rfl
    · exact absurd (hbefore.trans hafter) (Path.Before.irrefl _)

theorem mem_files {fs : List FoundFile} (h : files d root = .ok fs) {f : FoundFile} :
    f ∈ fs ↔ Finds d root f := by
  rw [files_eq, Sight.collect_eq_ok_iff] at h
  have hmem : .answer f ∈ look d root [] ↔ Finds d root f := mem_look
  rw [← hmem, h]
  simp

theorem pairwise_files {fs : List FoundFile} (h : files d root = .ok fs) :
    fs.Pairwise fun a b => a.path.Before b.path := by
  have hpair := pairwise_look d root []
  rw [files_eq, Sight.collect_eq_ok_iff] at h
  rw [h, List.pairwise_map] at hpair
  exact hpair

theorem not_fails_of_files {fs : List FoundFile} (h : files d root = .ok fs) (e : ScanError) :
    ¬ Fails d root e := by
  intro hf
  have hmem := (mem_look (s := .unlisted e)).mpr hf
  rw [files_eq, Sight.collect_eq_ok_iff] at h
  rw [h] at hmem
  simp at hmem

theorem failsFirst_of_files {e : ScanError} (h : files d root = .error e) : FailsFirst d root e := by
  rw [files_eq, Sight.collect_eq_error_iff] at h
  obtain ⟨fs, rest, h⟩ := h
  have hpair := pairwise_look d root []
  rw [h, List.pairwise_append, List.pairwise_cons] at hpair
  -- only files stand before `e`, and all that stands after it has a later path
  obtain ⟨-, ⟨hrest, -⟩, -⟩ := hpair
  refine ⟨(mem_look (s := .unlisted e)).mp ?_, fun e' he' => ?_⟩
  · rw [h]
    exact List.mem_append_right _ List.mem_cons_self
  · have hmem := (mem_look (s := .unlisted e')).mpr he'
    rw [h, List.mem_append, List.mem_cons] at hmem
    rcases hmem with hmem | heq | hmem
    · simp at hmem
    · cases heq
      exact Or.inl rfl
    · exact Or.inr (hrest _ hmem)

/-- **The walk fails exactly if a directory that it can come to cannot be listed, and then names the one
that comes first.** -/
theorem files_eq_error_iff {e : ScanError} : files d root = .error e ↔ FailsFirst d root e := by
  refine ⟨failsFirst_of_files, fun h => ?_⟩
  cases hf : files d root with
  | ok fs => exact absurd h.1 (not_fails_of_files hf e)
  | error e' => rw [(failsFirst_of_files hf).unique h]

theorem exists_files_eq_error_iff :
    (∃ e, files d root = .error e) ↔ ∃ e, Fails d root e := by
  constructor
  · rintro ⟨e, h⟩
    exact ⟨e, (failsFirst_of_files h).1⟩
  · rintro ⟨e, h⟩
    cases hf : files d root with
    | ok fs => exact absurd h (not_fails_of_files hf e)
    | error e' => exact ⟨e', rfl⟩

theorem files_of_reorders {d' : Disk} (h : d.Reorders d') (root : Path) :
    files d' root = files d root := by
  have hlook : look d root [] = look d' root [] :=
    look_congr (P := fun _ _ => True) (fun _ _ _ => by rw [h.list]) (fun _ _ _ _ => by rw [h.stat])
      (fun _ _ _ _ _ => trivial) trivial
  rw [files_eq, files_eq, hlook]

end

end CannedApi.Scan

/-! ## A directory of files -/

namespace CannedApi.RouteIndex

/-- The directory has the named files and nothing else, so each answer among them has its route. -/
theorem build_of_gives {d : Disk} {root : Path} {base : String} {names : List FileName} {routes : List Route}
    (hgives : d.Gives root names) (hsorted : names.Pairwise fun a b => a.le b = true)
    (hstat : ∀ n ∈ names, d.stat (root.join n) = .ok .file)
    (hroutes : ((names.filter Scan.isAnswerName).map fun n => ⟨[], n, root.join n⟩).filterMap
      (Scan.route? (Naming.normalizeBase base)) = routes) :
    build d root base = .ok (.ofRoutes routes) := by
  have hlist := Disk.list_of_sorted hgives hsorted
  rw [build_of_files (Disk.isDirectory_of_list hlist) hlist hstat, hroutes]

end CannedApi.RouteIndex
