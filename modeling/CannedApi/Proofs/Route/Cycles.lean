import CannedApi.Proofs.Disk.Links
import CannedApi.Route.Scan
import Mathlib.Logic.ExistsUnique

/-!
# The walk through cyclic links

That paths have a limit is one reason for the walk to end.  Here it is seen to end for another one: a system that
looks at no path through more than `linkLimit` links, and tells nothing about the disk but what stands there
(`Disk.View`).  However long the paths may get, the walk over such a system comes to an end
(`Disk.View.walk_ends`): a name that leads to a directory makes the real path longer or uses up a link.  The walk
of the program, `Scan.files`, is the one over a system that limits the length of paths too.
-/

namespace CannedApi

/-- what is told of an entry; a link is not told of -/
def Entry.kind? : Entry → Option Disk.Kind
  | .file _ _ => some .file
  | .directory _ => some .directory
  | .link _ => none

namespace Disk

/-- What a system tells about a disk.  Any path may be refused, and one that leads through more than `linkLimit`
links is not looked at; of a path that is not refused there is told what stands there. -/
structure View (d : Disk) where
  stat : Path → Except OsError Kind
  list : Path → Except OsError (List FileName)
  stat_ok : ∀ {p : Path} {kind : Kind}, stat p = .ok kind →
    ∃ k q e, k ≤ linkLimit ∧ d.Resolves p k q ∧ d.get? q = some e ∧ e.kind? = some kind
  list_ok : ∀ {p : Path} {names : List FileName}, list p = .ok names →
    ∃ k q access, d.Resolves p k q ∧ d.get? q = some (.directory access) ∧
      names = (d.childNames q).mergeSort FileName.le

theorem kind_of_stat {d : Disk} {p : Path} {kind : Kind} (h : d.stat p = .ok kind) :
    ∃ k q e, k ≤ linkLimit ∧ d.Resolves p k q ∧ d.get? q = some e ∧ e.kind? = some kind := by
  obtain ⟨⟨q, e⟩, hfind, hkind⟩ := Except.bind_eq_ok_iff.mp h
  obtain ⟨k, hk, hres⟩ := resolves_of_find hfind
  refine ⟨k, q, e, hk, hres, (find_eq_ok_iff.mp hfind).2, ?_⟩
  cases e <;> cases hkind <;> rfl

theorem names_of_list {d : Disk} {p : Path} {names : List FileName} (h : d.list p = .ok names) :
    ∃ k q access, d.Resolves p k q ∧ d.get? q = some (.directory access) ∧
      names = (d.childNames q).mergeSort FileName.le := by
  obtain ⟨⟨q, e⟩, hfind, hnames⟩ := Except.bind_eq_ok_iff.mp h
  obtain ⟨k, -, hres⟩ := resolves_of_find hfind
  have hentry := (find_eq_ok_iff.mp hfind).2
  cases e with
  | file access content => cases hnames
  | link target => cases hnames
  | directory access =>
    refine ⟨k, q, access, hres, hentry, ?_⟩
    dsimp only at hnames
    split at hnames
    · exact (Except.ok.inj hnames).symm
    · cases hnames

/-- the system that also has a limit on the length of paths -/
def view (d : Disk) : d.View := ⟨d.stat, d.list, kind_of_stat, names_of_list⟩

namespace View

variable {d : Disk} (v : d.View)

/-! ## The walk -/

/-- The walk over the named entries of the directory `dir`, which lies `above` the root, ends with a result. -/
inductive Collects : Path → List FileName → List FileName → Except ScanError (List FoundFile) → Prop
  | nil {dir : Path} {above : List FileName} : Collects dir above [] (.ok [])
  | refused {dir : Path} {above rest : List FileName} {n : FileName} {e : OsError}
    {r : Except ScanError (List FoundFile)} (hstat : v.stat (dir.join n) = .error e)
    (more : Collects dir above rest r) : Collects dir above (n :: rest) r
  | file {dir : Path} {above rest : List FileName} {n : FileName} {r : Except ScanError (List FoundFile)}
    (hstat : v.stat (dir.join n) = .ok .file) (more : Collects dir above rest r) :
    Collects dir above (n :: rest)
      (r.map fun fs => if Scan.isAnswerName n then ⟨above, n, dir.join n⟩ :: fs else fs)
  | unlisted {dir : Path} {above rest : List FileName} {n : FileName} {e : OsError}
    (hstat : v.stat (dir.join n) = .ok .directory) (hlist : v.list (dir.join n) = .error e) :
    Collects dir above (n :: rest) (.error ⟨dir.join n, e⟩)
  | failed {dir : Path} {above rest inner : List FileName} {n : FileName} {e : ScanError}
    (hstat : v.stat (dir.join n) = .ok .directory) (hlist : v.list (dir.join n) = .ok inner)
    (below : Collects (dir.join n) (above ++ [n]) inner (.error e)) : Collects dir above (n :: rest) (.error e)
  | directory {dir : Path} {above rest inner : List FileName} {n : FileName} {fs : List FoundFile}
    {r : Except ScanError (List FoundFile)} (hstat : v.stat (dir.join n) = .ok .directory)
    (hlist : v.list (dir.join n) = .ok inner) (below : Collects (dir.join n) (above ++ [n]) inner (.ok fs))
    (more : Collects dir above rest r) : Collects dir above (n :: rest) (r.map (fs ++ ·))

/-- The walk from `root` ends with a result. -/
inductive Walks (root : Path) : Except ScanError (List FoundFile) → Prop
  | unlisted {e : OsError} (hlist : v.list root = .error e) : Walks root (.error ⟨root, e⟩)
  | listed {names : List FileName} {r : Except ScanError (List FoundFile)} (hlist : v.list root = .ok names)
    (h : v.Collects root [] names r) : Walks root r

/-- The index of the answers below `root` is built, or building it fails. -/
inductive Builds (root : Path) (base : String) : Except ScanError RouteIndex → Prop
  | walked {r : Except ScanError (List FoundFile)} (hroot : v.stat root = .ok .directory) (h : v.Walks root r) :
    Builds root base (r.map fun fs => .ofRoutes (fs.filterMap (Scan.route? (Naming.normalizeBase base))))
  | missing (hroot : v.stat root ≠ .ok .directory) : Builds root base (.ok .empty)

/-- The walk from `root` may come to the directory `dir`, through directories with the names `above`. -/
inductive Enters (root : Path) : List FileName → Path → Prop
  | root : Enters root [] root
  | inside {above : List FileName} {dir : Path} {names : List FileName} {n : FileName} (outer : Enters root above dir)
    (hlist : v.list dir = .ok names) (hn : n ∈ names) (hstat : v.stat (dir.join n) = .ok .directory) :
    Enters root (above ++ [n]) (dir.join n)

variable {v} {dir root : Path} {above names rest : List FileName} {n : FileName} {k : Nat} {q : RealPath}
  {r r' : Except ScanError (List FoundFile)}

/-- What the system says about a name decides how the walk goes on. -/
theorem Collects.unique (h : v.Collects dir above names r) (h' : v.Collects dir above names r') : r = r' := by
  induction h generalizing r' with
  | nil =>
    cases h'
    rfl
  -- the branches exclude each other by what the system says of the first name
  | _ => cases h' <;> grind

theorem Walks.unique (h : v.Walks root r) (h' : v.Walks root r') : r = r' := by
  cases h with
  | unlisted hlist =>
    cases h' with
    | unlisted hlist' => rw [Except.error.inj (hlist.symm.trans hlist')]
    | listed hlist' _ => cases hlist.symm.trans hlist'
  | listed hlist h =>
    cases h' with
    | unlisted hlist' => cases hlist.symm.trans hlist'
    | listed hlist' h' =>
      obtain rfl := Except.ok.inj (hlist.symm.trans hlist')
      exact h.unique h'

theorem Builds.unique {base : String} {i i' : Except ScanError RouteIndex} (h : v.Builds root base i)
    (h' : v.Builds root base i') : i = i' := by
  cases h with
  | walked hroot h =>
    cases h' with
    | walked _ h' => rw [h.unique h']
    | missing hroot' => exact absurd hroot hroot'
  | missing hroot =>
    cases h' with
    | walked hroot' _ => exact absurd hroot' hroot
    | missing _ => rfl

/-! ## The walk ends -/

/-- An entered directory is deeper on the disk, or the way to it leads through more links. -/
theorem deeper_or_more_links (h : d.Resolves dir k q) (hstat : v.stat (dir.join n) = .ok .directory) :
    ∃ k' q', k' ≤ linkLimit ∧ q'.length ≤ d.depth ∧ d.Resolves (dir.join n) k' q' ∧
      (k' = k ∧ q'.length = q.length + 1 ∨ k < k') := by
  obtain ⟨k', q', e, hk', hres', hentry, -⟩ := v.stat_ok hstat
  refine ⟨k', q', hk', length_le_depth hentry, hres', ?_⟩
  rcases h.join hres' with ⟨rfl, rfl⟩ | hlt
  · exact .inl ⟨rfl, by rw [List.length_append, List.length_singleton]⟩
  · exact .inr hlt

/-- A fact about directories holds of one that can be resolved if it goes up from the directories in a directory to
it. -/
theorem directory_induction (v : d.View) {motive : Path → Prop}
    (step : ∀ dir, (∀ n, v.stat (dir.join n) = .ok .directory → motive (dir.join n)) → motive dir)
    (dir : Path) (k : Nat) (q : RealPath) (h : d.Resolves dir k q) : motive dir := by
  refine step dir fun n hstat => ?_
  obtain ⟨k', q', hk', hdepth, hres', hdeeper⟩ := deeper_or_more_links h hstat
  exact directory_induction v step (dir.join n) k' q' hres'
termination_by (linkLimit - k, d.depth - q.length)
decreasing_by
  -- a link that was followed leaves fewer of them; without one there is less of the disk below
  rcases hdeeper with ⟨rfl, hlength⟩ | hlt
  · exact Prod.Lex.right _ (by omega)
  · exact Prod.Lex.left _ _ (by omega)

theorem exists_collects (h : d.Resolves dir k q) (above names : List FileName) :
    ∃ r, v.Collects dir above names r := by
  refine directory_induction v (motive := fun dir => ∀ above names, ∃ r, v.Collects dir above names r)
    (fun dir ih above names => ?_) dir k q h above names
  induction names with
  | nil => exact ⟨_, .nil⟩
  | cons n rest ihrest =>
    obtain ⟨r, hr⟩ := ihrest
    cases hstat : v.stat (dir.join n) with
    | error e => exact ⟨_, .refused hstat hr⟩
    | ok kind =>
      cases kind with
      | file => exact ⟨_, .file hstat hr⟩
      | directory =>
        cases hlist : v.list (dir.join n) with
        | error e => exact ⟨_, .unlisted hstat hlist⟩
        | ok inner =>
          obtain ⟨below, hbelow⟩ := ih n hstat (above ++ [n]) inner
          cases below with
          | error e => exact ⟨_, .failed hstat hlist hbelow⟩
          | ok fs => exact ⟨_, .directory hstat hlist hbelow hr⟩

theorem exists_walks (v : d.View) (root : Path) : ∃ r, v.Walks root r := by
  cases hlist : v.list root with
  | error e => exact ⟨_, .unlisted hlist⟩
  | ok names =>
    obtain ⟨k, q, access, hres, -, -⟩ := v.list_ok hlist
    obtain ⟨r, hr⟩ := exists_collects (v := v) hres [] names
    exact ⟨r, .listed hlist hr⟩

theorem exists_builds (v : d.View) (root : Path) (base : String) : ∃ i, v.Builds root base i := by
  by_cases hroot : v.stat root = .ok .directory
  · obtain ⟨r, hr⟩ := v.exists_walks root
    exact ⟨_, .walked hroot hr⟩
  · exact ⟨_, .missing hroot⟩

/-! ## How far it goes down -/

/-- Each link on the way allows for going down all of the disk once more. -/
theorem Enters.length_le (h : v.Enters root above dir) (hres : d.Resolves dir k q) :
    above.length ≤ k * (d.depth + 1) + q.length := by
  induction h generalizing k q with
  | root => exact Nat.zero_le _
  | inside outer hlist hn hstat ih =>
    obtain ⟨k₀, q₀, access, hres₀, hdir, -⟩ := v.list_ok hlist
    have hdepth := length_le_depth hdir
    have hle := ih hres₀
    rw [List.length_append, List.length_singleton]
    rcases hres₀.join hres with ⟨rfl, rfl⟩ | hlt
    · rw [List.length_append, List.length_singleton]
      omega
    · have : (k₀ + 1) * (d.depth + 1) ≤ k * (d.depth + 1) := Nat.mul_le_mul_right _ hlt
      rw [Nat.succ_mul] at this
      omega

theorem Enters.resolves (h : v.Enters root above dir) (habove : above ≠ []) :
    ∃ k q, k ≤ linkLimit ∧ d.Resolves dir k q ∧ above.length ≤ linkLimit * (d.depth + 1) + d.depth := by
  have hlength := fun k q => h.length_le (k := k) (q := q)
  cases h with
  | root => exact absurd rfl habove
  | inside outer hlist hn hstat =>
    obtain ⟨k, q, e, hk, hres, hentry, -⟩ := v.stat_ok hstat
    have hdepth := length_le_depth hentry
    have : k * (d.depth + 1) ≤ linkLimit * (d.depth + 1) := Nat.mul_le_mul_right _ hk
    have := hlength k q hres
    exact ⟨k, q, hk, hres, by omega⟩

/-! ## What is refused -/

theorem refuses (v : d.View) {p : Path} (h : d.Resolves p k q) (hk : linkLimit < k) : ∃ e, v.stat p = .error e := by
  cases hstat : v.stat p with
  | error e => exact ⟨e, rfl⟩
  | ok kind =>
    obtain ⟨k', q', e, hk', hres', -, -⟩ := v.stat_ok hstat
    obtain ⟨rfl, -⟩ := h.unique hres'
    exact absurd hk' (Nat.not_le_of_lt hk)

/-- A name that is refused makes no difference. -/
theorem collects_cons_of_refused {e : OsError} (hstat : v.stat (dir.join n) = .error e) :
    v.Collects dir above (n :: rest) r ↔ v.Collects dir above rest r := by
  refine ⟨fun h => ?_, .refused hstat⟩
  cases h with
  | refused _ more => exact more
  | file hstat' _ => cases hstat.symm.trans hstat'
  | unlisted hstat' _ => cases hstat.symm.trans hstat'
  | failed hstat' _ _ => cases hstat.symm.trans hstat'
  | directory hstat' _ _ _ => cases hstat.symm.trans hstat'

theorem Collects.cons_of_imp {rest' : List FileName}
    (himp : ∀ r, v.Collects dir above rest r → v.Collects dir above rest' r)
    (h : v.Collects dir above (n :: rest) r) : v.Collects dir above (n :: rest') r := by
  cases h with
  | refused hstat more => exact .refused hstat (himp _ more)
  | file hstat more => exact .file hstat (himp _ more)
  | unlisted hstat hlist => exact .unlisted hstat hlist
  | failed hstat hlist below => exact .failed hstat hlist below
  | directory hstat hlist below more => exact .directory hstat hlist below (himp _ more)

/-- The walk is the same without all names that are refused. -/
theorem collects_filter (v : d.View) (dir : Path) (above names : List FileName)
    (r : Except ScanError (List FoundFile)) :
    v.Collects dir above (names.filter fun n => (v.stat (dir.join n)).isOk) r ↔ v.Collects dir above names r := by
  induction names generalizing r with
  | nil => exact Iff.rfl
  | cons n rest ih =>
    cases hstat : v.stat (dir.join n) with
    | error e =>
      rw [List.filter_cons_of_neg (by simp [hstat, Except.isOk, Except.toBool]), ih, collects_cons_of_refused hstat]
    | ok kind =>
      rw [List.filter_cons_of_pos (by simp [hstat, Except.isOk, Except.toBool])]
      exact ⟨.cons_of_imp fun r => (ih r).mp, .cons_of_imp fun r => (ih r).mpr⟩

/-- What the walk fails at is a directory that it has come to, that is there and that is not listed. -/
theorem Collects.fails {all : List FileName} {e : ScanError} (h : v.Collects dir above names r) (hr : r = .error e)
    (henters : v.Enters root above dir) (hlist : v.list dir = .ok all) (hsub : names ⊆ all) :
    ∃ above', v.Enters root above' e.directory ∧ v.stat e.directory = .ok .directory ∧
      v.list e.directory = .error e.cause := by
  induction h generalizing all with
  | nil => cases hr
  | refused _ _ ih => exact ih hr henters hlist (List.subset_of_cons_subset hsub)
  | file _ _ ih => exact ih (Except.map_eq_error_iff.mp hr) henters hlist (List.subset_of_cons_subset hsub)
  | unlisted hstat hfailed =>
    cases hr
    exact ⟨_, henters.inside hlist (hsub List.mem_cons_self) hstat, hstat, hfailed⟩
  | failed hstat hinner _ ih =>
    exact ih hr (henters.inside hlist (hsub List.mem_cons_self) hstat) hinner (List.Subset.refl _)
  | directory _ _ _ _ _ ih =>
    exact ih (Except.map_eq_error_iff.mp hr) henters hlist (List.subset_of_cons_subset hsub)

theorem Builds.fails {base : String} {e : ScanError} (h : v.Builds root base (.error e)) :
    ∃ above, v.Enters root above e.directory ∧ v.stat e.directory = .ok .directory ∧
      v.list e.directory = .error e.cause := by
  generalize hi : Except.error e = i at h
  cases h with
  | missing _ => cases hi
  | walked hroot h =>
    cases h with
    | unlisted hlist =>
      cases hi
      exact ⟨[], .root, hroot, hlist⟩
    | listed hlist h => exact h.fails (Except.map_eq_error_iff.mp hi.symm) .root hlist (List.Subset.refl _)

/-! ## The walk of the program -/

theorem collects_visit (d : Disk) (dir : Path) (above names : List FileName) :
    d.view.Collects dir above names (Scan.visit d dir above names) := by
  induction dir, above, names using Scan.visit_induction d with
  | nil dir above =>
    rw [Scan.visit_nil]
    exact .nil
  | refused dir above n rest e hstat ih =>
    rw [Scan.visit_cons, hstat]
    exact .refused hstat ih
  | file dir above n rest hstat ih =>
    rw [Scan.visit_cons, hstat]
    exact .file hstat ih
  | unlisted dir above n rest e hstat hlist =>
    rw [Scan.visit_cons, hstat, hlist]
    exact .unlisted hstat hlist
  | listed dir above n rest inner hstat hlist ihinner ih =>
    rw [Scan.visit_cons, hstat, hlist]
    dsimp only
    generalize Scan.visit d (dir.join n) (above ++ [n]) inner = below at ihinner ⊢
    cases below with
    | error e => exact .failed hstat hlist ihinner
    | ok fs => exact .directory hstat hlist ihinner ih

theorem walks_files (d : Disk) (root : Path) : d.view.Walks root (Scan.files d root) := by
  unfold Scan.files
  cases hlist : d.list root with
  | error e => exact .unlisted hlist
  | ok names => exact .listed hlist (collects_visit d root [] names)

theorem builds_build (d : Disk) (root : Path) (base : String) :
    d.view.Builds root base (RouteIndex.build d root base) := by
  by_cases hroot : d.isDirectory root
  · rw [RouteIndex.build_of_isDirectory hroot]
    refine .walked ?_ (walks_files d root)
    unfold isDirectory at hroot
    split at hroot
    · assumption
    · cases hroot
  · rw [RouteIndex.build, if_neg hroot]
    refine .missing fun hstat => hroot ?_
    have : d.stat root = .ok .directory := hstat
    rw [isDirectory, this]

/-- **The walk ends on cyclic links.**  Over any system that follows no more than `linkLimit` links for a path, a walk
has exactly one result, and so has the index that is built from it.  It goes down only along paths that lead through
no more links, and not more often than `linkLimit` times, and once more, all the depth of the disk.  What is refused
it leaves out, and building the index fails only at directories that are not refused.  The walk of the program and
the index that it builds are those over the system that limits the length of paths too. -/
theorem walk_ends (d : Disk) (v : d.View) (root : Path) (base : String) :
    (∃! r, v.Walks root r) ∧ (∃! i, v.Builds root base i) ∧
      (∀ above dir, v.Enters root above dir → above ≠ [] →
        ∃ k q, k ≤ linkLimit ∧ d.Resolves dir k q ∧ above.length ≤ linkLimit * (d.depth + 1) + d.depth) ∧
      (∀ p k q, d.Resolves p k q → linkLimit < k → ∃ e, v.stat p = .error e) ∧
      (∀ dir above names r,
        v.Collects dir above (names.filter fun n => (v.stat (dir.join n)).isOk) r ↔ v.Collects dir above names r) ∧
      (∀ e, v.Builds root base (.error e) →
        ∃ above, v.Enters root above e.directory ∧ v.stat e.directory = .ok .directory ∧
          v.list e.directory = .error e.cause) ∧
      d.view.Walks root (Scan.files d root) ∧ d.view.Builds root base (RouteIndex.build d root base) := by
  obtain ⟨r, hr⟩ := v.exists_walks root
  obtain ⟨i, hi⟩ := v.exists_builds root base
  exact ⟨⟨r, hr, fun _ h => h.unique hr⟩, ⟨i, hi, fun _ h => h.unique hi⟩, fun _ _ h => h.resolves,
    fun _ _ _ h => v.refuses h, v.collects_filter, fun _ h => h.fails, walks_files d root, builds_build d root base⟩

end View

end Disk

end CannedApi
