import CannedApi.Proofs.Route.Ranking
import CannedApi.Proofs.Route.Walk

/-!
# From a directory to its index, nothing lost

Building an index fails exactly where the walk does, and otherwise each file that the walk finds has its
one route (`RouteIndex.build_complete`): every such file has a name of which a route can be made, files
come in the order of their paths, and ranking keeps that order where it does not tell routes apart.
-/

namespace CannedApi

/-! ## Routes of found files -/

namespace Scan

variable {d : Disk} {root : Path} {base : String} {f : FoundFile} {r : Route}

theorem file_of_route? (h : route? base f = some r) : r.file = f.path := by
  unfold route? at h
  cases hn : f.name.text? with
  | none =>
    rw [hn] at h
    cases h
  | some name =>
    rw [hn] at h
    obtain ⟨p, -, rfl⟩ := Option.map_eq_some_iff.mp h
    rfl

/-- A file is not dropped once the walk has found it. -/
theorem Finds.exists_route? (h : Finds d root f) (base : String) : ∃ r, route? base f = some r := by
  obtain ⟨name, hname, stem, hstem⟩ := h.named
  unfold route?
  rw [hname]
  show ∃ r, Option.map _ (Naming.splitMethod name) = some r
  rw [Naming.splitMethod_of_ending hstem.symm]
  exact ⟨_, rfl⟩

theorem pairwise_routes {fs : List FoundFile} (h : files d root = .ok fs) (base : String) :
    (fs.filterMap (route? base)).Pairwise fun a b => a.file.Before b.file := by
  refine List.Pairwise.filterMap _ (fun f g hfg a ha b hb => ?_) (pairwise_files h)
  rw [file_of_route? ha, file_of_route? hb]
  exact hfg

end Scan

/-! ## Ranking -/

/-- Ranking keeps the order of routes that it does not tell apart. -/
theorem Route.pairwise_mergeSort {R : Route → Route → Prop} {routes : List Route}
    (h : routes.Pairwise R) :
    (routes.mergeSort ranksBefore).Pairwise fun a b =>
      a.pattern.length = b.pattern.length → a.hasParams = b.hasParams → R a b := by
  -- two routes that stand in this order among all that rank alike stood so before the ranking
  rw [List.pairwise_iff_forall_sublist] at h ⊢
  intro a b hsub hlength hparams
  let alike (r : Route) : Bool := r.pattern.length == a.pattern.length && r.hasParams == a.hasParams
  have halike : [a, b].filter alike = [a, b] := by simp [alike, hlength, hparams]
  have hsub := hsub.filter alike
  rw [halike, filter_mergeSort] at hsub
  · exact h (hsub.trans List.filter_sublist)
  · intro r _ q _ hr hq
    simp only [alike, Bool.and_eq_true, beq_iff_eq] at hr hq
    rw [ranksBefore, hr.1, hr.2, hq.1, hq.2]
    cases a.hasParams <;> simp

/-! ## The index -/

namespace RouteIndex

variable {d : Disk} {root : Path} {base : String} {index : RouteIndex}

/-- The routes of the index are those of the files that can be found below `root`: one for each file, none
besides, and in the order of the files where ranking does not tell them apart. -/
structure IsOf (index : RouteIndex) (d : Disk) (root : Path) (base : String) : Prop where
  routed : ∀ f, Scan.Finds d root f → ∃ r ∈ index.routes,
    Scan.route? (Naming.normalizeBase base) f = some r ∧
      ∀ q ∈ index.routes, q.file.parts = f.path.parts → q = r
  found : ∀ r ∈ index.routes, ∃ f, Scan.Finds d root f ∧
    Scan.route? (Naming.normalizeBase base) f = some r
  distinct : (index.routes.map fun r => r.file.parts).Nodup
  ordered : index.routes.Pairwise fun a b =>
    a.pattern.length = b.pattern.length → a.hasParams = b.hasParams → a.file.Before b.file

theorem build_eq_error_iff (hroot : d.isDirectory root = true) {e : ScanError} :
    build d root base = .error e ↔ Scan.files d root = .error e := by
  rw [build_of_isDirectory hroot, Except.map_eq_error_iff]

theorem isOf_ofRoutes {fs : List FoundFile} (h : Scan.files d root = .ok fs) (base : String) :
    (ofRoutes (fs.filterMap (Scan.route? (Naming.normalizeBase base)))).IsOf d root base := by
  have hperm : (ofRoutes (fs.filterMap (Scan.route? (Naming.normalizeBase base)))).routes.Perm
      (fs.filterMap (Scan.route? (Naming.normalizeBase base))) := List.mergeSort_perm _ _
  have hordered := Scan.pairwise_routes h (Naming.normalizeBase base)
  have hdistinct := (hperm.map fun r => r.file.parts).nodup_iff.mpr
    (List.pairwise_map.mpr (hordered.imp Path.Before.parts_ne))
  refine ⟨fun f hf => ?_, fun r hr => ?_, hdistinct, Route.pairwise_mergeSort hordered⟩
  · -- no other route has this file, since no two routes have files with the same parts
    obtain ⟨r, hr⟩ := hf.exists_route? (Naming.normalizeBase base)
    have hmem := hperm.mem_iff.mpr (List.mem_filterMap.mpr ⟨f, (Scan.mem_files h).mpr hf, hr⟩)
    refine ⟨r, hmem, hr, fun q hq hparts => ?_⟩
    rw [← Scan.file_of_route? hr] at hparts
    exact List.inj_on_of_nodup_map hdistinct hq hmem hparts
  · obtain ⟨f, hf, hr⟩ := List.mem_filterMap.mp (hperm.mem_iff.mp hr)
    exact ⟨f, (Scan.mem_files h).mp hf, hr⟩

theorem isOf_of_build (hroot : d.isDirectory root = true) (h : build d root base = .ok index) :
    index.IsOf d root base := by
  rw [build_of_isDirectory hroot] at h
  obtain ⟨fs, hf, rfl⟩ := Except.map_eq_ok_iff.mp h
  exact isOf_ofRoutes hf base

theorem build_of_reorders {d' : Disk} (h : d.Reorders d') (root : Path) (base : String) :
    build d' root base = build d root base := by
  unfold build
  rw [← h.isDirectory, Scan.files_of_reorders h]

/-- **From a directory to its index, nothing is lost.**  Building fails exactly if some directory that can
be reached from the root cannot be listed, and names the first of them in the order of the paths.  Else
every file that can be reached and is named as text that ends in `.json` has its one route.  The order in
which the system gives entries changes nothing: neither that of all entries nor that of one listing. -/
theorem build_complete (hroot : d.isDirectory root = true) (base : String) :
    ((∃ e, build d root base = .error e) ↔ ∃ e, Scan.Fails d root e) ∧
      (∀ e, build d root base = .error e ↔ Scan.FailsFirst d root e) ∧
      (∀ index, build d root base = .ok index → index.IsOf d root base) ∧
      (∀ d' : Disk, d.Reorders d' → build d' root base = build d root base) ∧
      ∀ dir names, d.Gives dir names → d.list dir = .ok (names.mergeSort FileName.le) := by
  refine ⟨?_, fun e => ?_, fun index h => isOf_of_build hroot h, fun d' h => build_of_reorders h root base,
    fun dir names h => Disk.list_of_gives h⟩
  · simp only [build_eq_error_iff hroot]
    exact Scan.exists_files_eq_error_iff
  · rw [build_eq_error_iff hroot]
    exact Scan.files_eq_error_iff

/-! ## A directory with a link into it -/

namespace Nested

theorem mocks_legal : IsFileName (Utf8.toBytes "mocks") := by decide
theorem answer_legal : IsFileName (Utf8.toBytes "a.json") := by decide

def mocks : FileName := ⟨_, mocks_legal⟩
def answer : FileName := ⟨_, answer_legal⟩
def link : FileName := ⟨Utf8.toBytes "l", by decide⟩
def notes : FileName := ⟨Utf8.toBytes "n.txt", by decide⟩
def inner : FileName := ⟨Utf8.toBytes "s", by decide⟩
def posted : FileName := ⟨Utf8.toBytes "b.post.json", by decide⟩

/-- an answer, some notes and a directory with one more answer, to which there is a link -/
def disk (access : Access) : Disk :=
  (((((Disk.empty.put [mocks] (.directory .directory)).put [mocks, inner] (.directory access)).put
    [mocks, link] (.link (.ofText "s"))).put [mocks, notes] (.file .file [])).put
    [mocks, inner, posted] (.file .file [])).put [mocks, answer] (.file .file [])

def readable : Disk := disk .directory
def closed : Disk := disk ⟨false, true, true⟩

def mockDir : Path := .ofText "mocks"

theorem files_readable : Scan.files readable mockDir =
    .ok [⟨[], answer, .ofText "mocks/a.json"⟩, ⟨[link], posted, .ofText "mocks/l/b.post.json"⟩,
      ⟨[inner], posted, .ofText "mocks/s/b.post.json"⟩] := by
  have hlist : readable.list mockDir = .ok [answer, link, notes, inner] :=
    Disk.list_of_sorted ⟨[mocks], .directory, rfl, rfl, by decide⟩ (by decide)
  have hlink : readable.list (mockDir.join link) = .ok [posted] :=
    Disk.list_of_sorted ⟨[mocks, inner], .directory, rfl, rfl, .refl _⟩ (List.pairwise_singleton _ _)
  have hinner : readable.list (mockDir.join inner) = .ok [posted] :=
    Disk.list_of_sorted ⟨[mocks, inner], .directory, rfl, rfl, .refl _⟩ (List.pairwise_singleton _ _)
  have hstat : readable.stat (mockDir.join answer) = .ok .file := rfl
  have hstat' : readable.stat (mockDir.join notes) = .ok .file := rfl
  have hdir : readable.stat (mockDir.join link) = .ok .directory := rfl
  have hdir' : readable.stat (mockDir.join inner) = .ok .directory := rfl
  have hposted : readable.stat ((mockDir.join link).join posted) = .ok .file := rfl
  have hposted' : readable.stat ((mockDir.join inner).join posted) = .ok .file := rfl
  have hname : Scan.isAnswerName answer = true := rfl
  have hname' : Scan.isAnswerName posted = true := rfl
  have hother : Scan.isAnswerName notes = false := rfl
  rw [Scan.files_eq, Scan.look_of_ok hlist]
  simp only [List.flatMap_cons, List.flatMap_nil, Scan.glimpse_of_file hstat,
    Scan.glimpse_of_file hstat', Scan.glimpse_of_directory hdir, Scan.glimpse_of_directory hdir',
    Scan.look_of_ok hlink, Scan.look_of_ok hinner, Scan.glimpse_of_file hposted,
    Scan.glimpse_of_file hposted', hname, hname', hother]
  rfl

/-- The link comes before the directory that it leads to. -/
theorem files_closed : Scan.files closed mockDir =
    .error ⟨.ofText "mocks/l", .permissionDenied⟩ := by
  have hlist : closed.list mockDir = .ok [answer, link, notes, inner] :=
    Disk.list_of_sorted ⟨[mocks], .directory, rfl, rfl, by decide⟩ (by decide)
  have hlink : closed.list (mockDir.join link) = .error .permissionDenied := rfl
  have hstat : closed.stat (mockDir.join answer) = .ok .file := rfl
  have hdir : closed.stat (mockDir.join link) = .ok .directory := rfl
  have hname : Scan.isAnswerName answer = true := rfl
  have hpath : mockDir.join link = .ofText "mocks/l" := rfl
  rw [Scan.files_eq, Scan.look_of_ok hlist, ← hpath]
  simp only [List.flatMap_cons, Scan.glimpse_of_file hstat, Scan.glimpse_of_directory hdir,
    Scan.look_of_error hlink, hname, if_true]
  rfl

end Nested

/-- A file that is reached on two ways has a route on each; where both ways are closed, the link is the
first that cannot be listed. -/
theorem build_complete_nested :
    (∃ index, build Nested.readable Nested.mockDir "/api" = .ok index ∧ index.routes.length = 3 ∧
      index.IsOf Nested.readable Nested.mockDir "/api") ∧
    Scan.FailsFirst Nested.closed Nested.mockDir ⟨.ofText "mocks/l", .permissionDenied⟩ := by
  have hreadable : Nested.readable.isDirectory Nested.mockDir = true := rfl
  have hclosed : Nested.closed.isDirectory Nested.mockDir = true := rfl
  constructor
  · have hbuild := build_of_isDirectory hreadable "/api"
    rw [Nested.files_readable] at hbuild
    refine ⟨_, hbuild, ?_, (build_complete hreadable "/api").2.2.1 _ hbuild⟩
    show (List.mergeSort _ Route.ranksBefore).length = 3
    rw [List.length_mergeSort]
    rfl
  · refine ((build_complete hclosed "").2.1 _).mp ?_
    rw [build_of_isDirectory hclosed, Nested.files_closed]
    rfl

end RouteIndex

end CannedApi
