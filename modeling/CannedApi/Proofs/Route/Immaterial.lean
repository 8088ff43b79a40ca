import CannedApi.Proofs.Disk.Passing
import CannedApi.Proofs.Route.Walk
import Mathlib.Data.List.Induction

/-!
# What makes no difference to the routes

An entry is minor if no path that passes it leads to a directory, or under the name of an answer to a file.
Two disks that look the same, except at entries that are minor on both or out of reach, have the same
routes (`Scan.Indistinct.build_eq`).
-/

namespace CannedApi

theorem Path.isAbsolute_below (p : Path) (names : List FileName) :
    (p.below names).isAbsolute = p.isAbsolute := by
  induction names using List.reverseRecOn with
  | nil => rfl
  | append_singleton names n ih => rw [Path.below_concat, Path.isAbsolute_join, ih]

theorem Disk.isDirectory_iff {d : Disk} {p : Path} :
    d.isDirectory p = true ↔ d.stat p = .ok .directory := by
  unfold Disk.isDirectory
  split <;> simp_all

theorem Disk.isFile_iff {d : Disk} {p : Path} : d.isFile p = true ↔ d.stat p = .ok .file := by
  unfold Disk.isFile
  split <;> simp_all

namespace Scan

variable {d d' : Disk} {top dir : Path} {above names names' : List FileName} {n : FileName}
  {E : RealPath → Prop}

/-- No path below `top` passes the entry. -/
def OutOfReach (d : Disk) (top : Path) (e : RealPath) : Prop :=
  ∀ names, ¬ d.Passes (top.below names) e

/-- No path below `top` that passes the entry leads to a directory, or has the name of an answer and
leads to a file. -/
structure Minor (d : Disk) (top : Path) (e : RealPath) : Prop where
  directory : ∀ names, d.Passes (top.below names) e → d.isDirectory (top.below names) = false
  answer : ∀ names n, isAnswerName n = true → d.Passes ((top.below names).join n) e →
    d.isFile ((top.below names).join n) = false

theorem OutOfReach.minor {e : RealPath} (h : OutOfReach d top e) : Minor d top e := by
  refine ⟨fun names hpass => absurd hpass (h names), fun names n _ hpass => ?_⟩
  rw [← Path.below_concat] at hpass
  exact absurd hpass (h _)

/-- A path below `top` with the name of an answer leads to the entry. -/
def AnswerLeads (d : Disk) (top : Path) (e : RealPath) : Prop :=
  ∃ names n, isAnswerName n = true ∧ d.realPath ((top.below names).join n) = .ok e

/-- A plain file is minor, if no path with the name of an answer leads to it. -/
theorem minor_of_atMostFile {e : RealPath} (h : d.AtMostFile e) (hname : ¬ AnswerLeads d top e) :
    Minor d top e := by
  constructor
  · intro names hpass
    by_contra hdir
    rw [Bool.not_eq_false, Disk.isDirectory_iff] at hdir
    obtain ⟨q, access, hreal, hq⟩ := Disk.directory_of_stat hdir
    obtain ⟨-, access', bytes, hfile⟩ := h.realPath_of_passes hpass hreal hq
    cases hfile
  · intro names n hn hpass
    by_contra hfile
    rw [Bool.not_eq_false, Disk.isFile_iff] at hfile
    obtain ⟨⟨q, x⟩, hfind, -⟩ := Except.bind_eq_ok_iff.mp hfile
    obtain ⟨hreal, hq⟩ := Disk.find_eq_ok_iff.mp hfind
    obtain ⟨rfl, -⟩ := h.realPath_of_passes hpass hreal hq
    exact hname ⟨names, n, hn, hreal⟩

/-- The disks look the same except at the entries of `E`, and these are minor, or there is one disk on
which they are out of reach. -/
structure Indistinct (d d' : Disk) (top : Path) (E : RealPath → Prop) : Prop where
  similar : ∀ q, Disk.Similar (d.get? q) (d'.get? q) ∨ ∃ e, E e ∧ Disk.isWithin e q = true
  minor : ∀ e, E e → OutOfReach d top e ∨ OutOfReach d' top e ∨ Minor d top e ∧ Minor d' top e
  start : top.isAbsolute = true ∨ d'.workingDir = d.workingDir

/-! ## What is to be seen at a name -/

/-- The walk finds an answer there, or enters a directory. -/
def Shows (d : Disk) (dir : Path) (n : FileName) : Prop :=
  d.isDirectory (dir.join n) = true ∨ isAnswerName n = true ∧ d.isFile (dir.join n) = true

theorem glimpse_eq_nil (h : ¬ Shows d dir n) (above : List FileName) : glimpse d dir above n = [] := by
  rw [Shows, Disk.isDirectory_iff, Disk.isFile_iff, not_or] at h
  unfold glimpse
  split
  · rfl
  · rename_i hfile
    rw [if_neg fun hname => h.2 ⟨hname, hfile⟩]
  · rename_i hdir
    exact absurd hdir h.1

theorem Minor.not_shows {e : RealPath} (h : Minor d top e)
    (hpass : d.Passes ((top.below names).join n) e) : ¬ Shows d (top.below names) n := by
  rintro (hdir | ⟨hname, hfile⟩)
  · rw [← Path.below_concat] at hpass hdir
    rw [h.directory _ hpass] at hdir
    cases hdir
  · rw [h.answer names n hname hpass] at hfile
    cases hfile

theorem exists_stat_of_shows (h : Shows d dir n) : ∃ k, d.stat (dir.join n) = .ok k := by
  rcases h with h | ⟨-, h⟩
  · exact ⟨_, Disk.isDirectory_iff.mp h⟩
  · exact ⟨_, Disk.isFile_iff.mp h⟩

/-- Names at which nothing is to be seen may come and go. -/
theorem flatMap_eq_of_mem_iff {α : Type} {f : FileName → List α}
    (h : names.Pairwise fun a b => a.bytes < b.bytes)
    (h' : names'.Pairwise fun a b => a.bytes < b.bytes)
    (hmem : ∀ n, f n ≠ [] → (n ∈ names ↔ n ∈ names')) : names.flatMap f = names'.flatMap f := by
  have hfilter : ∀ l : List FileName, (l.filter fun n => !(f n).isEmpty).flatMap f = l.flatMap f :=
    fun l => by
      induction l with
      | nil => rfl
      | cons n rest ih => cases hn : f n <;> simp [hn, ih]
  have hnodup : ∀ {l : List FileName}, l.Pairwise (fun a b => a.bytes < b.bytes) → l.Nodup :=
    fun hl => hl.imp fun hab e => by
      rw [e] at hab
      exact List.lt_irrefl _ hab
  have hperm : (names.filter fun n => !(f n).isEmpty).Perm (names'.filter fun n => !(f n).isEmpty) := by
    refine (List.perm_ext_iff_of_nodup ((hnodup h).filter _) ((hnodup h').filter _)).mpr fun n => ?_
    rw [List.mem_filter, List.mem_filter]
    refine and_congr_left fun hn => hmem n fun hnil => ?_
    simp [hnil] at hn
  have heq := List.Perm.eq_of_pairwise (fun a b _ _ hab hba => absurd hba (List.lt_asymm hab))
    (h.filter _) (h'.filter _) hperm
  rw [← hfilter names, ← hfilter names', heq]

namespace Indistinct

variable (h : Indistinct d d' top E)
include h

/-! ## The same on both disks -/

/-- A path below the top leads to the same place, or passes an entry that is minor on both disks. -/
theorem realPath_eq_or_passes (names : List FileName) :
    (d.realPath (top.below names) = d'.realPath (top.below names) ∧
      ∀ q, d.realPath (top.below names) = .ok q → Disk.Similar (d.get? q) (d'.get? q)) ∨
      ∃ e, (d.Passes (top.below names) e ∧ Minor d top e) ∧
        d'.Passes (top.below names) e ∧ Minor d' top e := by
  by_cases hpass : ∃ e, E e ∧ d.Passes (top.below names) e ∧ d'.Passes (top.below names) e
  · obtain ⟨e, he, hp, hp'⟩ := hpass
    rcases h.minor e he with hout | hout | ⟨hminor, hminor'⟩
    · exact absurd hp (hout names)
    · exact absurd hp' (hout names)
    · exact Or.inr ⟨e, ⟨hp, hminor⟩, hp', hminor'⟩
  · refine Or.inl (Disk.realPath_eq_of_not_passes h.similar ?_ hpass)
    rw [Path.isAbsolute_below]
    exact h.start

theorem stat_eq_or_not_directory (names : List FileName) :
    d.stat (top.below names) = d'.stat (top.below names) ∨
      d.isDirectory (top.below names) = false ∧ d'.isDirectory (top.below names) = false := by
  rcases h.realPath_eq_or_passes names with ⟨hreal, hplace⟩ | ⟨e, ⟨hp, hminor⟩, hp', hminor'⟩
  · exact Or.inl (Disk.stat_eq_of_similar hreal hplace)
  · exact Or.inr ⟨hminor.directory names hp, hminor'.directory names hp'⟩

theorem stat_eq_or_not_shows (names : List FileName) (n : FileName) :
    d.stat ((top.below names).join n) = d'.stat ((top.below names).join n) ∨
      ¬ Shows d (top.below names) n ∧ ¬ Shows d' (top.below names) n := by
  have hcases := h.realPath_eq_or_passes (names ++ [n])
  rw [Path.below_concat] at hcases
  rcases hcases with ⟨hreal, hplace⟩ | ⟨e, ⟨hp, hminor⟩, hp', hminor'⟩
  · exact Or.inl (Disk.stat_eq_of_similar hreal hplace)
  · exact Or.inr ⟨hminor.not_shows hp, hminor'.not_shows hp'⟩

theorem stat_eq_of_shows (hshows : Shows d (top.below names) n) :
    d.stat ((top.below names).join n) = d'.stat ((top.below names).join n) :=
  (h.stat_eq_or_not_shows names n).resolve_right fun hnot => hnot.1 hshows

theorem directory_eq (hdir : d.stat (top.below names) = .ok .directory) :
    ∃ q access, (d.realPath (top.below names) = .ok q ∧ d.get? q = some (.directory access)) ∧
      d'.realPath (top.below names) = .ok q ∧ d'.get? q = some (.directory access) := by
  obtain ⟨q, access, hreal, hq⟩ := Disk.directory_of_stat hdir
  rcases h.realPath_eq_or_passes names with ⟨heq, hplace⟩ | ⟨e, ⟨hp, hminor⟩, -⟩
  · have hsimilar := hplace q hreal
    rw [hq] at hsimilar
    exact ⟨q, access, ⟨hreal, hq⟩, heq ▸ hreal, hsimilar.directory⟩
  · have hno := hminor.directory names hp
    rw [Disk.isDirectory_iff.mpr hdir] at hno
    cases hno

/-- A name at which something is to be seen is in the directory on both disks or on none. -/
theorem mem_childNames_iff {q : RealPath} {access : Access}
    (hreal : d.realPath (top.below names) = .ok q) (hq : d.get? q = some (.directory access))
    (hreal' : d'.realPath (top.below names) = .ok q) (hq' : d'.get? q = some (.directory access))
    (hshows : Shows d (top.below names) n) : n ∈ d.childNames q ↔ n ∈ d'.childNames q := by
  obtain ⟨k, hk⟩ := exists_stat_of_shows hshows
  have hk' := h.stat_eq_of_shows hshows ▸ hk
  rw [Disk.mem_childNames, Disk.mem_childNames]
  rcases h.similar (q ++ [n]) with hsame | ⟨e, he, hin⟩
  · exact not_congr hsame.eq_none_iff
  · have hp := Disk.passes_join hreal hq hk hin
    have hp' := Disk.passes_join hreal' hq' hk' hin
    rcases h.minor e he with hout | hout | ⟨hminor, -⟩
    · exact absurd hshows (hout.minor.not_shows hp)
    · rw [← Path.below_concat] at hp'
      exact absurd hp' (hout _)
    · exact absurd hshows (hminor.not_shows hp)

theorem look_eq (habove : dir = top.below above) (hdir : d.stat dir = .ok .directory) :
    look d dir above = look d' dir above := by
  induction dir, above using directory_induction d with
  | step dir above ih =>
    subst habove
    obtain ⟨q, access, ⟨hreal, hq⟩, hreal', hq'⟩ := h.directory_eq hdir
    have hlist := Disk.list_of_directory hreal hq
    have hlist' := Disk.list_of_directory hreal' hq'
    by_cases hread : access.read = true
    · rw [if_pos hread] at hlist hlist'
      rw [look_of_ok hlist, look_of_ok hlist']
      have hglimpse : glimpse d (top.below above) above = glimpse d' (top.below above) above := by
        funext n
        rcases h.stat_eq_or_not_shows above n with hstat | ⟨hnot, hnot'⟩
        · unfold glimpse
          rw [← hstat]
          split
          · rfl
          · rfl
          · rename_i hinner
            refine ih n hinner ?_ hinner
            rw [Path.below_concat]
        · rw [glimpse_eq_nil hnot, glimpse_eq_nil hnot']
      rw [← hglimpse]
      refine flatMap_eq_of_mem_iff (Disk.pairwise_list hlist) (Disk.pairwise_list hlist') fun n hn => ?_
      rw [List.mem_mergeSort, List.mem_mergeSort]
      refine h.mem_childNames_iff hreal hq hreal' hq' ?_
      by_contra hnot
      exact hn (glimpse_eq_nil hnot above)
    · rw [if_neg hread] at hlist hlist'
      rw [look_of_error hlist, look_of_error hlist']

/-- **What makes no difference at the entries makes none to the routes.** -/
theorem build_eq (base : String) : RouteIndex.build d top base = RouteIndex.build d' top base := by
  rcases h.stat_eq_or_not_directory [] with hstat | ⟨hnot, hnot'⟩
  · have hdir : d.isDirectory top = d'.isDirectory top := by
      unfold Disk.isDirectory
      rw [show d.stat top = d'.stat top from hstat]
    by_cases hroot : d.isDirectory top = true
    · have hlook : look d top [] = look d' top [] := h.look_eq rfl (Disk.isDirectory_iff.mp hroot)
      rw [RouteIndex.build_of_isDirectory hroot, RouteIndex.build_of_isDirectory (hdir ▸ hroot),
        files_eq, files_eq, hlook]
    · rw [RouteIndex.build, RouteIndex.build, ← hdir, if_neg hroot, if_neg hroot]
  · rw [RouteIndex.build, RouteIndex.build, show d.isDirectory top = false from hnot,
      show d'.isDirectory top = false from hnot']
    rfl

end Indistinct

end Scan

end CannedApi
