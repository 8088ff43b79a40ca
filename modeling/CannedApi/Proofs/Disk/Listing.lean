import CannedApi.Proofs.Disk.Steps
import CannedApi.Proofs.Except
import Mathlib.Data.List.Nodup

/-!
# Listing a directory

A listing has every name of the directory once, in the order of the bytes, whatever order the system
gives them in (`Disk.list_of_gives`).  More is true: disks that differ only in the order of their entries
look the same to whoever resolves a path, looks at what is there or lists a directory.
-/

namespace CannedApi

/-! ## Tables in another order -/

namespace Entries

variable {κ α : Type} [DecidableEq κ]

theorem get?_eq_some_iff {l : Entries κ α} (hl : Distinct l) {k : κ} {v : α} :
    get? l k = some v ↔ (k, v) ∈ l := by
  refine ⟨mem_of_get?, fun h => ?_⟩
  induction l with
  | nil => cases h
  | cons p rest ih =>
    obtain ⟨k', v'⟩ := p
    obtain ⟨hk, hrest⟩ := List.nodup_cons.mp hl
    rw [get?_cons]
    rcases List.mem_cons.mp h with e | hmem
    · cases e
      rw [if_pos rfl]
    · have hne : k' ≠ k := fun e => hk (List.mem_map.mpr ⟨(k, v), hmem, e.symm⟩)
      rw [if_neg hne]
      exact ih hrest hmem

theorem get?_of_perm {l l' : Entries κ α} (h : l.Perm l') (hl : Distinct l) : get? l = get? l' := by
  have hl' : Distinct l' := (h.map Prod.fst).nodup_iff.mp hl
  funext k
  refine Option.ext fun v => ?_
  rw [get?_eq_some_iff hl, get?_eq_some_iff hl', h.mem_iff]

end Entries

/-! ## Names in order -/

namespace FileName

theorem le_trans (a b c : FileName) (hab : a.le b = true) (hbc : b.le c = true) : a.le c = true := by
  simp only [le, decide_eq_true_eq] at *
  exact List.le_trans hab hbc

theorem le_total (a b : FileName) : (a.le b || b.le a) = true := by
  simp only [le, Bool.or_eq_true, decide_eq_true_eq]
  exact List.le_total a.bytes b.bytes

theorem le_antisymm {a b : FileName} (hab : a.le b = true) (hba : b.le a = true) : a = b := by
  simp only [le, decide_eq_true_eq] at hab hba
  exact ext_bytes (List.le_antisymm hab hba)

theorem pairwise_sorted (names : List FileName) :
    (names.mergeSort le).Pairwise fun a b => a.le b = true :=
  List.pairwise_mergeSort le_trans le_total names

theorem sorted_of_perm {names names' : List FileName} (h : names.Perm names') :
    names.mergeSort le = names'.mergeSort le := by
  have hsorted := pairwise_sorted names
  have hsorted' := pairwise_sorted names'
  have hperm : (names.mergeSort le).Perm (names'.mergeSort le) :=
    ((List.mergeSort_perm names le).trans h).trans (List.mergeSort_perm names' le).symm
  exact List.Perm.eq_of_pairwise (fun _ _ _ _ hab hba => le_antisymm hab hba) hsorted hsorted' hperm

end FileName

namespace Disk

variable {d d' : Disk} {p : Path} {names : List FileName}

/-! ## The names in a directory -/

/-- the name of `p` in the directory `dir`, if it stands there -/
def childName? (dir p : RealPath) : Option FileName := if isChild dir p then p.getLast? else none

theorem childName?_eq_some {dir p : RealPath} {n : FileName} (h : childName? dir p = some n) :
    p = dir ++ [n] := by
  unfold childName? isChild at h
  split at h
  · rename_i hchild
    simp only [Bool.and_eq_true, decide_eq_true_eq, beq_iff_eq] at hchild
    obtain ⟨q, rfl⟩ := List.getLast?_eq_some_iff.mp h
    rw [← hchild.2, List.dropLast_concat]
  · cases h

theorem childNames_eq (d : Disk) (dir : RealPath) :
    d.childNames dir = (Entries.keys d.entries).filterMap (childName? dir) := by
  unfold childNames Entries.keys
  induction d.entries with
  | nil => rfl
  | cons e rest ih =>
    cases hc : isChild dir e.1 with
    | false => simp [hc, childName?, ih]
    | true => simp [hc, childName?, ih, List.filterMap_cons]

theorem nodup_childNames (d : Disk) (dir : RealPath) : (d.childNames dir).Nodup := by
  rw [childNames_eq]
  -- a name and the directory that it stands in make up the real path
  refine List.Nodup.filterMap (fun p p' n hp hp' => ?_) d.distinct
  rw [childName?_eq_some hp, childName?_eq_some hp']

/-! ## What a listing has -/

/-- The system can give `names` for the directory `p`: its names, each once, in some order. -/
def Gives (d : Disk) (p : Path) (names : List FileName) : Prop :=
  ∃ r access, d.find p = .ok (r, .directory access) ∧ access.read = true ∧
    names.Perm (d.childNames r)

/-- Whatever order the names are given in, they are listed in the order of their bytes. -/
theorem list_of_gives (h : d.Gives p names) : d.list p = .ok (names.mergeSort FileName.le) := by
  obtain ⟨r, access, hfind, hread, hperm⟩ := h
  unfold list
  rw [hfind]
  show (if access.read = true then _ else _) = _
  rw [if_pos hread, FileName.sorted_of_perm hperm]

theorem list_of_sorted (h : d.Gives p names) (hsorted : names.Pairwise fun a b => a.le b = true) :
    d.list p = .ok names := by
  rw [list_of_gives h, List.mergeSort_of_pairwise hsorted]

theorem exists_gives (h : d.list p = .ok names) :
    ∃ given, d.Gives p given ∧ names = given.mergeSort FileName.le := by
  obtain ⟨⟨r, e⟩, hf, h⟩ := Except.bind_eq_ok_iff.mp h
  cases e with
  | file access content => cases h
  | link target => cases h
  | directory access =>
    replace h : (if access.read = true then Except.ok ((d.childNames r).mergeSort FileName.le)
      else .error OsError.permissionDenied) = .ok names := h
    split at h
    · rename_i hread
      cases h
      exact ⟨d.childNames r, ⟨r, access, hf, hread, .refl _⟩, rfl⟩
    · cases h

theorem isDirectory_of_list (h : d.list p = .ok names) : d.isDirectory p = true := by
  obtain ⟨⟨r, e⟩, hfind, h⟩ := Except.bind_eq_ok_iff.mp h
  cases e with
  | file access content => cases h
  | link target => cases h
  | directory access =>
    rw [isDirectory, stat, hfind]
    rfl

/-- A listing goes strictly upwards. -/
theorem pairwise_list (h : d.list p = .ok names) : names.Pairwise fun a b => a.bytes < b.bytes := by
  obtain ⟨given, ⟨r, access, -, -, hperm⟩, rfl⟩ := exists_gives h
  have hnodup : (given.mergeSort FileName.le).Nodup :=
    ((List.mergeSort_perm given _).trans hperm).nodup_iff.mpr (nodup_childNames d r)
  refine ((FileName.pairwise_sorted given).and hnodup).imp fun hab => ?_
  have hle := hab.1
  simp only [FileName.le, decide_eq_true_eq] at hle
  exact Std.lt_of_le_of_ne hle fun e => hab.2 (FileName.ext_bytes e)

/-! ## Entries in another order -/

/-- the same entries, top and working directory, with the entries in some other order -/
structure Reorders (d d' : Disk) : Prop where
  entries : d.entries.Perm d'.entries
  top : d.top = d'.top
  workingDir : d.workingDir = d'.workingDir

namespace Reorders

variable (h : d.Reorders d')
include h

theorem get? : d.get? = d'.get? := by
  funext p
  unfold Disk.get?
  rw [h.top, Entries.get?_of_perm h.entries d.distinct]

theorem perm_childNames (dir : RealPath) : (d.childNames dir).Perm (d'.childNames dir) := by
  rw [childNames_eq, childNames_eq]
  exact (h.entries.map Prod.fst).filterMap _

/-- Following a path asks the disk for nothing but what stands at single real paths. -/
theorem follow (followLast : Bool) (links : Nat) (steps : List PathStep) (at_ : RealPath) :
    d.follow followLast links steps at_ = d'.follow followLast links steps at_ := by
  have hfollows := d.follows followLast links steps at_
  rw [h.get?] at hfollows
  exact hfollows.eq.symm

theorem find : d.find = d'.find := by
  funext p
  unfold Disk.find realPath locate
  rw [h.get?, h.workingDir]
  simp only [h.follow]

theorem stat : d.stat = d'.stat := by
  funext p
  unfold Disk.stat
  rw [h.find]

theorem isDirectory : d.isDirectory = d'.isDirectory := by
  funext p
  unfold Disk.isDirectory
  rw [h.stat]

theorem list : d.list = d'.list := by
  funext p
  have hsort (r : RealPath) : (d.childNames r).mergeSort FileName.le =
      (d'.childNames r).mergeSort FileName.le := FileName.sorted_of_perm (h.perm_childNames r)
  unfold Disk.list
  simp only [h.find, hsort]

end Reorders

end Disk

end CannedApi
