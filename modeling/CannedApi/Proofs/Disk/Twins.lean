import CannedApi.Proofs.Disk.Descent

/-!
# Directories alike but for one file

Two directories, on two disks, with the same names, kinds, permissions and contents, except that one file
may hold other bytes in the one than in the other.  Whoever goes down from the two, name by name, sees no
difference as long as he does not read that file: paths lead to the same (`Disk.Twins.stat_join`), and
listings are the same (`Disk.Twins.list_eq`).
-/

namespace CannedApi

/-- what stands under the names `names` below a directory -/
def Path.below (p : Path) (names : List FileName) : Path := names.foldl Path.join p

theorem Path.below_concat (p : Path) (names : List FileName) (n : FileName) :
    p.below (names ++ [n]) = (p.below names).join n := by
  rw [below, List.foldl_append]
  rfl

namespace Disk

/-- Every entry is under a name of the directory that it stands in, and there are no other names. -/
theorem mem_childNames {d : Disk} {dir : RealPath} {n : FileName} :
    n ∈ d.childNames dir ↔ d.get? (dir ++ [n]) ≠ none := by
  have hne : dir ++ [n] ≠ [] := by simp
  have hname : childName? dir (dir ++ [n]) = some n := by simp [childName?, isChild]
  rw [childNames_eq, List.mem_filterMap, get?, if_neg hne, ne_eq, Entries.get?_eq_none_iff, not_not]
  constructor
  · rintro ⟨p, hp, h⟩
    rwa [← childName?_eq_some h]
  · intro h
    exact ⟨_, h, hname⟩

/-! ## Twins -/

/-- `root` leads to `top` on the one disk and to `top'` on the other.  What stands there is the same, but
for the file with the names `file`: of that only the access is the same.  No links are there. -/
structure Twins (d d' : Disk) (root : Path) (file : List FileName) (top top' : RealPath) : Prop where
  left : ∃ e, d.find root = .ok (top, e)
  right : ∃ e, d'.find root = .ok (top', e)
  same : ∀ names, names ≠ file → d.get? (top ++ names) = d'.get? (top' ++ names)
  differ : ∃ access bytes bytes', d.get? (top ++ file) = some (.file access bytes) ∧
    d'.get? (top' ++ file) = some (.file access bytes')
  unlinked : ∀ names target, d.get? (top ++ names) ≠ some (.link target)

/-- What a path leads to in the one directory and in the other: the same, or the one file. -/
inductive Alike (d d' : Disk) (file : List FileName) (top top' : RealPath) (p : Path)
    (names : List FileName) : Prop
  | same (e : Entry) (left : d.find p = .ok (top ++ names, e))
      (right : d'.find p = .ok (top' ++ names, e))
  | differ (hfile : names = file) (access : Access) (bytes bytes' : List UInt8)
      (left : d.find p = .ok (top ++ names, .file access bytes))
      (right : d'.find p = .ok (top' ++ names, .file access bytes'))

namespace Twins

variable {d d' : Disk} {root p : Path} {file names : List FileName} {top top' : RealPath}

/-- Of an entry only the bytes count that are not those of the one file. -/
theorem get?_cases (h : d.Twins d' root file top top') (names : List FileName) :
    d.get? (top ++ names) = d'.get? (top' ++ names) ∨
      names = file ∧ ∃ access bytes bytes', d.get? (top ++ names) = some (.file access bytes) ∧
        d'.get? (top' ++ names) = some (.file access bytes') := by
  by_cases hnames : names = file
  · exact Or.inr ⟨hnames, hnames ▸ h.differ⟩
  · exact Or.inl (h.same names hnames)

theorem unlinked_right (h : d.Twins d' root file top top') (names : List FileName) (target : Path) :
    d'.get? (top' ++ names) ≠ some (.link target) := by
  rcases h.get?_cases names with heq | ⟨-, access, bytes, bytes', -, hright⟩
  · rw [← heq]
    exact h.unlinked names target
  · intro h
    rw [hright] at h
    cases h

theorem alike_root (h : d.Twins d' root file top top') : Alike d d' file top top' root [] := by
  obtain ⟨e, he⟩ := h.left
  obtain ⟨e', he'⟩ := h.right
  have hleft := (find_eq_ok_iff.mp he).2
  have hright := (find_eq_ok_iff.mp he').2
  have hcases := h.get?_cases []
  rw [List.append_nil, List.append_nil, hleft, hright] at hcases
  rcases hcases with heq | ⟨hfile, access, bytes, bytes', hbytes, hbytes'⟩
  · cases heq
    exact .same e (by rw [List.append_nil, he]) (by rw [List.append_nil, he'])
  · cases hbytes
    cases hbytes'
    exact .differ hfile access bytes bytes' (by rw [List.append_nil, he]) (by rw [List.append_nil, he'])

/-- A name further down, both paths fail alike or lead to the same. -/
theorem alike_join (h : d.Twins d' root file top top') (hp : Alike d d' file top top' p names)
    (n : FileName) : (∃ e, d.find (p.join n) = .error e ∧ d'.find (p.join n) = .error e) ∨
      Alike d d' file top top' (p.join n) (names ++ [n]) := by
  have hlink := h.unlinked (names ++ [n])
  have hlink' := h.unlinked_right (names ++ [n])
  have hcases := h.get?_cases (names ++ [n])
  rw [← List.append_assoc] at hlink hlink'
  cases hp with
  | differ hfile access bytes bytes' left right =>
    have hleft := find_join left hlink
    have hright := find_join right hlink'
    -- a file has no names in it
    left
    by_cases hlength : pathLimit ≤ (p.join n).length
    · rw [if_pos hlength] at hleft hright
      exact ⟨_, hleft, hright⟩
    · rw [if_neg hlength] at hleft hright
      exact ⟨_, hleft, hright⟩
  | same e left right =>
    have hleft := find_join left hlink
    have hright := find_join right hlink'
    rw [List.append_assoc] at hleft hright
    by_cases hlength : pathLimit ≤ (p.join n).length
    · rw [if_pos hlength] at hleft hright
      exact Or.inl ⟨_, hleft, hright⟩
    · rw [if_neg hlength] at hleft hright
      -- a directory that may be searched lets one in, anything else fails on both sides for one reason
      rcases enter_cases e with ⟨err, hclosed⟩ | hopen
      · rw [hclosed] at hleft hright
        exact Or.inl ⟨err, hleft, hright⟩
      · rw [hopen] at hleft hright
        rcases hcases with heq | ⟨hfile, access, bytes, bytes', hbytes, hbytes'⟩
        · rw [← heq] at hright
          cases hnext : d.get? (top ++ (names ++ [n])) with
          | none =>
            rw [hnext] at hleft hright
            exact Or.inl ⟨_, hleft, hright⟩
          | some next =>
            rw [hnext] at hleft hright
            exact Or.inr (.same next hleft hright)
        · rw [hbytes] at hleft
          rw [hbytes'] at hright
          exact Or.inr (.differ hfile access bytes bytes' hleft hright)

theorem alike_of_stat (h : d.Twins d' root file top top') (hp : Alike d d' file top top' p names)
    {n : FileName} {k : Kind} (hstat : d.stat (p.join n) = .ok k) :
    Alike d d' file top top' (p.join n) (names ++ [n]) := by
  refine (h.alike_join hp n).resolve_left ?_
  rintro ⟨e, hleft, -⟩
  rw [stat, hleft] at hstat
  cases hstat

/-! ## Nothing else to be seen -/

theorem stat_eq (hp : Alike d d' file top top' p names) : d.stat p = d'.stat p := by
  unfold stat
  cases hp with
  | same e left right =>
    rw [left, right]
    rfl
  | differ hfile access bytes bytes' left right =>
    rw [left, right]
    rfl

theorem stat_join (h : d.Twins d' root file top top') (hp : Alike d d' file top top' p names)
    (n : FileName) : d.stat (p.join n) = d'.stat (p.join n) := by
  rcases h.alike_join hp n with ⟨e, left, right⟩ | hjoin
  · rw [stat, stat, left, right]
  · exact stat_eq hjoin

theorem perm_childNames (h : d.Twins d' root file top top') (names : List FileName) :
    (d.childNames (top ++ names)).Perm (d'.childNames (top' ++ names)) := by
  refine (List.perm_ext_iff_of_nodup (nodup_childNames d _) (nodup_childNames d' _)).mpr fun n => ?_
  rw [mem_childNames, mem_childNames, List.append_assoc, List.append_assoc]
  rcases h.get?_cases (names ++ [n]) with heq | ⟨-, access, bytes, bytes', hbytes, hbytes'⟩
  · rw [heq]
  · simp [hbytes, hbytes']

theorem list_eq (h : d.Twins d' root file top top') (hp : Alike d d' file top top' p names) :
    d.list p = d'.list p := by
  unfold list
  cases hp with
  | same e left right =>
    have hsort := FileName.sorted_of_perm (h.perm_childNames names)
    rw [left, right]
    cases e with
    | file access content => rfl
    | link target => rfl
    | directory access =>
      show (if access.read = true then _ else _) = if access.read = true then _ else _
      rw [hsort]
  | differ hfile access bytes bytes' left right =>
    rw [left, right]
    rfl

/-- Only who reads the one file can tell the directories apart. -/
theorem readText_eq (hp : Alike d d' file top top' p names) (hnames : names ≠ file) :
    d.readText p = d'.readText p := by
  cases hp with
  | same e left right =>
    rw [readText, readText, readFile, readFile, left, right]
    rfl
  | differ hfile access bytes bytes' left right => exact absurd hfile hnames

end Twins

end Disk

end CannedApi
