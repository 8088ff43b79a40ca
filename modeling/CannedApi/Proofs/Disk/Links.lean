import CannedApi.Proofs.Disk.Descent
import Mathlib.Data.List.MinMax

/-!
# Counting links

Where a path leads when any number of links may be followed, and how many are (`Disk.Resolves`).  A name at
the end of a path leads one entry down, or the path with the name goes through more links than the one without
it (`Disk.Resolves.join`); since real paths are not longer than the disk is deep, that is what ends a descent.
-/

namespace CannedApi

namespace Disk

/-! ## Paths -/

/-- The path leads to a real path, through so many links. -/
def Resolves (d : Disk) (p : Path) (k : Nat) (q : RealPath) : Prop :=
  d.Leads (if p.isAbsolute then [] else d.workingDir) p.steps k q

section
variable {d : Disk} {p : Path} {n : FileName} {k k' : Nat} {q q' : RealPath} {e : Entry}

theorem Resolves.unique (h : d.Resolves p k q) (h' : d.Resolves p k' q') : k = k' ∧ q = q' := Leads.unique h h'

theorem resolves_of_find (h : d.find p = .ok (q, e)) : ∃ k, k ≤ linkLimit ∧ d.Resolves p k q :=
  follow_eq_ok_iff.mp (follow_of_find h).2.2

/-- The path without a slash at its end leads to the same place. -/
theorem Resolves.pieces (h : d.Resolves p k q) :
    d.Leads (if p.isAbsolute then [] else d.workingDir) (p.pieces.map .ofPiece) k q := by
  obtain ⟨i, j, m, hi, hj, rfl⟩ := Leads.split h
  split at hj
  · cases hj with
    | here _ _ hj =>
      cases hj
      exact hi
  · cases hj
    exact hi

/-- An entry of a directory stands in the directory, or it is a link and the way goes through more links. -/
theorem Resolves.join (h : d.Resolves p k q) (h' : d.Resolves (p.join n) k' q') :
    k' = k ∧ q' = q ++ [n] ∨ k < k' := by
  unfold Resolves at h'
  rw [Path.isAbsolute_join, steps_join] at h'
  obtain ⟨i, j, m, hi, hj, rfl⟩ := h'.split
  obtain ⟨rfl, rfl⟩ := h.pieces.unique hi
  rcases hj.cases_name with ⟨rfl, rfl⟩ | hpos
  · exact .inl ⟨rfl, rfl⟩
  · exact .inr (Nat.lt_add_of_pos_right hpos)

/-! ## How deep the disk is -/

/-- the length of the longest real path -/
def depth (d : Disk) : Nat := (d.entries.map fun e => e.1.length).foldr max 0

theorem length_le_depth (h : d.get? q = some e) : q.length ≤ d.depth := by
  by_cases hq : q = []
  · subst hq
    exact Nat.zero_le _
  · rw [get?, if_neg hq] at h
    have hmem : q.length ∈ d.entries.map fun e => e.1.length :=
      List.mem_map.mpr ⟨(q, e), Entries.mem_of_get? h, rfl⟩
    exact List.le_max_of_le' 0 hmem (Nat.le_refl _)

end

end Disk

end CannedApi
