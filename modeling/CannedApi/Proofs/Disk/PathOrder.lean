import CannedApi.Disk.Path
import Mathlib.Data.List.Lex

/-!
# The order of paths

Paths are compared part by part, names by their bytes, and a path comes before all paths below it.  What
lies in a directory has its name as one more part (`Path.parts_join`), so of two names in one directory
all below the first comes before all below the second (`Path.before_of_prefix`).
-/

namespace CannedApi

/-! ## Cutting at a mark in the middle -/

theorem Text.pieces_append {α : Type} [DecidableEq α] (mark : α) (a b : List α) :
    pieces mark (a ++ mark :: b) = pieces mark a ++ pieces mark b := by
  induction a with
  | nil => simp [pieces]
  | cons c a ih =>
    by_cases hc : c = mark
    · simp [pieces, hc, ih]
    · cases hp : pieces mark a with
      | nil => exact absurd hp (pieces_ne_nil mark a)
      | cons p ps =>
        rw [hp] at ih
        simp [pieces, hc, hp, ih]

/-! ## Parts -/

namespace Path

theorem pieces_join (p : Path) (n : FileName) : (p.join n).pieces = p.pieces ++ [n.bytes] := by
  have hname : Text.pieces slash n.bytes = [n.bytes] := Text.pieces_of_not_mem n.legal.2.1
  have hne : n.bytes ≠ [] := n.ne_nil
  unfold pieces join
  by_cases hnil : p.bytes = []
  · simp [hnil, hname, hne, Text.pieces]
  · by_cases hslash : p.bytes.getLast? = some slash
    · obtain ⟨q, hq⟩ := List.getLast?_eq_some_iff.mp hslash
      rw [if_pos (Or.inr hslash), hq]
      have e : q ++ [slash] ++ n.bytes = q ++ slash :: n.bytes := by simp
      show ((Text.pieces slash (q ++ [slash] ++ n.bytes)).filter _) = _
      rw [e, Text.pieces_append, Text.pieces_append, hname]
      simp [Text.pieces, hne]
    · rw [if_neg (by simp [hnil, hslash])]
      show ((Text.pieces slash (p.bytes ++ slash :: n.bytes)).filter _) = _
      rw [Text.pieces_append, hname]
      simp [hne]

theorem isAbsolute_join (p : Path) (n : FileName) : (p.join n).isAbsolute = p.isAbsolute := by
  have hslash : n.bytes.head? ≠ some slash := fun h => n.legal.2.1 (List.mem_of_mem_head? h)
  unfold isAbsolute join
  by_cases hnil : p.bytes = []
  · simp [hnil, hslash]
  · obtain ⟨c, cs, hc⟩ := List.exists_cons_of_ne_nil hnil
    split <;> simp [hc]

/-- What lies in a directory has one part more, its name. -/
theorem parts_join (p : Path) (n : FileName) : (p.join n).parts = p.parts ++ [.name n.bytes] := by
  have hdot : n.bytes ≠ [0x2E] := n.legal.2.2.2.1
  have hup : n.bytes ≠ [0x2E, 0x2E] := n.legal.2.2.2.2.1
  have hhead : (p.pieces ++ [n.bytes]).head? = some [0x2E] ↔ p.pieces.head? = some [0x2E] := by
    cases p.pieces with
    | nil => simp [hdot]
    | cons q qs => simp
  unfold parts
  rw [pieces_join, isAbsolute_join]
  simp only [hhead, List.filter_append, List.map_append, List.append_assoc]
  simp [hdot, hup]

end Path

/-! ## The order -/

namespace PathPart

/-- the place among the kinds of parts -/
def rank : PathPart → Nat
  | .root => 0
  | .here => 1
  | .up => 2
  | .name _ => 3

/-- The top comes first, then dots, then names by their bytes. -/
inductive Before : PathPart → PathPart → Prop
  | kind {a b : PathPart} (h : a.rank < b.rank) : Before a b
  | bytes {x y : List UInt8} (h : x < y) : Before (.name x) (.name y)

theorem Before.irrefl (a : PathPart) : ¬ a.Before a := by
  intro h
  cases h with
  | kind h => exact Nat.lt_irrefl _ h
  | bytes h => exact List.lt_irrefl _ h

theorem Before.trans {a b c : PathPart} (hab : a.Before b) (hbc : b.Before c) : a.Before c := by
  cases hab with
  | kind hab =>
    cases hbc with
    | kind hbc => exact .kind (hab.trans hbc)
    | bytes => exact .kind hab
  | bytes hab =>
    cases hbc with
    | kind hbc => exact .kind hbc
    | bytes hbc => exact .bytes (List.lt_trans hab hbc)

end PathPart

namespace Path

/-- `a` comes before `b` in the order of their parts -/
def Before (a b : Path) : Prop := List.Lex PathPart.Before a.parts b.parts

theorem Before.irrefl (a : Path) : ¬ a.Before a := List.lex_irrefl PathPart.Before.irrefl _

theorem Before.trans {a b c : Path} (hab : a.Before b) (hbc : b.Before c) : a.Before c :=
  List.lex_trans PathPart.Before.trans hab hbc

theorem Before.parts_ne {a b : Path} (h : a.Before b) : a.parts ≠ b.parts := by
  intro e
  unfold Before at h
  rw [e] at h
  exact Before.irrefl b h

/-- Of two names in a directory, what lies at or below the one comes before what lies at or below the
other. -/
theorem before_of_prefix {dir x y : Path} {m n : FileName} (h : m.bytes < n.bytes)
    (hx : (dir.join m).parts <+: x.parts) (hy : (dir.join n).parts <+: y.parts) : x.Before y := by
  rw [parts_join] at hx hy
  obtain ⟨xs, hx⟩ := hx
  obtain ⟨ys, hy⟩ := hy
  show List.Lex PathPart.Before x.parts y.parts
  rw [← hx, ← hy, List.append_assoc, List.append_assoc]
  exact List.Lex.append_left _ (.rel (.bytes h)) dir.parts

end Path

end CannedApi
