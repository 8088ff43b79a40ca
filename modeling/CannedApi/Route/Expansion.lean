import CannedApi.Proofs.Except
import CannedApi.Route.Naming
import CannedApi.Text.Slice

/-!
# Expanding a name in steps

A name is expanded by looking for the next `-[` in what is left of it.  With a `]` behind it, and something
between, it ends the literal read so far and names a parameter; otherwise it becomes part of the literal.  The
segments are appended to a list that is handed in.  Every part of the name is cut out at offsets, which can be
refused.
-/

namespace CannedApi.Naming

open Text (BadOffset sliceFrom sliceTo)

/-- what opens a parameter in a name -/
def opening : List Char := ['-', '[']

/-- the list with the literal behind it, if there is one -/
def flushLiteral (literal : List Char) (out : Pattern) : Pattern :=
  if literal.isEmpty then out else out ++ [.literal (String.ofList literal)]

/-- A name that is being expanded. -/
structure Expanding where
  literal : List Char
  out : Pattern
  rest : List Char

namespace Expanding

/-- the step at an opening, where `after` is what follows it -/
def stepAt (s : Expanding) (pos : Nat) (after : List Char) : Except BadOffset Expanding :=
  match Text.find? [']'] after with
  | some (n + 1) =>
    (sliceTo s.rest pos).bind fun front =>
      (sliceTo after (n + 1)).bind fun name =>
        (sliceFrom after (n + 1 + 1)).map fun rest =>
          { literal := []
            out := flushLiteral (s.literal ++ front) s.out ++ [.param (String.ofList name)]
            rest }
  | _ => (sliceTo s.rest (pos + 2)).map fun front => { s with literal := s.literal ++ front, rest := after }

/-- One step, unless nothing opens a parameter any more. -/
def step (s : Expanding) : Except BadOffset (Option Expanding) :=
  match Text.find? opening s.rest with
  | none => .ok none
  | some pos => (sliceFrom s.rest (pos + 2)).bind fun after => (s.stepAt pos after).map some

section
variable {s s' : Expanding}

theorem length_le_of_stepAt {pos : Nat} {after : List Char} (h : s.stepAt pos after = .ok s') :
    s'.rest.length ≤ after.length := by
  unfold stepAt at h
  split at h
  · obtain ⟨front, -, h⟩ := Except.bind_eq_ok_iff.mp h
    obtain ⟨name, -, h⟩ := Except.bind_eq_ok_iff.mp h
    obtain ⟨rest, hrest, rfl⟩ := Except.map_eq_ok_iff.mp h
    obtain ⟨named, rfl, -⟩ := Text.eq_of_sliceFrom hrest
    exact List.length_append ▸ Nat.le_add_left _ _
  · obtain ⟨front, -, rfl⟩ := Except.map_eq_ok_iff.mp h
    exact Nat.le_refl _

theorem length_lt_of_step (h : s.step = .ok (some s')) : s'.rest.length < s.rest.length := by
  unfold step at h
  split at h
  · cases h
  · obtain ⟨after, hafter, h⟩ := Except.bind_eq_ok_iff.mp h
    obtain ⟨next, hnext, e⟩ := Except.map_eq_ok_iff.mp h
    obtain rfl := Option.some.inj e
    obtain ⟨front, hrest, hfront⟩ := Text.eq_of_sliceFrom hafter
    have hne : front ≠ [] := by
      rintro rfl
      cases hfront
    have hpos := List.length_pos_iff.mpr hne
    have hle := length_le_of_stepAt hnext
    rw [hrest, List.length_append]
    omega

end

/-- The segments, when all steps are done. -/
def finish (s : Expanding) : Except BadOffset Pattern :=
  match h : s.step with
  | .error e => .error e
  | .ok none => .ok (flushLiteral (s.literal ++ s.rest) s.out)
  | .ok (some s') =>
    have := length_lt_of_step h
    s'.finish
termination_by s.rest.length

section
variable {s s' : Expanding}

theorem finish_none (h : s.step = .ok none) : s.finish = .ok (flushLiteral (s.literal ++ s.rest) s.out) := by
  rw [finish]
  split <;> simp_all

theorem finish_some (h : s.step = .ok (some s')) : s.finish = s'.finish := by
  rw [finish]
  split <;> simp_all

end

end Expanding

/-- The list with the segments of the name behind it. -/
def expandInto (raw : String) (out : Pattern) : Except BadOffset Pattern :=
  Expanding.finish { literal := [], out, rest := raw.toList }

theorem expandFrom_skip {l rest : List Char} (h : Text.StandsNotIn opening l rest) (acc : List Char) :
    expandFrom acc (l ++ rest) = expandFrom (l.reverse ++ acc) rest := by
  induction l generalizing acc with
  | nil => rfl
  | cons c l ih =>
    have hc : ∀ more, c = '-' → l ++ rest = '[' :: more → False := by
      rintro more rfl hmore
      exact h.1 (hmore ▸ ⟨more, rfl⟩)
    rw [List.cons_append, expandFrom_char hc, ih h.2, List.reverse_cons, List.append_assoc]
    rfl

end CannedApi.Naming
