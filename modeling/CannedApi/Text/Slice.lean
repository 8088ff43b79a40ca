/-!
# Cutting texts at offsets

A place in a text is given by its offset, the number of bytes before it.  A text can be cut where a character
starts and where it ends; any other cut is refused.  `find?` looks for the first place of a mark.  Cutting at
the length of what stands in front gives it back (`cutAt_append`), and a mark that is found stands at no
earlier place (`find?_cases`).
-/

namespace CannedApi.Text

/-- how many bytes the characters take -/
def byteLength : List Char → Nat
  | [] => 0
  | c :: cs => c.utf8Size + byteLength cs

/-- A text was to be cut inside a character or behind its end. -/
structure BadOffset where
  offset : Nat
  deriving DecidableEq, Repr

/-- the parts of a text before and behind an offset -/
def cutAt : List Char → Nat → Option (List Char × List Char)
  | cs, 0 => some ([], cs)
  | [], _ + 1 => none
  | c :: cs, n + 1 =>
    if c.utf8Size ≤ n + 1 then (cutAt cs (n + 1 - c.utf8Size)).map fun p => (c :: p.1, p.2) else none

def sliceFrom (cs : List Char) (offset : Nat) : Except BadOffset (List Char) :=
  match cutAt cs offset with
  | some p => .ok p.2
  | none => .error ⟨offset⟩

def sliceTo (cs : List Char) (offset : Nat) : Except BadOffset (List Char) :=
  match cutAt cs offset with
  | some p => .ok p.1
  | none => .error ⟨offset⟩

/-- the part of a text between two offsets -/
def slice (cs : List Char) (start stop : Nat) : Except BadOffset (List Char) :=
  (sliceTo cs stop).bind fun front => sliceFrom front start

/-- The offset of the first place where the mark stands. -/
def find? (mark : List Char) : List Char → Option Nat
  | [] => if mark = [] then some 0 else none
  | c :: cs => if mark.isPrefixOf (c :: cs) then some 0 else (find? mark cs).map (c.utf8Size + ·)

/-! ## Laws -/

@[simp] theorem byteLength_nil : byteLength [] = 0 := rfl

@[simp] theorem byteLength_cons (c : Char) (cs : List Char) :
    byteLength (c :: cs) = c.utf8Size + byteLength cs := rfl

@[simp] theorem byteLength_append (a b : List Char) : byteLength (a ++ b) = byteLength a + byteLength b := by
  induction a with
  | nil => simp
  | cons c a ih => simp [ih, Nat.add_assoc]

theorem exists_byteLength_cons (c : Char) (cs : List Char) : ∃ n, byteLength (c :: cs) = n + 1 :=
  Nat.exists_eq_add_one.mpr (Nat.add_pos_left c.utf8Size_pos _)

theorem utf8ByteSize_ofList (cs : List Char) : (String.ofList cs).utf8ByteSize = byteLength cs := by
  induction cs with
  | nil => rfl
  | cons c cs ih =>
    rw [String.ofList_cons, String.utf8ByteSize_append, String.utf8ByteSize_singleton, ih]
    rfl

/-- Behind what a text begins with a character starts, or the text ends. -/
theorem isValid_front {text : String} {front : List Char} (h : front <+: text.toList) :
    (⟨byteLength front⟩ : String.Pos.Raw).IsValid text := by
  obtain ⟨rest, hrest⟩ := h
  refine String.Pos.Raw.isValid_iff_exists_append.mpr ⟨String.ofList front, String.ofList rest, ?_, ?_⟩
  · rw [← String.ofList_append, hrest, String.ofList_toList]
  · rw [← utf8ByteSize_ofList]
    rfl

theorem cutAt_append (a b : List Char) : cutAt (a ++ b) (byteLength a) = some (a, b) := by
  induction a with
  | nil => cases b <;> rfl
  | cons c a ih =>
    obtain ⟨n, hn⟩ := exists_byteLength_cons c a
    have hrest : n + 1 - c.utf8Size = byteLength a := by
      rw [← hn, byteLength_cons, Nat.add_sub_cancel_left]
    have hle : c.utf8Size ≤ n + 1 := by
      rw [← hn]
      exact Nat.le_add_right _ _
    rw [List.cons_append, hn, cutAt, if_pos hle, hrest, ih]
    rfl

theorem eq_of_cutAt {cs a b : List Char} {n : Nat} (h : cutAt cs n = some (a, b)) :
    cs = a ++ b ∧ byteLength a = n := by
  induction cs generalizing n a with
  | nil =>
    cases n with
    | zero =>
      cases h
      exact ⟨rfl, rfl⟩
    | succ n => cases h
  | cons c cs ih =>
    cases n with
    | zero =>
      cases h
      exact ⟨rfl, rfl⟩
    | succ n =>
      rw [cutAt] at h
      split at h
      · obtain ⟨⟨a', b'⟩, hrest, e⟩ := Option.map_eq_some_iff.mp h
        cases e
        obtain ⟨rfl, hlength⟩ := ih hrest
        exact ⟨rfl, by rw [byteLength_cons, hlength]; omega⟩
      · cases h

theorem sliceFrom_append (a b : List Char) : sliceFrom (a ++ b) (byteLength a) = .ok b := by
  rw [sliceFrom, cutAt_append]

theorem sliceTo_append (a b : List Char) : sliceTo (a ++ b) (byteLength a) = .ok a := by
  rw [sliceTo, cutAt_append]

theorem slice_append (a b c : List Char) :
    slice (a ++ (b ++ c)) (byteLength a) (byteLength (a ++ b)) = .ok b := by
  rw [slice, ← List.append_assoc, sliceTo_append]
  exact sliceFrom_append a b

theorem eq_of_sliceFrom {cs b : List Char} {n : Nat} (h : sliceFrom cs n = .ok b) :
    ∃ a, cs = a ++ b ∧ byteLength a = n := by
  unfold sliceFrom at h
  split at h
  · rename_i p hp
    cases h
    exact ⟨p.1, eq_of_cutAt hp⟩
  · cases h

/-- In a text that begins with `a` and goes on with `rest` the mark stands at no place within `a`. -/
def StandsNotIn (mark : List Char) : List Char → List Char → Prop
  | [], _ => True
  | c :: a, rest => ¬ mark <+: c :: (a ++ rest) ∧ StandsNotIn mark a rest

theorem standsNotIn_of_not_mem {d : Char} {mark a : List Char} (h : d ∉ a) (rest : List Char) :
    StandsNotIn (d :: mark) a rest := by
  induction a with
  | nil => trivial
  | cons c a ih =>
    rw [List.mem_cons, not_or] at h
    refine ⟨?_, ih h.2⟩
    rintro ⟨more, hmore⟩
    exact h.1 (List.cons.inj hmore).1

/-- The mark is in none of the text, or there is a first place where it stands. -/
theorem find?_cases {mark : List Char} (hmark : mark ≠ []) (cs : List Char) :
    find? mark cs = none ∧ StandsNotIn mark cs [] ∨
      ∃ a b, cs = a ++ (mark ++ b) ∧ find? mark cs = some (byteLength a) ∧ StandsNotIn mark a (mark ++ b) := by
  induction cs with
  | nil => exact Or.inl ⟨if_neg hmark, trivial⟩
  | cons c cs ih =>
    by_cases hc : mark <+: c :: cs
    · obtain ⟨b, hb⟩ := hc
      refine Or.inr ⟨[], b, hb.symm, ?_, trivial⟩
      rw [find?, if_pos (List.isPrefixOf_iff_prefix.mpr ⟨b, hb⟩)]
      rfl
    · have hfind : find? mark (c :: cs) = (find? mark cs).map (c.utf8Size + ·) := by
        rw [find?, if_neg (mt List.isPrefixOf_iff_prefix.mp hc)]
      rcases ih with ⟨hnone, hnot⟩ | ⟨a, b, rfl, hsome, hnot⟩
      · refine Or.inl ⟨by rw [hfind, hnone]; rfl, ?_, hnot⟩
        rwa [List.append_nil]
      · refine Or.inr ⟨c :: a, b, rfl, ?_, hc, hnot⟩
        rw [hfind, hsome]
        rfl

end CannedApi.Text
