import CannedApi.Text.Slice

/-!
# Occurrences from the left

A bracket is a mark, an inside of some kind and another mark.  Looking for it from the left means to take,
again and again, the occurrence that starts first behind the last one taken, and the shortest of those that
start there (`Leftmost`).  What is found so is determined by the text (`Bracket.leftmost_unique`), and going
through the text one character at a time finds it (`Bracket.leftmost_skip`, `Bracket.leftmost_found`).
-/

namespace CannedApi.Text

/-- where something stands in a text, between two offsets -/
structure Occurrence where
  start : Nat
  stop : Nat
  inner : List Char
  deriving DecidableEq

/-- What is found from an offset on if it is looked for from the left: without overlap, first the one that
starts first, and the shortest of those that start there. -/
inductive Leftmost (P : Occurrence → Prop) : Nat → List Occurrence → Prop where
  | done {i : Nat} (h : ∀ o, P o → o.start < i) : Leftmost P i []
  | found {i : Nat} {o : Occurrence} {l : List Occurrence} (ho : P o) (hi : i ≤ o.start)
      (first : ∀ o', P o' → i ≤ o'.start → o.start ≤ o'.start)
      (shortest : ∀ o', P o' → o'.start = o.start → o.stop ≤ o'.stop) (rest : Leftmost P o.stop l) :
      Leftmost P i (o :: l)

theorem Leftmost.holds {P : Occurrence → Prop} {i : Nat} {l : List Occurrence} (h : Leftmost P i l) :
    ∀ o ∈ l, P o := by
  induction h with
  | done => exact fun o ho => absurd ho List.not_mem_nil
  | found ho _ _ _ _ ih => exact List.forall_mem_cons.mpr ⟨ho, ih⟩

/-- Nothing starts between two offsets. -/
theorem Leftmost.of_gap {P : Occurrence → Prop} {i j : Nat} {l : List Occurrence} (hij : i ≤ j)
    (hgap : ∀ o, P o → i ≤ o.start → j ≤ o.start) (h : Leftmost P j l) : Leftmost P i l := by
  cases h with
  | done h => exact .done fun o ho => Nat.lt_of_not_le fun hi => Nat.not_le_of_lt (h o ho) (hgap o ho hi)
  | found ho hj first shortest rest =>
    exact .found ho (Nat.le_trans hij hj) (fun o' ho' hi => first o' ho' (hgap o' ho' hi)) shortest rest

/-- Where occurrences are determined by their ends, so is what is found. -/
theorem Leftmost.unique {P : Occurrence → Prop}
    (hP : ∀ o o', P o → P o' → o.start = o'.start → o.stop = o'.stop → o = o') {i : Nat}
    {l l' : List Occurrence} (h : Leftmost P i l) (h' : Leftmost P i l') : l = l' := by
  induction h generalizing l' with
  | done h =>
    cases h' with
    | done => rfl
    | found ho' hi' => exact absurd (h _ ho') (Nat.not_lt_of_le hi')
  | found ho hi first shortest rest ih =>
    cases h' with
    | done h' => exact absurd (h' _ ho) (Nat.not_lt_of_le hi)
    | found ho' hi' first' shortest' rest' =>
      have hstart := Nat.le_antisymm (first _ ho' hi') (first' _ ho hi)
      have hstop := Nat.le_antisymm (shortest _ ho' hstart.symm) (shortest' _ ho hstart)
      obtain rfl := hP _ _ ho ho' hstart hstop
      rw [ih rest']

/-! ## Offsets -/

theorem append_inj_of_byteLength {a b a' b' : List Char} (h : a ++ b = a' ++ b')
    (hlength : byteLength a = byteLength a') : a = a' ∧ b = b' := by
  have hcut := cutAt_append a b
  rw [h, hlength, cutAt_append] at hcut
  simpa [eq_comm] using hcut

theorem eq_nil_of_byteLength {a : List Char} (h : byteLength a = 0) : a = [] := by
  have hnil : [] ++ a = a ++ [] := by simp
  exact (append_inj_of_byteLength hnil h.symm).1.symm

/-- No character starts inside a character. -/
theorem byteLength_cases {before rest before' rest' : List Char} {c : Char}
    (h : before ++ c :: rest = before' ++ rest') (hle : byteLength before ≤ byteLength before') :
    byteLength before = byteLength before' ∨ byteLength (before ++ [c]) ≤ byteLength before' := by
  rcases List.append_eq_append_iff.mp h with ⟨a, rfl, ha⟩ | ⟨a, rfl, -⟩
  · cases a with
    | nil => exact Or.inl (by simp)
    | cons d a =>
      obtain ⟨rfl, -⟩ := List.cons.inj ha
      refine Or.inr ?_
      simp only [byteLength_append, byteLength_cons, byteLength_nil]
      omega
  · rw [byteLength_append] at hle ⊢
    exact Or.inl (by omega)

/-! ## Brackets -/

/-- Marks that stand around something, and what may stand between them. -/
structure Bracket where
  opening : List Char
  closing : List Char
  Holds : List Char → Prop

namespace Bracket

variable {k : Bracket} {text before rest x : List Char} {l : List Occurrence} {o : Occurrence}

def around (k : Bracket) (inner : List Char) : List Char := k.opening ++ (inner ++ k.closing)

/-- The text starts with the bracket, and this stands in it. -/
def Starts (k : Bracket) (text inner : List Char) : Prop := k.Holds inner ∧ k.around inner <+: text

/-- The bracket stands there in the text. -/
def Occurs (k : Bracket) (text : List Char) (o : Occurrence) : Prop :=
  ∃ before rest, text = before ++ rest ∧ k.Starts rest o.inner ∧ o.start = byteLength before ∧
    o.stop = o.start + byteLength (k.around o.inner)

theorem Occurs.starts (h : k.Occurs text o) (htext : text = before ++ rest)
    (hstart : o.start = byteLength before) : k.Starts rest o.inner := by
  obtain ⟨before', rest', htext', hrest, hstart', -⟩ := h
  obtain ⟨-, rfl⟩ := append_inj_of_byteLength (htext'.symm.trans htext) (hstart'.symm.trans hstart)
  exact hrest

theorem Occurs.ext {o' : Occurrence} (h : k.Occurs text o) (h' : k.Occurs text o')
    (hstart : o.start = o'.start) (hstop : o.stop = o'.stop) : o = o' := by
  obtain ⟨before, rest, htext, ⟨-, after, hafter⟩, hbefore, hlength⟩ := h
  obtain ⟨-, after', hafter'⟩ := h'.starts htext (hstart.symm.trans hbefore)
  obtain ⟨-, -, -, -, -, hlength'⟩ := h'
  have hsame : byteLength (k.around o.inner) = byteLength (k.around o'.inner) := by omega
  have haround := (append_inj_of_byteLength (hafter.trans hafter'.symm) hsame).1
  have hinner : o.inner = o'.inner :=
    List.append_cancel_right (List.append_cancel_left haround)
  obtain ⟨start, stop, inner⟩ := o
  obtain ⟨start', stop', inner'⟩ := o'
  simp only at hstart hstop hinner
  rw [hstart, hstop, hinner]

theorem leftmost_unique {i : Nat} {l' : List Occurrence} (h : Leftmost (k.Occurs text) i l)
    (h' : Leftmost (k.Occurs text) i l') : l = l' :=
  h.unique (fun _ _ ho ho' => ho.ext ho') h'

/-! ## Going through a text -/

theorem leftmost_end (hopening : k.opening ≠ []) : Leftmost (k.Occurs text) (byteLength text) [] := by
  refine .done fun o ho => ?_
  obtain ⟨before, rest, rfl, ⟨-, hprefix⟩, hstart, -⟩ := ho
  have hrest : byteLength rest ≠ 0 := by
    intro h
    rw [eq_nil_of_byteLength h, List.prefix_nil] at hprefix
    exact hopening (List.append_eq_nil_iff.mp hprefix).1
  rw [hstart, byteLength_append]
  omega

/-- The bracket does not stand here; it is looked for one character further on. -/
theorem leftmost_skip {c : Char} (htext : text = before ++ c :: rest)
    (hnot : ∀ x, ¬ k.Starts (c :: rest) x)
    (h : Leftmost (k.Occurs text) (byteLength (before ++ [c])) l) :
    Leftmost (k.Occurs text) (byteLength before) l := by
  refine h.of_gap ?_ fun o ho hle => ?_
  · rw [byteLength_append]
    exact Nat.le_add_right _ _
  · obtain ⟨before', rest', htext', -, hstart, -⟩ := id ho
    rw [hstart] at hle ⊢
    refine (byteLength_cases (htext.symm.trans htext') hle).resolve_left fun heq => ?_
    exact hnot _ (ho.starts htext (hstart.trans heq.symm))

/-- In a text that begins with `a` and goes on with `rest` the bracket stands at no place within `a`. -/
def StartsNotIn (k : Bracket) : List Char → List Char → Prop
  | [], _ => True
  | c :: a, rest => (∀ x, ¬ k.Starts (c :: (a ++ rest)) x) ∧ k.StartsNotIn a rest

theorem StartsNotIn.concat {a : List Char} {c : Char} (h : k.StartsNotIn a (c :: rest))
    (hc : ∀ x, ¬ k.Starts (c :: rest) x) : k.StartsNotIn (a ++ [c]) rest := by
  induction a with
  | nil => exact ⟨hc, trivial⟩
  | cons d a ih =>
    have htext : a ++ [c] ++ rest = a ++ c :: rest := (List.append_cons a c rest).symm
    exact ⟨fun x hx => h.1 x (htext ▸ hx), ih h.2⟩

/-- What holds no place where the bracket starts does not hold the bracket. -/
theorem StartsNotIn.not_occurs {a : List Char} (h : k.StartsNotIn a rest) (hopening : k.opening ≠ []) :
    ¬ k.Occurs a o := by
  rintro ⟨before, rest', htext, ⟨hholds, hprefix⟩, -⟩
  induction before generalizing a with
  | nil =>
    obtain rfl : a = rest' := htext
    cases a with
    | nil =>
      rw [List.prefix_nil] at hprefix
      exact hopening (List.append_eq_nil_iff.mp hprefix).1
    | cons c a => exact h.1 _ ⟨hholds, hprefix.trans (List.prefix_append _ rest)⟩
  | cons d before ih =>
    obtain rfl : a = d :: (before ++ rest') := htext
    exact ih h.2 rfl

theorem leftmost_pass {a : List Char} (htext : text = before ++ (a ++ rest)) (h : k.StartsNotIn a rest)
    (hl : Leftmost (k.Occurs text) (byteLength (before ++ a)) l) :
    Leftmost (k.Occurs text) (byteLength before) l := by
  induction a generalizing before with
  | nil => rwa [List.append_nil] at hl
  | cons c a ih =>
    rw [List.append_cons] at hl
    have htext' : text = before ++ [c] ++ (a ++ rest) := by
      rw [htext, List.append_assoc]
      rfl
    exact leftmost_skip htext h.1 (ih htext' h.2 hl)

/-- The bracket stands here; it is looked for behind the shortest that does. -/
theorem leftmost_found (htext : text = before ++ rest) (hx : k.Starts rest x)
    (hshort : ∀ y, k.Starts rest y → byteLength (k.around x) ≤ byteLength (k.around y))
    (h : Leftmost (k.Occurs text) (byteLength before + byteLength (k.around x)) l) :
    Leftmost (k.Occurs text) (byteLength before)
      (⟨byteLength before, byteLength before + byteLength (k.around x), x⟩ :: l) := by
  refine .found ⟨before, rest, htext, hx, rfl, rfl⟩ (Nat.le_refl _) (fun o' _ hle => hle) ?_ h
  intro o' ho' hstart
  have hle := hshort _ (ho'.starts htext hstart)
  obtain ⟨-, -, -, -, -, hstop⟩ := ho'
  rw [hstop, hstart]
  exact Nat.add_le_add_left hle _

end Bracket

end CannedApi.Text
