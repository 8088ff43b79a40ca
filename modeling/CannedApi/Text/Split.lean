/-!
# Cutting lists at a mark

`pieces` cuts at every mark and keeps empty pieces, `cutFirst` and `cutLast` cut once.  Writing the
mark back between the parts gives the list again (`join_pieces`, `eq_of_cutFirst`, `eq_of_cutLast`).
-/

namespace CannedApi.Text

variable {α : Type} [DecidableEq α]

/-- the parts before, between and after the marks: one more than there are marks -/
def pieces (mark : α) : List α → List (List α)
  | [] => [[]]
  | c :: rest =>
    if c = mark then [] :: pieces mark rest
    else
      match pieces mark rest with
      | [] => [[c]]
      | p :: ps => (c :: p) :: ps

/-- the parts with the mark between them -/
def join (mark : α) : List (List α) → List α
  | [] => []
  | [p] => p
  | p :: q :: ps => p ++ mark :: join mark (q :: ps)

/-- the parts before and after the first mark -/
def cutFirst (mark : α) : List α → Option (List α × List α)
  | [] => none
  | c :: rest => if c = mark then some ([], rest) else (cutFirst mark rest).map fun p => (c :: p.1, p.2)

/-- the parts before and after the last mark -/
def cutLast (mark : α) : List α → Option (List α × List α)
  | [] => none
  | c :: rest =>
    match cutLast mark rest with
    | some p => some (c :: p.1, p.2)
    | none => if c = mark then some ([], rest) else none

/-- The list less `tail`, if it ends so. -/
def dropTail? (tail : List α) (l : List α) : Option (List α) :=
  if tail.isSuffixOf l then some (l.take (l.length - tail.length)) else none

/-- The list less `head`, if it starts so. -/
def dropHead? : List α → List α → Option (List α)
  | [], l => some l
  | _ :: _, [] => none
  | a :: head, b :: l => if a = b then dropHead? head l else none

/-! ## Laws -/

theorem pieces_ne_nil (mark : α) (l : List α) : pieces mark l ≠ [] := by
  induction l with
  | nil => simp [pieces]
  | cons c rest ih =>
    unfold pieces
    split
    · simp
    · split <;> simp

theorem pieces_cons_mark (mark : α) (l : List α) : pieces mark (mark :: l) = [] :: pieces mark l := by
  rw [pieces, if_pos rfl]

theorem pieces_cons_of_ne {mark c : α} (hc : c ≠ mark) {l p : List α} {ps : List (List α)}
    (h : pieces mark l = p :: ps) : pieces mark (c :: l) = (c :: p) :: ps := by
  rw [pieces, if_neg hc, h]

theorem mark_not_mem_pieces (mark : α) (l : List α) : ∀ p ∈ pieces mark l, mark ∉ p := by
  induction l with
  | nil => simp [pieces]
  | cons c rest ih =>
    by_cases h : c = mark
    · subst h
      intro p hp
      rw [show pieces c (c :: rest) = [] :: pieces c rest by simp [pieces]] at hp
      rcases List.mem_cons.mp hp with rfl | hp'
      · simp
      · exact ih p hp'
    · cases hq : pieces mark rest with
      | nil => exact absurd hq (pieces_ne_nil mark rest)
      | cons q qs =>
        rw [hq] at ih
        intro p hp
        rw [show pieces mark (c :: rest) = (c :: q) :: qs by simp [pieces, h, hq]] at hp
        rcases List.mem_cons.mp hp with rfl | hp'
        · intro hm
          rcases List.mem_cons.mp hm with e | hm'
          · exact h e.symm
          · exact ih q List.mem_cons_self hm'
        · exact ih p (List.mem_cons_of_mem _ hp')

theorem pieces_of_not_mem {mark : α} {p : List α} (h : mark ∉ p) : pieces mark p = [p] := by
  induction p with
  | nil => rfl
  | cons c p ih =>
    have hc : c ≠ mark := fun e => h (e ▸ List.mem_cons_self)
    simp [pieces, hc, ih fun hm => h (List.mem_cons_of_mem c hm)]

theorem pieces_append_mark {mark : α} {p : List α} (h : mark ∉ p) (l : List α) :
    pieces mark (p ++ mark :: l) = p :: pieces mark l := by
  induction p with
  | nil => simp [pieces]
  | cons c p ih =>
    have hc : c ≠ mark := fun e => h (e ▸ List.mem_cons_self)
    simp [pieces, hc, ih fun hm => h (List.mem_cons_of_mem c hm)]

/-- Parts without the mark come back as they were joined. -/
theorem pieces_join {mark : α} {ps : List (List α)} (hne : ps ≠ []) (h : ∀ p ∈ ps, mark ∉ p) :
    pieces mark (join mark ps) = ps := by
  induction ps with
  | nil => exact absurd rfl hne
  | cons p ps ih =>
    have hp : mark ∉ p := h p List.mem_cons_self
    cases ps with
    | nil => exact pieces_of_not_mem hp
    | cons q qs =>
      show pieces mark (p ++ mark :: join mark (q :: qs)) = _
      rw [pieces_append_mark hp, ih (by simp) fun x hx => h x (List.mem_cons_of_mem p hx)]

theorem eq_of_cutFirst {mark : α} {l a b : List α} (h : cutFirst mark l = some (a, b)) :
    l = a ++ mark :: b := by
  induction l generalizing a with
  | nil => simp [cutFirst] at h
  | cons c rest ih =>
    by_cases hc : c = mark
    · simp [cutFirst, hc] at h
      simp [← h.1, ← h.2, hc]
    · simp only [cutFirst, if_neg hc, Option.map_eq_some_iff] at h
      obtain ⟨⟨a', b'⟩, h1, h2⟩ := h
      simp only [Prod.mk.injEq] at h2
      obtain ⟨rfl, rfl⟩ := h2
      rw [ih h1, List.cons_append]

theorem not_mem_of_cutFirst {mark : α} {l a b : List α} (h : cutFirst mark l = some (a, b)) : mark ∉ a := by
  induction l generalizing a with
  | nil => cases h
  | cons c rest ih =>
    by_cases hc : c = mark
    · rw [cutFirst, if_pos hc] at h
      cases h
      exact List.not_mem_nil
    · rw [cutFirst, if_neg hc] at h
      obtain ⟨p, hp, e⟩ := Option.map_eq_some_iff.mp h
      cases e
      rw [List.mem_cons, not_or]
      exact ⟨Ne.symm hc, ih hp⟩

theorem cutFirst_append {mark : α} {a : List α} (h : mark ∉ a) (b : List α) :
    cutFirst mark (a ++ mark :: b) = some (a, b) := by
  induction a with
  | nil => simp [cutFirst]
  | cons c a ih =>
    rw [List.mem_cons, not_or] at h
    rw [List.cons_append, cutFirst, if_neg fun e => h.1 e.symm, ih h.2]
    rfl

theorem eq_of_cutLast {mark : α} {l a b : List α} (h : cutLast mark l = some (a, b)) :
    l = a ++ mark :: b := by
  induction l generalizing a with
  | nil => simp [cutLast] at h
  | cons c rest ih =>
    cases hr : cutLast mark rest with
    | some p =>
      simp only [cutLast, hr, Option.some.injEq, Prod.mk.injEq] at h
      rw [← h.1, ← h.2, ih (a := p.1) (by rw [hr, ← h.2]), List.cons_append]
      simp [h.2]
    | none =>
      by_cases hc : c = mark
      · simp [cutLast, hr, hc] at h
        simp [← h.1, ← h.2, hc]
      · simp [cutLast, hr, hc] at h

theorem not_mem_of_cutLast_eq_none {mark : α} {l : List α} (h : cutLast mark l = none) : mark ∉ l := by
  induction l with
  | nil => exact List.not_mem_nil
  | cons c rest ih =>
    rw [cutLast] at h
    split at h
    · cases h
    · split at h
      · cases h
      · rename_i hr hc
        exact List.not_mem_cons_of_ne_of_not_mem (Ne.symm hc) (ih hr)

theorem cutLast_of_not_mem {mark : α} {l : List α} (h : mark ∉ l) : cutLast mark l = none := by
  cases hcut : cutLast mark l with
  | none => rfl
  | some p => exact absurd (eq_of_cutLast hcut ▸ List.mem_append_right _ List.mem_cons_self) h

theorem cutLast_append {mark : α} {b : List α} (h : mark ∉ b) (a : List α) :
    cutLast mark (a ++ mark :: b) = some (a, b) := by
  induction a with
  | nil => simp [cutLast, cutLast_of_not_mem h]
  | cons c a ih => simp [cutLast, ih]

theorem not_mem_of_cutLast {mark : α} {l a b : List α} (h : cutLast mark l = some (a, b)) : mark ∉ b := by
  induction l generalizing a with
  | nil => cases h
  | cons c rest ih =>
    cases hr : cutLast mark rest with
    | some p =>
      rw [cutLast, hr] at h
      cases h
      exact ih hr
    | none =>
      by_cases hc : c = mark
      · simp only [cutLast, hr, if_pos hc, Option.some.injEq, Prod.mk.injEq] at h
        obtain ⟨-, rfl⟩ := h
        exact not_mem_of_cutLast_eq_none hr
      · simp [cutLast, hr, hc] at h

theorem dropTail?_append (l tail : List α) : dropTail? tail (l ++ tail) = some l := by
  have hsuffix : tail.isSuffixOf (l ++ tail) = true := by simp
  rw [dropTail?, if_pos hsuffix]
  simp

theorem dropHead?_append (a b : List α) : dropHead? a (a ++ b) = some b := by
  induction a with
  | nil => rfl
  | cons c a ih => rw [List.cons_append, dropHead?, if_pos rfl, ih]

end CannedApi.Text
