import CannedApi.Proofs.Template.Filling

/-!
# What rendering reads

Pieces are rendered one by one, and of all that time, chance and the request have to give a slot reads the
value of its expression only.  So pieces are rendered alike wherever their expressions have the same values
(`renderPieces_congr`): at other places if no value is drawn, and for other requests if they have the same
texts for what the slots name.
-/

namespace CannedApi.Template

/-- The expressions in the slots of a text. -/
def expressions (text : String) : List Expression := (slots text).map Slot.expression

theorem exists_slot_iff {inner : List Char} (ps : List Piece) (i : Nat) :
    (∃ k ∈ slotsFrom i ps, k.inner = inner) ↔ .slot inner ∈ ps := by
  induction ps generalizing i with
  | nil => simp [slotsFrom]
  | cons p ps ih =>
    cases p with
    | char ch => simp [slotsFrom, ih]
    | slot inner' => simp [slotsFrom, ih, eq_comm (a := inner')]

theorem mem_expressions {text : String} {inner : List Char} (h : .slot inner ∈ pieces text.toList) :
    Expression.ofChars inner ∈ expressions text := by
  obtain ⟨k, hk, rfl⟩ := (exists_slot_iff _ 0).mpr h
  exact List.mem_map_of_mem hk

/-! ## Where values come from -/

namespace Expression

/-- The value is not in the request: it is the time, or left to chance. -/
def isDrawn : Expression → Bool
  | .now | .random _ => true
  | .param _ | .query _ | .body _ | .unknown _ => false

theorem value?_of_not_drawn {e : Expression} (h : e.isDrawn = false) (a : Ambient) (c : Context) :
    e.value? a c = c.text? e := by
  cases e with
  | now => cases h
  | random name => cases h
  | param key => rfl
  | query key => rfl
  | body key => rfl
  | unknown text => rfl

theorem value?_congr {e : Expression} {c c' : Context} (h : c.text? e = c'.text? e) (a : Ambient) :
    e.value? a c = e.value? a c' := by
  cases e with
  | now => rfl
  | random name => rfl
  | param key => exact h
  | query key => exact h
  | body key => exact h
  | unknown text => rfl

end Expression

/-! ## Pieces rendered alike -/

section
variable {a a' : Ambient} {c c' : Context} {i j : Nat}

theorem renderPieces_congr {ps : List Piece}
    (h : ∀ inner, .slot inner ∈ ps → ∀ n, (Expression.ofChars inner).value? (a.child (i + n)) c =
      (Expression.ofChars inner).value? (a'.child (j + n)) c') :
    renderPieces a c i ps = renderPieces a' c' j ps := by
  induction ps generalizing i j with
  | nil => rfl
  | cons p ps ih =>
    have hrest : renderPieces a c (i + 1) ps = renderPieces a' c' (j + 1) ps := by
      refine ih fun inner hinner n => ?_
      have hn := h inner (List.mem_cons_of_mem p hinner) (n + 1)
      rwa [Nat.add_right_comm i, Nat.add_right_comm j]
    have hpiece : p.render (a.child i) c = p.render (a'.child j) c' := by
      cases p with
      | char ch => rfl
      | slot inner =>
        have hvalue : (Expression.ofChars inner).value? (a.child i) c =
            (Expression.ofChars inner).value? (a'.child j) c' := h inner List.mem_cons_self 0
        rw [Piece.render, Piece.render, hvalue]
    rw [renderPieces, renderPieces, hpiece, hrest]

/-- Characters stay as they are. -/
theorem renderPieces_chars (cs : List Char) (ps : List Piece) :
    renderPieces a c i (cs.map .char ++ ps) = cs ++ renderPieces a c (i + cs.length) ps := by
  induction cs generalizing i with
  | nil => rfl
  | cons ch cs ih =>
    rw [List.map_cons, List.cons_append, renderPieces, ih, List.length_cons, Nat.add_right_comm, Nat.add_assoc]
    rfl

theorem renderText_congr {text : String} (h : ∀ e ∈ expressions text, c.text? e = c'.text? e) (a : Ambient) :
    renderText a c text = renderText a c' text := by
  rw [renderText, renderText]
  refine congrArg String.ofList (renderPieces_congr fun inner hinner n => ?_)
  exact Expression.value?_congr (h _ (mem_expressions hinner)) _

end

end CannedApi.Template
