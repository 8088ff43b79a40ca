import CannedApi.Template.Render

/-!
# Texts that are one slot

A text of two braces, an expression and two braces is one slot if the expression has no line break and
nothing in it closes the slot early (`pieces_single`).  The expression is told by its opening, whatever white
space stands around it and whatever name comes after it (`ofChars_opening`).  If it names a parameter, rendering
such a text gives the value of the parameter and nothing else (`renderText_param`).
-/

namespace CannedApi

namespace Text

theorem trimRight_of_last {cs : List Char} (h : ∀ b, cs.getLast? = some b → isBlank b = false) :
    trimRight cs = cs := by
  rcases List.eq_nil_or_concat cs with rfl | ⟨cs, b, rfl⟩
  · rfl
  · rw [List.concat_eq_append] at h ⊢
    rw [trimRight_concat, h b List.getLast?_concat]
    rfl

/-- White space around a text is taken off, and no more than that. -/
theorem trimmed_around {w₁ w₂ cs : List Char} {a : Char} (h₁ : ∀ c ∈ w₁, isBlank c = true)
    (h₂ : ∀ c ∈ w₂, isBlank c = true) (ha : isBlank a = false)
    (hlast : ∀ b, cs.getLast? = some b → isBlank b = false) :
    trimmed (w₁ ++ (a :: cs ++ w₂)) = a :: cs := by
  have hleft : trimLeft (w₁ ++ (a :: cs ++ w₂)) = a :: (cs ++ w₂) := by
    rw [trimLeft, List.dropWhile_append_of_pos h₁]
    exact (trimLeft_cons a (cs ++ w₂)).trans (if_neg (Bool.eq_false_iff.mp ha))
  have hright : trimRight (cs ++ w₂) = trimRight cs := by
    rw [trimRight, List.reverse_append,
      List.dropWhile_append_of_pos fun c hc => h₂ c (List.mem_reverse.mp hc)]
    rfl
  rw [trimmed, hleft, trimRight_cons ha, hright, trimRight_of_last hlast]

end Text

namespace Template

/-! ## One slot -/

/-- Nothing closes a slot early: no line break, no closing braces, and no brace before those that close. -/
structure IsInner (cs : List Char) : Prop where
  line : ∀ c ∈ cs, isLineBreak c = false
  braces : ¬ ['}', '}'] <:+: cs
  last : cs.getLast? ≠ some '}'

theorem IsInner.tail {c : Char} {cs : List Char} (h : IsInner (c :: cs)) : IsInner cs := by
  refine ⟨fun d hd => h.line d (List.mem_cons_of_mem c hd), fun hin => ?_, fun hlast => ?_⟩
  · exact h.braces (hin.trans (List.infix_cons List.infix_rfl))
  · refine h.last ?_
    cases cs with
    | nil => cases hlast
    | cons d cs => simpa using hlast

theorem IsInner.cons {c : Char} {cs : List Char} (hline : isLineBreak c = false) (hc : c ≠ '}')
    (h : IsInner cs) : IsInner (c :: cs) := by
  refine ⟨fun d hd => ?_, fun hin => ?_, fun hlast => ?_⟩
  · rcases List.mem_cons.mp hd with rfl | hd
    · exact hline
    · exact h.line d hd
  · rcases List.infix_cons_iff.mp hin with hprefix | hin
    · obtain ⟨rest, hrest⟩ := hprefix
      exact hc (List.cons.inj hrest).1.symm
    · exact h.braces hin
  · cases cs with
    | nil => exact hc (Option.some.inj hlast)
    | cons d cs => exact h.last (by simpa using hlast)

theorem IsInner.append {a cs : List Char} (ha : ∀ c ∈ a, isLineBreak c = false ∧ c ≠ '}')
    (h : IsInner cs) : IsInner (a ++ cs) := by
  induction a with
  | nil => exact h
  | cons c a ih =>
    obtain ⟨hline, hc⟩ := ha c List.mem_cons_self
    exact .cons hline hc (ih fun d hd => ha d (List.mem_cons_of_mem c hd))

theorem cutClosing_append {cs : List Char} (h : IsInner cs) (after : List Char) :
    cutClosing (cs ++ '}' :: '}' :: after) = some (cs, after) := by
  induction cs with
  | nil => rfl
  | cons c cs ih =>
    have hline := h.line c List.mem_cons_self
    -- a closing brace here is followed by something else
    have hclose : ∀ more, c = '}' → cs ++ '}' :: '}' :: after = '}' :: more → False := by
      rintro more rfl hmore
      cases cs with
      | nil => exact h.last rfl
      | cons d cs =>
        obtain ⟨rfl, -⟩ := List.cons.inj hmore
        exact h.braces ⟨[], cs, rfl⟩
    rw [List.cons_append, cutClosing, hline, ih h.tail]
    · rfl
    · exact hclose

theorem pieces_inner {c : Char} {cs : List Char} (hc : isLineBreak c = false) (h : IsInner cs)
    (after : List Char) :
    pieces ('{' :: '{' :: c :: (cs ++ '}' :: '}' :: after)) = .slot (c :: cs) :: pieces after := by
  have hcut : cutSlot (c :: (cs ++ '}' :: '}' :: after)) = some (c :: cs, after) := by
    rw [cutSlot, hc, cutClosing_append h]
    rfl
  exact pieces_slot hcut

theorem pieces_single {c : Char} {cs : List Char} (hc : isLineBreak c = false) (h : IsInner cs) :
    pieces ('{' :: '{' :: c :: (cs ++ ['}', '}'])) = [.slot (c :: cs)] := by
  have hnil : pieces [] = [] := by rw [pieces]
  rw [pieces_inner hc h, hnil]

/-! ## Openings -/

/-- No opening of an expression begins another. -/
theorem findSome?_openings {opening : String} {make : String → Expression}
    (h : (opening, make) ∈ Expression.openings) (key : List Char) :
    Expression.openings.findSome? (fun p => (Text.dropHead? p.1.toList (opening.toList ++ key)).map fun k =>
      p.2 (String.ofList k)) = some (make (String.ofList key)) := by
  simp only [Expression.openings, List.mem_cons, Prod.mk.injEq, List.not_mem_nil, or_false] at h
  rcases h with ⟨rfl, rfl⟩ | ⟨rfl, rfl⟩ | ⟨rfl, rfl⟩ | ⟨rfl, rfl⟩ <;>
    simp [Expression.openings, Text.dropHead?]

theorem exists_of_opening {opening : String} {make : String → Expression}
    (h : (opening, make) ∈ Expression.openings) :
    (∃ name, opening.toList = '$' :: (name ++ ['.'])) ∧
      ∀ c ∈ opening.toList, isLineBreak c = false ∧ c ≠ '}' := by
  simp only [Expression.openings, List.mem_cons, Prod.mk.injEq, List.not_mem_nil, or_false] at h
  rcases h with ⟨rfl, -⟩ | ⟨rfl, -⟩ | ⟨rfl, -⟩ | ⟨rfl, -⟩
  · exact ⟨⟨"random".toList, by decide⟩, by simp [isLineBreak]⟩
  · exact ⟨⟨"params".toList, by decide⟩, by simp [isLineBreak]⟩
  · exact ⟨⟨"query".toList, by decide⟩, by simp [isLineBreak]⟩
  · exact ⟨⟨"body".toList, by decide⟩, by simp [isLineBreak]⟩

/-- What comes after an opening is the name, whatever white space stands around both. -/
theorem ofChars_opening {opening : String} {make : String → Expression}
    (h : (opening, make) ∈ Expression.openings) {w₁ w₂ key : List Char}
    (h₁ : ∀ c ∈ w₁, Text.isBlank c = true) (h₂ : ∀ c ∈ w₂, Text.isBlank c = true)
    (hkey : ∀ b, key.getLast? = some b → Text.isBlank b = false) :
    Expression.ofChars (w₁ ++ (opening.toList ++ key ++ w₂)) = make (String.ofList key) := by
  obtain ⟨⟨name, hname⟩, -⟩ := exists_of_opening h
  have hsplit : opening.toList ++ key = '$' :: (name ++ '.' :: key) := by
    rw [hname]
    simp
  have hlast : ∀ b, (name ++ '.' :: key).getLast? = some b → Text.isBlank b = false := by
    intro b hb
    rcases List.eq_nil_or_concat key with rfl | ⟨cs, d, rfl⟩
    · rw [List.getLast?_concat, Option.some.injEq] at hb
      rw [← hb]
      decide
    · refine hkey b ?_
      rw [List.concat_eq_append, ← List.cons_append, ← List.append_assoc, List.getLast?_concat] at hb
      rw [List.concat_eq_append, List.getLast?_concat, hb]
  have htrim : Text.trimmed (w₁ ++ (opening.toList ++ key ++ w₂)) = opening.toList ++ key := by
    rw [hsplit]
    exact Text.trimmed_around h₁ h₂ (by decide) hlast
  have hnow : ¬ opening.toList ++ key = "$now".toList := by
    intro e
    have hdot : '.' ∈ "$now".toList := by
      rw [← e, hsplit]
      simp
    exact absurd hdot (by decide)
  unfold Expression.ofChars
  simp only [htrim, hnow, if_false, findSome?_openings h, Option.getD_some]

/-! ## The name of a parameter -/

/-- What a parameter can be called so that a slot can name it and a file name can have it. -/
structure IsParamName (n : String) : Prop where
  ne_empty : n ≠ ""
  bracket : ']' ∉ n.toList
  inner : IsInner n.toList
  blank : ∀ c, n.toList.getLast? = some c → Text.isBlank c = false

/-- the text that names the parameter in a slot -/
def paramSlot (n : List Char) : List Char :=
  '{' :: '{' :: '$' :: ("params.".toList ++ n ++ ['}', '}'])

theorem param_opening : ("$params.", Expression.param) ∈ Expression.openings := by simp [Expression.openings]

section
variable {n : String} (h : IsParamName n)
include h

theorem ofChars_param : Expression.ofChars ("$params.".toList ++ n.toList) = .param n := by
  have hnone : ∀ c ∈ ([] : List Char), Text.isBlank c = true := fun c hc => absurd hc List.not_mem_nil
  have hexpr := ofChars_opening param_opening hnone hnone h.blank
  rwa [List.nil_append, List.append_nil, String.ofList_toList] at hexpr

theorem pieces_paramSlot : pieces (paramSlot n.toList) = [.slot ("$params.".toList ++ n.toList)] := by
  have hinner : IsInner ("$params.".toList ++ n.toList) := .append (exists_of_opening param_opening).2 h.inner
  exact pieces_single (by decide) hinner.tail

/-- **A slot alone becomes the value of its parameter**, whatever the value is. -/
theorem renderText_param {c : Context} {v : String} (hv : c.paramText? n = some v) (a : Ambient) :
    renderText a c (String.ofList (paramSlot n.toList)) = v := by
  have hvalue : (Expression.param n).value? (a.child 0) c = some v := hv
  rw [renderText, renderChars, String.toList_ofList, pieces_paramSlot h, renderPieces, renderPieces,
    Piece.render, ofChars_param h, hvalue]
  show String.ofList (v.toList ++ []) = v
  rw [List.append_nil, String.ofList_toList]

end

end Template

end CannedApi
