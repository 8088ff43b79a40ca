import CannedApi.Proofs.Template.Reading
import CannedApi.Proofs.Template.Scanning
import CannedApi.Proofs.Template.Single
import Mathlib.Data.List.Infix

/-!
# References reach their values

A slot in the middle of a text names a parameter, a query value or a member of the body.  The name may be any
text that does not close the slot, with braces, dots and dollar signs in it or the opening of another
expression.  The slot becomes the value, what stands before it stays, and what comes after it is rendered as if
it stood alone (`renderText_reference`).
-/

namespace CannedApi.Template

/-- What the opening of an expression and a key name in a request: a parameter, the value of a query key, of
which it may have several, or a member of the body other than `null`, texts as they are and all else as JSON. -/
inductive Context.Names (c : Context) : String → String → String → Prop
  | param {key value : String} (h : Entries.get? c.params key = some value) :
      Names c "$params." key value
  | query {key value : String} (h : Entries.get? c.query key = some (.one value)) :
      Names c "$query." key value
  | queries {key : String} {values : List String} (h : Entries.get? c.query key = some (.many values)) :
      Names c "$query." key (",".intercalate values)
  | bodyText {entries : List (String × Json)} {key value : String} (hbody : c.body = some (.object entries))
      (h : Entries.get? entries key = some (.text value)) : Names c "$body." key value
  | bodyJson {entries : List (String × Json)} {key : String} {x : Json}
      (hbody : c.body = some (.object entries)) (h : Entries.get? entries key = some x) (hnull : x ≠ .null)
      (htext : ∀ s, x ≠ .text s) : Names c "$body." key x.write

/-- A text in the braces of a slot. -/
def braced (inner : String) : String := String.ofList (Piece.slot inner.toList).source

/-- White space that stays in its line. -/
def IsGap (w : List Char) : Prop := ∀ c ∈ w, Text.isBlank c = true ∧ isLineBreak c = false

/-- A key that a slot can name: nothing in it closes the slot, and it does not end in white space. -/
structure IsKey (key : List Char) : Prop where
  inner : IsInner key
  blank : ∀ b, key.getLast? = some b → Text.isBlank b = false

/-! ## The inside of the slot -/

theorem IsInner.concat {cs : List Char} {c : Char} (h : IsInner cs) (hline : isLineBreak c = false)
    (hc : c ≠ '}') : IsInner (cs ++ [c]) := by
  refine ⟨fun d hd => ?_, fun hin => ?_, fun hlast => ?_⟩
  · rcases List.mem_append.mp hd with hd | hd
    · exact h.line d hd
    · rw [List.mem_singleton.mp hd]
      exact hline
  · rcases List.infix_concat_iff.mp hin with hsuffix | hin
    · obtain ⟨front, hfront⟩ := hsuffix
      have hlast := congrArg List.getLast? hfront
      simp at hlast
      exact hc hlast.symm
    · exact h.braces hin
  · rw [List.getLast?_concat, Option.some.injEq] at hlast
    exact hc hlast

theorem IsGap.ne_brace {w : List Char} (h : IsGap w) : ∀ c ∈ w, isLineBreak c = false ∧ c ≠ '}' := by
  intro c hc
  refine ⟨(h c hc).2, ?_⟩
  rintro rfl
  exact absurd (h _ hc).1 (by decide)

theorem IsInner.append_gap {cs w : List Char} (h : IsInner cs) (hw : IsGap w) : IsInner (cs ++ w) := by
  induction w generalizing cs with
  | nil => rwa [List.append_nil]
  | cons c w ih =>
    obtain ⟨hline, hc⟩ := hw.ne_brace c List.mem_cons_self
    rw [List.append_cons]
    exact ih (h.concat hline hc) fun d hd => hw d (List.mem_cons_of_mem c hd)

section
variable {opening : String} {make : String → Expression} {w₁ w₂ key : List Char}

/-- The inside of a slot is cut out as a whole: white space, an opening, a key and white space. -/
theorem pieces_reference (h : (opening, make) ∈ Expression.openings) (hw₁ : IsGap w₁) (hw₂ : IsGap w₂)
    (hkey : IsKey key) (after : List Char) :
    pieces ('{' :: '{' :: (w₁ ++ (opening.toList ++ key ++ w₂) ++ '}' :: '}' :: after)) =
      .slot (w₁ ++ (opening.toList ++ key ++ w₂)) :: pieces after := by
  have hopening := (exists_of_opening h).2
  have hinner : IsInner (w₁ ++ (opening.toList ++ key ++ w₂)) := by
    rw [List.append_assoc opening.toList]
    exact .append hw₁.ne_brace (.append hopening (hkey.inner.append_gap hw₂))
  cases hcs : w₁ ++ (opening.toList ++ key ++ w₂) with
  | nil =>
    obtain ⟨name, hname⟩ := (exists_of_opening h).1
    rw [hname] at hcs
    simp at hcs
  | cons c cs =>
    rw [hcs] at hinner
    exact pieces_inner (hinner.line c List.mem_cons_self) hinner.tail after

theorem ofChars_reference (h : (opening, make) ∈ Expression.openings) (hw₁ : IsGap w₁) (hw₂ : IsGap w₂)
    (hkey : IsKey key) :
    Expression.ofChars (w₁ ++ (opening.toList ++ key ++ w₂)) = make (String.ofList key) :=
  ofChars_opening h (fun c hc => (hw₁ c hc).1) (fun c hc => (hw₂ c hc).1) hkey.blank

end

/-! ## The value -/

/-- What is named is the value of an expression that is not drawn. -/
theorem Context.Names.exists_opening {c : Context} {opening key value : String}
    (h : c.Names opening key value) :
    ∃ make, (opening, make) ∈ Expression.openings ∧ ∀ a, (make key).value? a c = some value := by
  cases h with
  | param h => exact ⟨.param, param_opening, fun a => h⟩
  | query h =>
    refine ⟨.query, by simp [Expression.openings], fun a => ?_⟩
    rw [Expression.value?, queryText?, h]
    rfl
  | queries h =>
    refine ⟨.query, by simp [Expression.openings], fun a => ?_⟩
    rw [Expression.value?, queryText?, h]
    rfl
  | bodyText hbody h =>
    refine ⟨.body, by simp [Expression.openings], fun a => ?_⟩
    rw [Expression.value?, bodyText?, hbody, Option.bind_some, member?, h]
    rfl
  | @bodyJson entries key x hbody h hnull htext =>
    have hvalue : valueText? x = some x.write := by
      cases x with
      | null => exact absurd rfl hnull
      | text s => exact absurd rfl (htext s)
      | bool b => rfl
      | number n => rfl
      | array items => rfl
      | object entries => rfl
    refine ⟨.body, by simp [Expression.openings], fun a => ?_⟩
    rw [Expression.value?, bodyText?, hbody, Option.bind_some, member?, h]
    exact hvalue

/-- What is rendered behind a text, a slot or both is rendered as if it stood alone, if no value in it is
drawn. -/
theorem renderPieces_alone {text : String} (h : ∀ e ∈ expressions text, e.isDrawn = false) (a a' : Ambient)
    (c : Context) (i : Nat) :
    renderPieces a c i (pieces text.toList) = (renderText a' c text).toList := by
  rw [renderText, String.toList_ofList]
  refine renderPieces_congr fun inner hinner n => ?_
  have hdrawn := h _ (mem_expressions hinner)
  rw [Expression.value?_of_not_drawn hdrawn, Expression.value?_of_not_drawn hdrawn]

/-- **References reach their values.**  A slot names a value of the request, with white space around the name or
without.  Wherever it stands in a text the value stands in the rendered text, behind what is in front of the
slot, and what comes after it is rendered as if it stood alone. -/
theorem renderText_reference {c : Context} {opening key value before after w₁ w₂ : String}
    (hnames : c.Names opening key value) (hkey : IsKey key.toList) (hbefore : '{' ∉ before.toList)
    (hw₁ : IsGap w₁.toList) (hw₂ : IsGap w₂.toList) (hafter : ∀ e ∈ expressions after, e.isDrawn = false)
    (a a' : Ambient) :
    renderText a c (before ++ braced (w₁ ++ opening ++ key ++ w₂) ++ after) =
      before ++ value ++ renderText a' c after := by
  obtain ⟨make, hopening, hvalue⟩ := hnames.exists_opening
  have htext : (before ++ braced (w₁ ++ opening ++ key ++ w₂) ++ after).toList = before.toList ++
      '{' :: '{' :: (w₁.toList ++ (opening.toList ++ key.toList ++ w₂.toList) ++ '}' :: '}' :: after.toList) := by
    simp [braced, Piece.source]
  have hexpr := ofChars_reference hopening hw₁ hw₂ hkey
  rw [String.ofList_toList] at hexpr
  apply String.toList_inj.mp
  rw [renderText, String.toList_ofList, renderChars, htext, pieces_of_not_mem hbefore,
    pieces_reference hopening hw₁ hw₂ hkey, renderPieces_chars, renderPieces, Piece.render, hexpr, hvalue,
    renderPieces_alone hafter a a']
  simp

/-! ## A key that is hard to read -/

namespace Knotty

/-- The key has braces of both kinds and the opening of another expression. -/
def key : String := "\x7d\x7b.$params.id\x7b\x7b"

def context : Context :=
  ⟨[("id", "7")], [(key, .many ["x", "y"])], some (.object [(key, .array [.text "x", .bool true])])⟩

def after : String := "{{$params.id}}"

def ambient : Ambient := .ofSeed default 0

theorem isKey : IsKey key.toList := by
  refine ⟨⟨?_, by decide, by decide⟩, fun b hb => ?_⟩
  · simp [key, isLineBreak]
  · cases hb
    decide

theorem isGap : IsGap "\t ".toList := by simp [IsGap, Text.isBlank, isLineBreak]

theorem expressions_after : expressions after = [.param "id"] := by decide +kernel

theorem not_drawn : ∀ e ∈ expressions after, e.isDrawn = false := by
  rw [expressions_after]
  decide

theorem renderText_after : renderText ambient context after = "7" := by decide +kernel

end Knotty

theorem renderText_reference_knotty :
    renderText Knotty.ambient Knotty.context
        ("a\x7d" ++ braced ("\t " ++ "$query." ++ Knotty.key ++ "") ++ Knotty.after) = "a\x7d" ++ "x,y" ++ "7" ∧
      renderText Knotty.ambient Knotty.context
        ("a\x7d" ++ braced ("" ++ "$body." ++ Knotty.key ++ "\t ") ++ Knotty.after) =
          "a\x7d" ++ "[\"x\",true]" ++ "7" := by
  have hquery : Knotty.context.Names "$query." Knotty.key (",".intercalate ["x", "y"]) := .queries rfl
  have hbody : Knotty.context.Names "$body." Knotty.key (Json.array [.text "x", .bool true]).write :=
    .bodyJson rfl rfl (by simp) (by simp)
  have hnone : IsGap "".toList := by simp [IsGap]
  have hbefore : '{' ∉ "a\x7d".toList := by decide
  refine ⟨?_, ?_⟩
  · have h := renderText_reference hquery Knotty.isKey hbefore Knotty.isGap hnone Knotty.not_drawn
      Knotty.ambient Knotty.ambient
    rwa [Knotty.renderText_after] at h
  · have h := renderText_reference hbody Knotty.isKey hbefore hnone Knotty.isGap Knotty.not_drawn
      Knotty.ambient Knotty.ambient
    rwa [Knotty.renderText_after] at h

end CannedApi.Template
