import CannedApi.Proofs.Template.Scanning
import CannedApi.Proofs.Template.Single
import CannedApi.Proofs.Template.Tree

/-!
# Filling in twice

When slots of a text are filled in, what stood apart comes to stand side by side.  As long as no opening brace is
put in, that makes no slot and unmakes none: the pieces of the new text are the old ones, with characters in place
of the slots that were filled in (`pieces_of_filledIn`).  So rendering a rendered text once more finds only the
slots that had no value, and changes nothing (`renderText_renderText`), and the same holds of templates
(`render_render`).
-/

namespace CannedApi.Template

/-! ## Where a slot opens -/

/-- The text starts with a slot. -/
def Opens (cs : List Char) : Prop := ∃ rest, cs = '{' :: '{' :: rest ∧ cutSlot rest ≠ none

section
variable {c : Char} {cs rest inner after : List Char}

theorem closing_prefix_iff : closing <+: c :: rest ↔ c = '}' ∧ rest.head? = some '}' := by
  rw [closing, List.cons_prefix_cons, List.head?_eq_some_iff]
  constructor
  · rintro ⟨rfl, more, hmore⟩
    exact ⟨rfl, more, hmore.symm⟩
  · rintro ⟨rfl, more, rfl⟩
    exact ⟨rfl, more, rfl⟩

theorem cutClosing_brace : cutClosing ('{' :: rest) = none ↔ cutClosing rest = none := by
  rw [cutClosing_cons fun h => absurd (closing_prefix_iff.mp h).1 (by decide)]
  exact Option.map_eq_none_iff

theorem cutSlot_brace : cutSlot ('{' :: rest) = none ↔ cutClosing rest = none := Option.map_eq_none_iff

theorem cutSlot_of_cutClosing (h : cutClosing cs = none) : cutSlot cs = none := by
  cases cs with
  | nil => rfl
  | cons c rest =>
    have hclose : ¬ closing <+: c :: rest := by
      rintro ⟨more, hmore⟩
      rw [← hmore] at h
      cases h
    rwa [cutClosing_cons hclose] at h

theorem not_opens_of_cutSlot (h : cutSlot cs = none) : ¬ Opens cs := by
  rintro ⟨rest, rfl, hslot⟩
  exact hslot (cutSlot_of_cutClosing (cutClosing_brace.mp (cutSlot_brace.mp h)))

/-- Where a slot starts behind a brace, one starts at the brace. -/
theorem Opens.brace (h : Opens cs) : Opens ('{' :: cs) := by
  obtain ⟨rest, rfl, hslot⟩ := h
  refine ⟨'{' :: rest, rfl, fun hnone => hslot ?_⟩
  exact cutSlot_of_cutClosing (cutSlot_brace.mp hnone)

theorem pieces_of_not_opens (h : ¬ Opens (c :: rest)) : pieces (c :: rest) = .char c :: pieces rest := by
  by_cases hbraces : ∃ more, c = '{' ∧ rest = '{' :: more
  · obtain ⟨more, rfl, rfl⟩ := hbraces
    refine pieces_brace (Classical.byContradiction fun hslot => h ⟨more, rfl, hslot⟩)
  · exact pieces_char fun more hc hrest => hbraces ⟨more, hc, hrest⟩

/-- A text is at its end, or a slot opens where it begins, or none does. -/
@[elab_as_elim]
theorem opens_induction {P : List Char → Prop} (nil : P [])
    (slot : ∀ rest inner after, cutSlot rest = some (inner, after) → P after → P ('{' :: '{' :: rest))
    (char : ∀ c rest, ¬ Opens (c :: rest) → P rest → P (c :: rest)) (cs : List Char) : P cs := by
  induction cs using pieces_induction with
  | nil => exact nil
  | slot rest inner after h ih => exact slot rest inner after h ih
  | brace rest h ih =>
    refine char '{' ('{' :: rest) ?_ ih
    rintro ⟨more, e, hslot⟩
    cases e
    exact hslot h
  | char c rest hc ih =>
    refine char c rest ?_ ih
    rintro ⟨more, e, -⟩
    cases e
    exact hc more rfl rfl

/-- What is cut out before closing braces is closed by nothing earlier. -/
theorem isInner_of_cutClosing (h : cutClosing cs = some (inner, after)) : IsInner inner := by
  induction cs generalizing inner with
  | nil => cases h
  | cons c rest ih =>
    by_cases hclose : closing <+: c :: rest
    · obtain ⟨tail, htail⟩ := hclose
      rw [← htail] at h
      cases h
      exact ⟨by simp, by simp, by simp⟩
    · rw [cutClosing_cons hclose] at h
      split at h
      · cases h
      · rename_i hline
        obtain ⟨⟨cs, tail⟩, hcs, e⟩ := Option.map_eq_some_iff.mp h
        cases e
        have hrest := ih hcs
        rw [closing_prefix_iff, eq_of_cutClosing hcs] at hclose
        refine ⟨fun d hd => ?_, fun hin => ?_, fun hlast => ?_⟩
        · rcases List.mem_cons.mp hd with rfl | hd
          · exact Bool.eq_false_iff.mpr hline
          · exact hrest.line d hd
        · rcases List.infix_cons_iff.mp hin with ⟨more, hmore⟩ | hin
          · obtain ⟨rfl, rfl⟩ := List.cons.inj hmore
            exact hclose ⟨rfl, rfl⟩
          · exact hrest.braces hin
        · cases cs with
          | nil => exact hclose ⟨Option.some.inj hlast, rfl⟩
          | cons d cs => exact hrest.last (by simpa using hlast)

/-- What comes after a slot does not matter to it. -/
theorem cutSlot_after (h : cutSlot rest = some (inner, after)) (more : List Char) :
    cutSlot (inner ++ '}' :: '}' :: more) = some (inner, more) := by
  cases rest with
  | nil => cases h
  | cons c rest =>
    rw [cutSlot] at h
    split at h
    · cases h
    · rename_i hline
      obtain ⟨⟨cs, tail⟩, hcs, e⟩ := Option.map_eq_some_iff.mp h
      cases e
      rw [List.cons_append, cutSlot, if_neg hline, cutClosing_append (isInner_of_cutClosing hcs)]
      rfl

end

/-! ## Slots filled in -/

/-- Some of the slots are filled in, with characters none of which opens a brace. -/
inductive FilledIn : List Piece → List Piece → Prop
  | nil : FilledIn [] []
  | char (c : Char) {ps qs : List Piece} (rest : FilledIn ps qs) : FilledIn (.char c :: ps) (.char c :: qs)
  | keep (inner : List Char) {ps qs : List Piece} (rest : FilledIn ps qs) :
      FilledIn (.slot inner :: ps) (.slot inner :: qs)
  | fill (inner : List Char) {v : List Char} (hv : '{' ∉ v) {ps qs : List Piece} (rest : FilledIn ps qs) :
      FilledIn (.slot inner :: ps) (v.map .char ++ qs)

/-- the text that pieces make -/
def written (ps : List Piece) : List Char := ps.flatMap Piece.source

theorem written_chars (cs : List Char) (ps : List Piece) :
    written (cs.map .char ++ ps) = cs ++ written ps := by
  induction cs with
  | nil => rfl
  | cons c cs ih => exact congrArg (c :: ·) ih

namespace FilledIn

variable {c : Char} {cs rest : List Char} {qs : List Piece}

theorem exists_of_char (h : FilledIn (pieces (c :: rest)) qs) (hc : ¬ Opens (c :: rest)) :
    ∃ qs', FilledIn (pieces rest) qs' ∧ qs = .char c :: qs' := by
  rw [pieces_of_not_opens hc] at h
  cases h with
  | char c rest => exact ⟨_, rest, rfl⟩

/-- Where no braces close the line nothing is filled in that closes it. -/
theorem not_closed (h : FilledIn (pieces cs) qs) (hclose : cutClosing cs = none) :
    cutClosing (written qs) = none ∧ (written qs).head? = cs.head? := by
  induction cs using opens_induction generalizing qs with
  | nil =>
    rw [pieces] at h
    cases h
    exact ⟨rfl, rfl⟩
  | slot rest inner after hcut =>
    have hopens : Opens ('{' :: '{' :: rest) := ⟨rest, rfl, by rw [hcut]; exact Option.some_ne_none _⟩
    exact absurd hopens (not_opens_of_cutSlot (cutSlot_of_cutClosing hclose))
  | char c rest hc ih =>
    obtain ⟨qs, hrest, rfl⟩ := h.exists_of_char hc
    refine ⟨?_, rfl⟩
    have hnot : ¬ closing <+: c :: rest := by
      rintro ⟨more, hmore⟩
      rw [← hmore] at hclose
      cases hclose
    rw [cutClosing_cons hnot] at hclose
    show cutClosing (c :: written qs) = none
    by_cases hline : isLineBreak c = true
    · have hbreak : ¬ closing <+: c :: written qs := by
        rw [closing_prefix_iff]
        rintro ⟨rfl, -⟩
        cases hline
      rw [cutClosing_cons hbreak, if_pos hline]
    · rw [if_neg hline, Option.map_eq_none_iff] at hclose
      obtain ⟨hnone, hhead⟩ := ih hrest hclose
      have hnot' : ¬ closing <+: c :: written qs := by
        rwa [closing_prefix_iff, hhead, ← closing_prefix_iff]
      rw [cutClosing_cons hnot', if_neg hline, hnone]
      rfl

theorem cutSlot_eq_none (h : FilledIn (pieces cs) qs) (hslot : cutSlot cs = none) :
    cutSlot (written qs) = none := by
  cases cs with
  | nil =>
    rw [pieces] at h
    cases h
    rfl
  | cons c rest =>
    obtain ⟨qs, hrest, rfl⟩ := h.exists_of_char (not_opens_of_cutSlot hslot)
    show cutSlot (c :: written qs) = none
    rw [cutSlot] at hslot ⊢
    by_cases hline : isLineBreak c = true
    · rw [if_pos hline]
    · rw [if_neg hline, Option.map_eq_none_iff] at hslot
      rw [if_neg hline, (hrest.not_closed hslot).1]
      rfl

/-- Nothing is filled in that makes a brace open a slot. -/
theorem not_opens (h : FilledIn (pieces rest) qs) (hc : ¬ Opens (c :: rest)) : ¬ Opens (c :: written qs) := by
  rintro ⟨more, e, hslot⟩
  obtain ⟨rfl, hmore⟩ := List.cons.inj e
  cases rest with
  | nil =>
    rw [pieces] at h
    cases h
    cases hmore
  | cons d rest =>
    have hd : ¬ Opens (d :: rest) := fun hopens => hc hopens.brace
    obtain ⟨qs, hrest, rfl⟩ := h.exists_of_char hd
    obtain ⟨rfl, hwritten⟩ := List.cons.inj hmore
    rw [← hwritten] at hslot
    refine hslot (hrest.cutSlot_eq_none (Classical.byContradiction fun hne => hc ⟨rest, rfl, hne⟩))

end FilledIn

/-- **Filling in slots makes none and unmakes none**, if no opening brace is put in. -/
theorem pieces_of_filledIn {cs : List Char} {qs : List Piece} (h : FilledIn (pieces cs) qs) :
    pieces (written qs) = qs := by
  induction cs using opens_induction generalizing qs with
  | nil =>
    have hnil : pieces [] = [] := by rw [pieces]
    rw [hnil] at h
    cases h
    exact hnil
  | slot rest inner after hcut ih =>
    rw [pieces_slot hcut] at h
    cases h with
    | @keep _ _ qs hrest =>
      have hwritten : written (.slot inner :: qs) = '{' :: '{' :: (inner ++ '}' :: '}' :: written qs) := by
        simp [written, Piece.source]
      rw [hwritten, pieces_slot (cutSlot_after hcut _), ih hrest]
    | @fill _ v hv _ qs hrest => rw [written_chars, pieces_of_not_mem hv, ih hrest]
  | char c rest hc ih =>
    obtain ⟨qs, hrest, rfl⟩ := h.exists_of_char hc
    show pieces (c :: written qs) = _
    rw [pieces_of_not_opens (hrest.not_opens hc), ih hrest]

/-! ## Rendering once more -/

theorem Expression.value?_eq_none {e : Expression} {a : Ambient} {c : Context} (h : e.value? a c = none)
    (a' : Ambient) : e.value? a' c = none := by
  cases e with
  | now => cases h
  | random name => exact Option.map_eq_none_iff.mpr (Option.map_eq_none_iff.mp h)
  | param key => exact h
  | query key => exact h
  | body key => exact h
  | unknown text => rfl

/-- Rendered pieces are pieces with the slots filled in that have a value. -/
theorem exists_filledIn {a : Ambient} {c : Context} {i : Nat} {ps : List Piece}
    (h : ∀ k ∈ slotsFrom i ps, ∀ v, k.value? a c = some v → '{' ∉ v.toList) :
    ∃ qs, FilledIn ps qs ∧ renderPieces a c i ps = written qs ∧
      ∀ inner, .slot inner ∈ qs → ∀ a', (Expression.ofChars inner).value? a' c = none := by
  induction ps generalizing i with
  | nil => exact ⟨[], .nil, rfl, fun inner hinner => absurd hinner List.not_mem_nil⟩
  | cons p ps ih =>
    cases p with
    | char ch =>
      obtain ⟨qs, hqs, hrender, hnone⟩ := ih h
      refine ⟨_, .char ch hqs, ?_, fun inner hinner => hnone inner (by simpa using hinner)⟩
      rw [renderPieces, hrender]
      rfl
    | slot inner =>
      obtain ⟨qs, hqs, hrender, hnone⟩ := ih fun k hk => h k (List.mem_cons_of_mem _ hk)
      cases hv : (Expression.ofChars inner).value? (a.child i) c with
      | none =>
        refine ⟨_, .keep inner hqs, ?_, fun inner' hinner a' => ?_⟩
        · rw [renderPieces, Piece.render, hv, hrender]
          rfl
        · rcases List.mem_cons.mp hinner with e | hinner
          · cases e
            exact Expression.value?_eq_none hv a'
          · exact hnone inner' hinner a'
      | some v =>
        have hbrace : '{' ∉ v.toList := h ⟨i, inner⟩ List.mem_cons_self v hv
        refine ⟨_, .fill inner hbrace hqs, ?_, fun inner' hinner => hnone inner' (by simpa using hinner)⟩
        rw [renderPieces, Piece.render, hv, hrender, written_chars]

/-- A text rendered once is not changed by rendering it once more, if no opening brace was put in. -/
theorem renderText_renderText {text : String} {a : Ambient} {c : Context}
    (h : ∀ k ∈ slots text, ∀ v, k.value? a c = some v → '{' ∉ v.toList) (a' : Ambient) :
    renderText a' c (renderText a c text) = renderText a c text := by
  obtain ⟨qs, hqs, hrender, hnone⟩ := exists_filledIn h
  refine renderText_of_none fun k hk => ?_
  have hpieces : pieces (renderText a c text).toList = qs := by
    rw [renderText, String.toList_ofList, renderChars, hrender, pieces_of_filledIn hqs]
  rw [slots, hpieces] at hk
  exact hnone k.inner ((exists_slot_iff qs 0).mp ⟨k, hk, rfl⟩) _

/-- **Rendering is idempotent where no opening brace is put in.**  A template with no slot for the time or for
chance is rendered for a request none of whose texts that the template mentions has an opening brace.  Rendering
the result for the same request once more does not change it. -/
theorem render_render {t : Json} {c : Context} (hdrawn : ∀ e, Mentions t e → e.isDrawn = false)
    (hbrace : ∀ e v, Mentions t e → c.text? e = some v → '{' ∉ v.toList) (a a' : Ambient) :
    render a' c (render a c t) = render a c t := by
  refine Json.eq_of_heads fun place => ?_
  rw [head_at?_render, head_at?_render, Option.map_map, fillHead_comp]
  refine fillHead_congr fun s hs => renderText_renderText (fun k hk v hv => ?_) _
  have hmentions : Mentions t k.expression := ⟨place, s, hs, List.mem_map_of_mem hk⟩
  rw [Slot.value?, Expression.value?_of_not_drawn (hdrawn _ hmentions)] at hv
  exact hbrace _ v hmentions hv

/-! ## Closing braces put in -/

namespace Ragged

/-- Two braces, a line break, a slot with a value, one without, and braces that close nothing. -/
def text : String := "\x7b\x7b\n{{$params.x}}{{$body.y}}\x7d"

def template : Json := .array [.text text]

/-- The value has braces and line breaks, as the text around it. -/
def context : Context := ⟨[("x", "\n\x7d\x7d")], [], none⟩

def ambient : Ambient := .ofSeed default 0

theorem expressions_text : expressions text = [.param "x", .body "y"] := by decide +kernel

theorem render_template :
    render ambient context template = .array [.text "\x7b\x7b\n\n\x7d\x7d{{$body.y}}\x7d"] := by
  have htext : renderText (ambient.child 0) context text = "\x7b\x7b\n\n\x7d\x7d{{$body.y}}\x7d" := by
    decide +kernel
  rw [template, render, renderItems, render, renderItems, htext]

theorem mentions_template {e : Expression} (h : Mentions template e) : e = .param "x" ∨ e = .body "y" := by
  obtain ⟨x, hx, he⟩ := mentions_array.mp h
  rw [List.mem_singleton.mp hx, mentions_text, expressions_text] at he
  simpa using he

theorem not_drawn : ∀ e, Mentions template e → e.isDrawn = false := by
  intro e he
  rcases mentions_template he with rfl | rfl <;> rfl

theorem no_brace : ∀ e v, Mentions template e → context.text? e = some v → '{' ∉ v.toList := by
  intro e v he hv
  rcases mentions_template he with rfl | rfl
  · cases hv
    decide
  · cases hv

end Ragged

theorem render_render_ragged :
    (∀ e, Mentions Ragged.template e → e.isDrawn = false) ∧
      (∀ e v, Mentions Ragged.template e → Ragged.context.text? e = some v → '{' ∉ v.toList) ∧
      render Ragged.ambient Ragged.context Ragged.template =
        .array [.text "\x7b\x7b\n\n\x7d\x7d{{$body.y}}\x7d"] ∧
      render Ragged.ambient Ragged.context (render Ragged.ambient Ragged.context Ragged.template) =
        render Ragged.ambient Ragged.context Ragged.template :=
  ⟨Ragged.not_drawn, Ragged.no_brace, Ragged.render_template,
    render_render Ragged.not_drawn Ragged.no_brace _ _⟩

end CannedApi.Template
