import CannedApi.Template.Render
import Mathlib.Data.List.Basic

/-!
# What is put in is not read

Which slots of a text get filled in follows from the text and from which values there are, never from what
the values say.  So a text has, for each choice of the values that there are, one outline: pieces of it with
slots between them (`Outline.ofPieces`).  Every context with these values puts them, as they are, into the
slots of this outline, and all else stays as it was written (`renderText_outline`).
-/

namespace CannedApi.Template

/-! ## Slots with their places -/

/-- A slot of a text, with its number among the pieces. -/
structure Slot where
  place : Nat
  inner : List Char
  deriving DecidableEq, Repr

namespace Slot

def expression (k : Slot) : Expression := .ofChars k.inner

def source (k : Slot) : List Char := (Piece.slot k.inner).source

def value? (a : Ambient) (c : Context) (k : Slot) : Option String :=
  k.expression.value? (a.child k.place) c

/-- the characters of the value -/
def filling (a : Ambient) (c : Context) (k : Slot) : List Char := ((k.value? a c).getD "").toList

theorem render_eq (a : Ambient) (c : Context) (k : Slot) :
    (Piece.slot k.inner).render (a.child k.place) c =
      if (k.value? a c).isSome then k.filling a c else k.source := by
  have hv : (Expression.ofChars k.inner).value? (a.child k.place) c = k.value? a c := rfl
  rw [filling, Piece.render, hv]
  cases k.value? a c <;> rfl

end Slot

def slotsFrom (i : Nat) : List Piece → List Slot
  | [] => []
  | .char _ :: rest => slotsFrom (i + 1) rest
  | .slot inner :: rest => ⟨i, inner⟩ :: slotsFrom (i + 1) rest

def slots (text : String) : List Slot := slotsFrom 0 (pieces text.toList)

/-- The slots are the placeholders that the text is searched for. -/
theorem inner_spans (text : String) :
    (spans text).map Span.inner = (slots text).map fun k => String.ofList k.inner := by
  have h (offset i : Nat) (ps : List Piece) : (spansFrom offset ps).map Span.inner =
      (slotsFrom i ps).map fun k => String.ofList k.inner := by
    induction ps generalizing offset i with
    | nil => rfl
    | cons p ps ih =>
      cases p with
      | char ch => exact ih _ _
      | slot inner => exact congrArg (String.ofList inner :: ·) (ih _ _)
  exact h 0 0 (pieces text.toList)

/-! ## Which expressions have a value -/

namespace Expression

/-- it names a value of the request -/
def isReference : Expression → Bool
  | .param _ | .query _ | .body _ => true
  | .now | .random _ | .unknown _ => false

/-- the expression has a value, where `present` tells which values the request has -/
def hasValue (present : Expression → Bool) : Expression → Bool
  | .now => true
  | .random name => (Random.Generator.ofKey? name).isSome
  | .unknown _ => false
  | e => present e

end Expression

/-- the value of the request that an expression names -/
def Context.text? (c : Context) : Expression → Option String
  | .param key => c.paramText? key
  | .query key => c.queryText? key
  | .body key => c.bodyText? key
  | _ => none

/-- Of the values that the slots name, those are there that `present` tells. -/
def Context.Offers (c : Context) (present : Expression → Bool) (ks : List Slot) : Prop :=
  ∀ k ∈ ks, k.expression.isReference = true → (c.text? k.expression).isSome = present k.expression

theorem Expression.isSome_value? {c : Context} {present : Expression → Bool} {e : Expression}
    (h : e.isReference = true → (c.text? e).isSome = present e) (a : Ambient) :
    (e.value? a c).isSome = e.hasValue present := by
  cases e with
  | now => rfl
  | random name => exact Option.isSome_map
  | unknown text => rfl
  | param key => exact h rfl
  | query key => exact h rfl
  | body key => exact h rfl

/-! ## Outlines -/

/-- A text with gaps: what stands before the first, and after each one. -/
structure Outline where
  first : List Char
  rest : List (Slot × List Char)

namespace Outline

def slots (o : Outline) : List Slot := o.rest.map Prod.fst

/-- the text with the gaps filled -/
def write (o : Outline) (fill : Slot → List Char) : List Char :=
  o.first ++ o.rest.flatMap fun p => fill p.1 ++ p.2

/-- characters in front of all -/
def push (cs : List Char) (o : Outline) : Outline := ⟨cs ++ o.first, o.rest⟩

/-- a gap in front of all -/
def gap (k : Slot) (o : Outline) : Outline := ⟨[], (k, o.first) :: o.rest⟩

theorem write_push (cs : List Char) (o : Outline) (fill : Slot → List Char) :
    (o.push cs).write fill = cs ++ o.write fill := List.append_assoc _ _ _

theorem write_gap (k : Slot) (o : Outline) (fill : Slot → List Char) :
    (o.gap k).write fill = fill k ++ o.write fill := by
  show [] ++ ((fill k ++ o.first) ++ _) = _
  rw [List.nil_append, List.append_assoc]
  rfl

theorem write_congr {o : Outline} {fill fill' : Slot → List Char} (h : ∀ k ∈ o.slots, fill k = fill' k) :
    o.write fill = o.write fill' := by
  have hrest : o.rest.flatMap (fun p => fill p.1 ++ p.2) = o.rest.flatMap fun p => fill' p.1 ++ p.2 :=
    List.flatMap_congr fun p hp => by rw [h p.1 (List.mem_map_of_mem hp)]
  rw [write, write, hrest]

/-- The outline of pieces, the first of which is the `i`th: slots that have a value become gaps. -/
def ofPieces (present : Expression → Bool) (i : Nat) : List Piece → Outline
  | [] => ⟨[], []⟩
  | .char ch :: rest => (ofPieces present (i + 1) rest).push [ch]
  | .slot inner :: rest =>
    let k : Slot := ⟨i, inner⟩
    if k.expression.hasValue present then (ofPieces present (i + 1) rest).gap k
    else (ofPieces present (i + 1) rest).push k.source

variable (present : Expression → Bool)

theorem slots_ofPieces (i : Nat) (ps : List Piece) :
    (ofPieces present i ps).slots = (slotsFrom i ps).filter fun k => k.expression.hasValue present := by
  induction ps generalizing i with
  | nil => rfl
  | cons p ps ih =>
    cases p with
    | char ch => exact ih (i + 1)
    | slot inner =>
      rw [ofPieces, slotsFrom, List.filter_cons]
      split
      · exact congrArg (_ :: ·) (ih (i + 1))
      · exact ih (i + 1)

theorem write_source_ofPieces (i : Nat) (ps : List Piece) :
    (ofPieces present i ps).write Slot.source = ps.flatMap Piece.source := by
  induction ps generalizing i with
  | nil => rfl
  | cons p ps ih =>
    rw [List.flatMap_cons, ← ih (i + 1)]
    cases p with
    | char ch => exact write_push _ _ _
    | slot inner =>
      rw [ofPieces]
      split
      · exact write_gap _ _ _
      · exact write_push _ _ _

variable {present} {a : Ambient} {c : Context}

theorem renderPieces_eq {i : Nat} {ps : List Piece} (h : c.Offers present (slotsFrom i ps)) :
    renderPieces a c i ps = (ofPieces present i ps).write (Slot.filling a c) := by
  induction ps generalizing i with
  | nil => rfl
  | cons p ps ih =>
    cases p with
    | char ch =>
      rw [renderPieces, ofPieces, write_push, ih h]
      rfl
    | slot inner =>
      have hrest := ih fun k hk => h k (List.mem_cons_of_mem _ hk)
      have hvalue := Expression.isSome_value? (h _ List.mem_cons_self) (a.child i)
      rw [renderPieces, ofPieces, hrest, Slot.render_eq a c ⟨i, inner⟩, Slot.value?, hvalue]
      split
      · exact (write_gap _ _ _).symm
      · exact (write_push _ _ _).symm

end Outline

theorem toList_renderText {text : String} {present : Expression → Bool} {a : Ambient} {c : Context}
    (h : c.Offers present (slots text)) :
    (renderText a c text).toList =
      (Outline.ofPieces present 0 (pieces text.toList)).write (Slot.filling a c) := by
  rw [renderText, String.toList_ofList, renderChars, Outline.renderPieces_eq h]

theorem write_source (present : Expression → Bool) (text : String) :
    (Outline.ofPieces present 0 (pieces text.toList)).write Slot.source = text.toList := by
  rw [Outline.write_source_ofPieces, flatMap_source_pieces]

/-- A text none of whose slots has a value stays as it is. -/
theorem renderText_of_none {text : String} {a : Ambient} {c : Context}
    (h : ∀ k ∈ slots text, k.value? a c = none) : renderText a c text = text := by
  -- the outline for the values that there are has no gaps
  let present (e : Expression) : Bool := (c.text? e).isSome
  have hoffers : c.Offers present (slots text) := fun k _ _ => rfl
  have hslots : (Outline.ofPieces present 0 (pieces text.toList)).slots = [] := by
    rw [Outline.slots_ofPieces, List.filter_eq_nil_iff]
    intro k hk
    rw [← Expression.isSome_value? (hoffers k hk) (a.child k.place)]
    have hnone := h k hk
    rw [Slot.value?] at hnone
    simp [hnone]
  have hwrite : (Outline.ofPieces present 0 (pieces text.toList)).write (Slot.filling a c) =
      (Outline.ofPieces present 0 (pieces text.toList)).write Slot.source := by
    apply Outline.write_congr
    intro k hk
    rw [hslots] at hk
    cases hk
  apply String.toList_inj.mp
  rw [toList_renderText hoffers, hwrite, write_source]

/-- **What is put in is not read.**  For each choice of the values that a request may have there is one
outline of a text: pieces of the text, with those slots between them that have a value.  In every context
with just these values, whatever they are, the rendered text is the outline with the values in it, character
by character. -/
theorem renderText_outline (text : String) (present : Expression → Bool) :
    ∃ o : Outline, o.write Slot.source = text.toList ∧
      o.slots = (slots text).filter (fun k => k.expression.hasValue present) ∧
      (∀ a c, c.Offers present (slots text) →
        (∀ k ∈ o.slots, ∃ v, k.value? a c = some v) ∧
        (renderText a c text).toList = o.write (Slot.filling a c)) ∧
      ∀ a c, (∀ k ∈ slots text, k.value? a c = none) → renderText a c text = text := by
  refine ⟨.ofPieces present 0 (pieces text.toList), write_source present text,
    Outline.slots_ofPieces present 0 _, fun a c h => ⟨fun k hk => ?_, toList_renderText h⟩,
    fun a c h => renderText_of_none h⟩
  rw [Outline.slots_ofPieces, List.mem_filter] at hk
  obtain ⟨hmem, hvalue⟩ := hk
  rw [← Expression.isSome_value? (h k hmem) (a.child k.place)] at hvalue
  exact Option.isSome_iff_exists.mp hvalue

/-! ## A value that looks like a slot -/

namespace Puzzle

def text : String := "a{{$params.x}}b{{$query.y}}"

/-- the value of the parameter spells a line break and the slot of the query -/
def context : Context := ⟨[("x", "\n{{$query.y}}")], [], none⟩

def present (e : Expression) : Bool := e = .param "x"

def ambient : Ambient := .ofSeed default 0

theorem slots_text : slots text = [⟨1, "$params.x".toList⟩, ⟨3, "$query.y".toList⟩] := by decide +kernel

theorem param_expression : Slot.expression ⟨1, "$params.x".toList⟩ = .param "x" := rfl

theorem query_expression : Slot.expression ⟨3, "$query.y".toList⟩ = .query "y" := rfl

theorem offers : context.Offers present (slots text) := by
  intro k hk _
  rw [slots_text, List.mem_cons, List.mem_singleton] at hk
  rcases hk with rfl | rfl
  · rw [param_expression]
    decide
  · rw [query_expression]
    decide

theorem value?_default : ∀ k ∈ slots text, k.value? ambient default = none := by
  intro k hk
  rw [slots_text, List.mem_cons, List.mem_singleton] at hk
  rcases hk with rfl | rfl
  · rw [Slot.value?, param_expression]
    rfl
  · rw [Slot.value?, query_expression]
    rfl

end Puzzle

theorem renderText_outline_puzzle :
    ∃ o : Outline, o.write Slot.source = Puzzle.text.toList ∧ o.slots = [⟨1, "$params.x".toList⟩] ∧
      (renderText Puzzle.ambient Puzzle.context Puzzle.text).toList =
        o.write (Slot.filling Puzzle.ambient Puzzle.context) ∧
      renderText Puzzle.ambient default Puzzle.text = Puzzle.text := by
  obtain ⟨o, hsource, hslots, hfilled, hnone⟩ := renderText_outline Puzzle.text Puzzle.present
  have hgaps : o.slots = [⟨1, "$params.x".toList⟩] := by
    rw [hslots, Puzzle.slots_text]
    simp only [List.filter_cons, Puzzle.param_expression, Puzzle.query_expression]
    rfl
  exact ⟨o, hsource, hgaps, (hfilled _ _ Puzzle.offers).2, hnone _ _ Puzzle.value?_default⟩

end CannedApi.Template
