import CannedApi.Text.Slice
import CannedApi.Text.Utf8

/-!
# Slots

A slot of a template text is `{{`, one or more characters without a line break, and `}}`.  Slots are
found from the left and do not overlap; a slot ends at the first `}}` behind its first character.
`pieces` cuts a text into its slots and the single characters between them, and writing the pieces one
after the other gives the text again (`flatMap_source_pieces`).
-/

namespace CannedApi.Template

inductive Piece where
  | char (c : Char)
  | slot (inner : List Char)
  deriving DecidableEq, Repr

/-- the text that a piece was cut from -/
def Piece.source : Piece → List Char
  | .char c => [c]
  | .slot inner => '{' :: '{' :: inner ++ ['}', '}']

/-- A character that no slot goes across. -/
def isLineBreak (c : Char) : Bool :=
  c == '\n' || c == '\r' || c.toNat == 0x2028 || c.toNat == 0x2029

/-- the characters before the first `}}` and those after it, unless a line break comes first -/
def cutClosing : List Char → Option (List Char × List Char)
  | [] => none
  | c :: rest =>
    match c, rest with
    | '}', '}' :: after => some ([], after)
    | c, rest => if isLineBreak c then none else (cutClosing rest).map fun p => (c :: p.1, p.2)

/-- the inside of a slot whose braces have been opened, and what follows the slot -/
def cutSlot : List Char → Option (List Char × List Char)
  | [] => none
  | c :: rest => if isLineBreak c then none else (cutClosing rest).map fun p => (c :: p.1, p.2)

theorem eq_of_cutClosing {cs inner after : List Char} (h : cutClosing cs = some (inner, after)) :
    cs = inner ++ '}' :: '}' :: after := by
  induction cs generalizing inner with
  | nil => simp [cutClosing] at h
  | cons c rest ih =>
    unfold cutClosing at h
    split at h
    · simp only [Option.some.injEq, Prod.mk.injEq] at h
      simp [← h.1, ← h.2]
    · split at h
      · cases h
      · simp only [Option.map_eq_some_iff, Prod.mk.injEq] at h
        obtain ⟨⟨a, b⟩, h1, rfl, rfl⟩ := h
        rw [ih h1, List.cons_append]

theorem eq_of_cutSlot {cs inner after : List Char} (h : cutSlot cs = some (inner, after)) :
    cs = inner ++ '}' :: '}' :: after := by
  unfold cutSlot at h
  split at h
  · cases h
  · split at h
    · cases h
    · simp only [Option.map_eq_some_iff, Prod.mk.injEq] at h
      obtain ⟨⟨a, b⟩, h1, rfl, rfl⟩ := h
      rw [eq_of_cutClosing h1, List.cons_append]

theorem length_lt_of_cutSlot {cs inner after : List Char} (h : cutSlot cs = some (inner, after)) :
    after.length < cs.length := by
  rw [eq_of_cutSlot h]
  simp
  omega

/-- The slots of a text and the characters between them. -/
def pieces (cs : List Char) : List Piece :=
  match cs with
  | [] => []
  | '{' :: '{' :: rest =>
    match h : cutSlot rest with
    | some (inner, after) =>
      have := length_lt_of_cutSlot h
      .slot inner :: pieces after
    | none => .char '{' :: pieces ('{' :: rest)
  | c :: rest => .char c :: pieces rest
termination_by cs.length
decreasing_by all_goals simp_wf; try omega

theorem pieces_slot {rest inner after : List Char} (h : cutSlot rest = some (inner, after)) :
    pieces ('{' :: '{' :: rest) = .slot inner :: pieces after := by
  rw [pieces]
  split
  · rename_i inner' after' h'
    rw [h] at h'
    cases h'
    rfl
  · rename_i h'
    rw [h] at h'
    cases h'

theorem pieces_brace {rest : List Char} (h : cutSlot rest = none) :
    pieces ('{' :: '{' :: rest) = .char '{' :: pieces ('{' :: rest) := by
  rw [pieces]
  split
  · rename_i h'
    rw [h] at h'
    cases h'
  · rfl

theorem pieces_char {c : Char} {rest : List Char}
    (h : ∀ more, c = '{' → rest = '{' :: more → False) : pieces (c :: rest) = .char c :: pieces rest := by
  rw [pieces]
  exact h

/-- A text is at its end, or it begins with a slot, with braces that open none, or with another character. -/
@[elab_as_elim]
theorem pieces_induction {P : List Char → Prop} (nil : P [])
    (slot : ∀ rest inner after, cutSlot rest = some (inner, after) → P after → P ('{' :: '{' :: rest))
    (brace : ∀ rest, cutSlot rest = none → P ('{' :: rest) → P ('{' :: '{' :: rest))
    (char : ∀ c rest, (∀ more, c = '{' → rest = '{' :: more → False) → P rest → P (c :: rest))
    (cs : List Char) : P cs :=
  pieces.induct P nil (fun rest inner after h _ ih => slot rest inner after h ih) brace char cs

theorem flatMap_source_pieces (cs : List Char) : (pieces cs).flatMap Piece.source = cs := by
  induction cs using pieces_induction with
  | nil => simp [pieces]
  | slot rest inner after h ih =>
    rw [pieces_slot h, eq_of_cutSlot h]
    simp [ih, Piece.source]
  | brace rest h ih => simp [pieces_brace h, ih, Piece.source]
  | char c rest hc ih => simp [pieces_char hc, ih, Piece.source]

/-! ## Places -/

/-- A slot with the offsets of its ends in the bytes of the text. -/
structure Span where
  start : Nat
  stop : Nat
  inner : String
  deriving DecidableEq, Repr

/-- the slots among the pieces, the first of which starts at `offset` -/
def spansFrom (offset : Nat) : List Piece → List Span
  | [] => []
  | p :: rest =>
    let stop := offset + Text.byteLength p.source
    match p with
    | .char _ => spansFrom stop rest
    | .slot inner => ⟨offset, stop, String.ofList inner⟩ :: spansFrom stop rest

/-- The slots of a text with their places. -/
def spans (text : String) : List Span := spansFrom 0 (pieces text.toList)

end CannedApi.Template
