import CannedApi.Proofs.Text.Leftmost
import CannedApi.Template.Copying

/-!
# What the scanner finds

The scanner never cuts a text inside a character, and what it finds are the slots among the pieces of the text
(`scanFrom_eq`).  These are the slots that a search from the left finds: a slot is opening braces, something
without a line break and closing braces (`slotBracket`), and of the slots that start at the same braces the
shortest is taken (`leftmost_spansFrom`).  Copying a text between the offsets found fills it in as its pieces are
filled in (`copyText_eq`).
-/

namespace CannedApi.Template

open Text (BadOffset byteLength sliceFrom sliceTo StandsNotIn Occurrence Leftmost)

theorem opening_ne_nil : opening ≠ [] := List.cons_ne_nil _ _

theorem closing_ne_nil : closing ≠ [] := List.cons_ne_nil _ _

@[simp] theorem byteLength_opening : byteLength opening = 2 := rfl

@[simp] theorem byteLength_closing : byteLength closing = 2 := rfl

@[simp] theorem byteLength_source_slot (inner : List Char) :
    byteLength (Piece.slot inner).source = 2 + byteLength inner + 2 := by
  show byteLength (opening ++ (inner ++ closing)) = _
  simp [Nat.add_assoc]

/-! ## Where a slot closes -/

section
variable {c : Char} {cs rest inner after : List Char}

theorem cutClosing_cons (h : ¬ closing <+: c :: rest) :
    cutClosing (c :: rest) =
      if isLineBreak c then none else (cutClosing rest).map fun p => (c :: p.1, p.2) := by
  rw [cutClosing]
  rintro more rfl rfl
  exact h ⟨more, rfl⟩

theorem cutClosing_missing (h : StandsNotIn closing cs []) : cutClosing cs = none := by
  induction cs with
  | nil => rfl
  | cons c cs ih =>
    have hc : ¬ closing <+: c :: cs := by simpa using h.1
    rw [cutClosing_cons hc, ih h.2]
    simp

theorem cutClosing_found (h : StandsNotIn closing cs (closing ++ after)) :
    cutClosing (cs ++ (closing ++ after)) = if cs.any isLineBreak then none else some (cs, after) := by
  induction cs with
  | nil => rfl
  | cons c cs ih =>
    rw [List.cons_append, cutClosing_cons h.1, ih h.2, List.any_cons]
    cases isLineBreak c <;> cases cs.any isLineBreak <;> rfl

theorem line_of_cutClosing (h : cutClosing cs = some (inner, after)) : ∀ c ∈ inner, isLineBreak c = false := by
  rcases Text.find?_cases closing_ne_nil cs with ⟨-, hnot⟩ | ⟨a, b, rfl, -, hnot⟩
  · rw [cutClosing_missing hnot] at h
    cases h
  · rw [cutClosing_found hnot] at h
    split at h
    · cases h
    · rename_i hany
      cases h
      simpa using hany

/-- The first closing braces come no later than any others. -/
theorem exists_cutClosing (h : ∀ c ∈ inner, isLineBreak c = false) :
    ∃ p, cutClosing (inner ++ (closing ++ after)) = some p ∧ p.1 <+: inner := by
  induction inner with
  | nil => exact ⟨([], after), rfl, List.prefix_rfl⟩
  | cons c inner ih =>
    by_cases hc : closing <+: c :: (inner ++ (closing ++ after))
    · obtain ⟨more, hmore⟩ := hc
      rw [List.cons_append, ← hmore]
      exact ⟨([], more), rfl, List.nil_prefix⟩
    · obtain ⟨p, hp, hprefix⟩ := ih fun d hd => h d (List.mem_cons_of_mem c hd)
      refine ⟨(c :: p.1, p.2), ?_, List.cons_prefix_cons.mpr ⟨rfl, hprefix⟩⟩
      rw [List.cons_append, cutClosing_cons hc, h c List.mem_cons_self, hp]
      rfl

end

theorem closingOffset_eq (cs : List Char) :
    closingOffset cs = .ok ((cutSlot cs).map fun p => byteLength p.1) := by
  cases cs with
  | nil => rfl
  | cons c cs =>
    rw [closingOffset, cutSlot]
    cases hc : isLineBreak c with
    | true => rfl
    | false =>
      have htail : sliceFrom (c :: cs) c.utf8Size = .ok cs := by
        simpa using Text.sliceFrom_append [c] cs
      rw [if_neg Bool.false_ne_true, if_neg Bool.false_ne_true, htail]
      rcases Text.find?_cases closing_ne_nil cs with ⟨hfind, hnot⟩ | ⟨a, b, rfl, hfind, hnot⟩
      · rw [cutClosing_missing hnot]
        simp only [Except.bind, hfind]
        rfl
      · have hinner : sliceTo (c :: (a ++ (closing ++ b))) (c.utf8Size + byteLength a) = .ok (c :: a) :=
          Text.sliceTo_append (c :: a) (closing ++ b)
        rw [cutClosing_found hnot]
        simp only [Except.bind, hfind, hinner, Except.map, List.any_cons, hc, Bool.false_or]
        cases a.any isLineBreak <;> rfl

/-! ## One look -/

section
variable {before rest inner after : List Char}

theorem sliceFrom_opening (before rest : List Char) :
    sliceFrom (before ++ (opening ++ rest)) (byteLength before + 2) = .ok rest := by
  simpa using Text.sliceFrom_append (before ++ opening) rest

theorem lookAt_retry (h : cutSlot rest = none) :
    lookAt (before ++ (opening ++ rest)) (byteLength before) = .ok (.retry (byteLength before + 1)) := by
  rw [lookAt, sliceFrom_opening]
  simp only [Except.bind, closingOffset_eq, h]
  rfl

theorem lookAt_found (h : cutSlot rest = some (inner, after)) :
    lookAt (before ++ (opening ++ rest)) (byteLength before) =
      .ok (.found ⟨byteLength before, byteLength (before ++ (Piece.slot inner).source), String.ofList inner⟩) := by
  have hinner : sliceTo rest (byteLength inner) = .ok inner := by
    rw [eq_of_cutSlot h]
    exact Text.sliceTo_append inner _
  rw [lookAt, sliceFrom_opening]
  simp only [Except.bind, closingOffset_eq, h, Option.map_some, hinner, Except.map, Text.byteLength_append,
    byteLength_source_slot, Nat.add_assoc]

theorem look_done (h : Text.find? opening rest = none) :
    look (before ++ rest) (byteLength before) = .ok .done := by
  rw [look, Text.sliceFrom_append]
  simp only [Except.bind, h]

theorem look_open (before : List Char) {a : List Char}
    (h : Text.find? opening (a ++ (opening ++ rest)) = some (byteLength a)) :
    look (before ++ (a ++ (opening ++ rest))) (byteLength before) =
      lookAt (before ++ a ++ (opening ++ rest)) (byteLength (before ++ a)) := by
  rw [look, Text.sliceFrom_append]
  simp only [Except.bind, h, Text.byteLength_append, List.append_assoc]

end

/-! ## The slots among the pieces -/

section
variable {cs rest inner after : List Char}

theorem pieces_skip (h : StandsNotIn opening cs rest) : pieces (cs ++ rest) = cs.map .char ++ pieces rest := by
  induction cs with
  | nil => rfl
  | cons c cs ih =>
    have hc : ∀ more, c = '{' → cs ++ rest = '{' :: more → False := by
      rintro more rfl hmore
      exact h.1 (hmore ▸ ⟨more, rfl⟩)
    rw [List.cons_append, pieces_char hc, ih h.2]
    rfl

/-- Where no brace opens each character is a piece of its own. -/
theorem pieces_of_not_mem (h : '{' ∉ cs) (rest : List Char) :
    pieces (cs ++ rest) = cs.map .char ++ pieces rest :=
  pieces_skip (Text.standsNotIn_of_not_mem h rest)

theorem spansFrom_chars (i : Nat) (cs : List Char) (ps : List Piece) :
    spansFrom i (cs.map .char ++ ps) = spansFrom (i + byteLength cs) ps := by
  induction cs generalizing i with
  | nil => rfl
  | cons c cs ih =>
    show spansFrom (i + (c.utf8Size + 0)) (cs.map .char ++ ps) = _
    rw [ih]
    simp [Nat.add_assoc]

theorem spansFrom_none (i : Nat) (h : StandsNotIn opening cs []) : spansFrom i (pieces cs) = [] := by
  have hpieces := pieces_skip h
  have hnil : pieces [] = [] := by rw [pieces]
  rw [List.append_nil, hnil] at hpieces
  rw [hpieces, spansFrom_chars]
  rfl

theorem spansFrom_brace (i : Nat) (h : cutSlot rest = none) :
    spansFrom i (pieces (opening ++ rest)) = spansFrom (i + 1) (pieces ('{' :: rest)) :=
  congrArg (spansFrom i) (pieces_brace h)

theorem spansFrom_slot (i : Nat) (h : cutSlot rest = some (inner, after)) :
    spansFrom i (pieces (opening ++ rest)) =
      ⟨i, i + byteLength (Piece.slot inner).source, String.ofList inner⟩ ::
        spansFrom (i + byteLength (Piece.slot inner).source) (pieces after) :=
  congrArg (spansFrom i) (pieces_slot h)

theorem source_of_cutSlot (h : cutSlot rest = some (inner, after)) :
    opening ++ rest = (Piece.slot inner).source ++ after := by
  rw [eq_of_cutSlot h]
  simp [Piece.source, opening]

end

/-! ## The whole search -/

/-- From the end of `before` on the scanner finds the slots among the pieces of `rest`. -/
theorem scanFrom_eq (before rest : List Char) :
    scanFrom (before ++ rest) (byteLength before) = .ok (spansFrom (byteLength before) (pieces rest)) := by
  induction hlength : rest.length using Nat.strongRecOn generalizing before rest with
  | ind n ih =>
    rcases Text.find?_cases opening_ne_nil rest with ⟨hfind, hnot⟩ | ⟨a, b, rfl, hfind, hnot⟩
    · rw [scanFrom_done (look_done hfind), spansFrom_none _ hnot]
    · have hlook := look_open before hfind
      rw [pieces_skip hnot, spansFrom_chars, ← Text.byteLength_append, ← List.append_assoc]
      rw [← List.append_assoc] at hlook
      generalize before ++ a = front at hlook ⊢
      cases hcut : cutSlot b with
      | none =>
        -- the second of the braces may be the first of a slot
        have hlt : ('{' :: b).length < n := by
          rw [← hlength]
          simp [opening]
          omega
        have hrest := ih _ hlt (front ++ ['{']) ('{' :: b) rfl
        rw [Text.byteLength_append, List.append_assoc] at hrest
        rw [lookAt_retry hcut] at hlook
        rw [scanFrom_retry hlook, spansFrom_brace _ hcut]
        exact hrest
      | some p =>
        obtain ⟨inner, after⟩ := p
        have hlt : after.length < n := by
          have := length_lt_of_cutSlot hcut
          rw [← hlength]
          simp
          omega
        have hrest := ih _ hlt (front ++ (Piece.slot inner).source) after rfl
        rw [List.append_assoc, ← source_of_cutSlot hcut, Text.byteLength_append] at hrest
        rw [lookAt_found hcut, Text.byteLength_append] at hlook
        rw [scanFrom_found hlook, hrest, spansFrom_slot _ hcut]
        rfl

/-! ## Slots as brackets -/

/-- A slot is one or more characters without a line break between opening and closing braces. -/
def slotBracket : Text.Bracket where
  opening := opening
  closing := closing
  Holds inner := inner ≠ [] ∧ ∀ c ∈ inner, isLineBreak c = false

def Span.occurrence (k : Span) : Occurrence := ⟨k.start, k.stop, k.inner.toList⟩

theorem occurrence_ofList (start stop : Nat) (inner : List Char) :
    Span.occurrence ⟨start, stop, String.ofList inner⟩ = ⟨start, stop, inner⟩ := by
  rw [Span.occurrence, String.toList_ofList]

section
variable {text before rest inner after : List Char}

theorem starts_of_cutSlot (h : cutSlot rest = some (inner, after)) :
    slotBracket.Starts ('{' :: '{' :: rest) inner := by
  refine ⟨?_, after, ?_⟩
  · unfold cutSlot at h
    split at h
    · cases h
    · split at h
      · cases h
      · rename_i hline
        obtain ⟨p, hp, e⟩ := Option.map_eq_some_iff.mp h
        cases e
        refine ⟨List.cons_ne_nil _ _, fun c hc => ?_⟩
        rcases List.mem_cons.mp hc with rfl | hc
        · exact Bool.eq_false_iff.mpr hline
        · exact line_of_cutClosing hp c hc
  · rw [eq_of_cutSlot h]
    simp [Text.Bracket.around, slotBracket, opening, closing]

theorem exists_cutSlot (h : slotBracket.Starts ('{' :: '{' :: rest) inner) :
    ∃ p, cutSlot rest = some p ∧ p.1 <+: inner := by
  obtain ⟨⟨hne, hline⟩, more, hmore⟩ := h
  have hrest : inner ++ (closing ++ more) = rest := by
    simpa [Text.Bracket.around, slotBracket, opening] using hmore
  cases inner with
  | nil => exact absurd rfl hne
  | cons c inner =>
    obtain ⟨p, hp, hprefix⟩ := exists_cutClosing fun d hd => hline d (List.mem_cons_of_mem c hd)
    refine ⟨(c :: p.1, p.2), ?_, List.cons_prefix_cons.mpr ⟨rfl, hprefix⟩⟩
    rw [← hrest, List.cons_append, cutSlot, hline c List.mem_cons_self, hp]
    rfl

theorem shortest_of_cutSlot {x : List Char} (h : cutSlot rest = some (inner, after))
    (hx : slotBracket.Starts ('{' :: '{' :: rest) x) :
    byteLength (slotBracket.around inner) ≤ byteLength (slotBracket.around x) := by
  obtain ⟨p, hp, more, rfl⟩ := exists_cutSlot hx
  obtain rfl : (inner, after) = p := Option.some.inj (h.symm.trans hp)
  simp only [Text.Bracket.around, Text.byteLength_append]
  omega

theorem leftmost_spansFrom (htext : text = before ++ rest) :
    Leftmost (slotBracket.Occurs text) (byteLength before)
      ((spansFrom (byteLength before) (pieces rest)).map Span.occurrence) := by
  induction rest using pieces_induction generalizing before with
  | nil =>
    rw [List.append_nil] at htext
    rw [pieces, ← htext]
    exact Text.Bracket.leftmost_end opening_ne_nil
  | slot rest inner after h ih =>
    have hafter : text = before ++ (Piece.slot inner).source ++ after := by
      rw [List.append_assoc, ← source_of_cutSlot h]
      exact htext
    have hrest := ih hafter
    rw [Text.byteLength_append] at hrest
    have hfound := Text.Bracket.leftmost_found htext (starts_of_cutSlot h)
      (fun x hx => shortest_of_cutSlot h hx) hrest
    rw [← occurrence_ofList] at hfound
    rw [pieces_slot h]
    exact hfound
  | brace rest h ih =>
    refine Text.Bracket.leftmost_skip htext (fun x hx => ?_) ?_
    · obtain ⟨p, hp, -⟩ := exists_cutSlot hx
      rw [h] at hp
      cases hp
    · have hnext := htext.trans (List.append_cons before '{' _)
      have hrest := ih hnext
      rw [pieces_brace h]
      rwa [Text.byteLength_append] at hrest ⊢
  | char c rest hc ih =>
    refine Text.Bracket.leftmost_skip htext (fun x hx => ?_) ?_
    · obtain ⟨-, more, hmore⟩ := hx
      obtain ⟨rfl, hrest⟩ := List.cons.inj hmore
      exact hc _ rfl hrest.symm
    · have hnext := htext.trans (List.append_cons before c _)
      have hrest := ih hnext
      rw [pieces_char hc]
      rwa [Text.byteLength_append] at hrest ⊢

end

/-! ## The main result -/

theorem isValid_of_occurs {text : String} {o : Occurrence} (h : slotBracket.Occurs text.toList o) :
    ∀ i ∈ [o.start, o.start + 2, o.stop - 2, o.stop], (⟨i⟩ : String.Pos.Raw).IsValid text := by
  obtain ⟨before, rest, htext, ⟨-, after, hafter⟩, hstart, hstop⟩ := h
  have hclosed : before ++ opening ++ o.inner ++ closing <+: text.toList := by
    refine ⟨after, ?_⟩
    rw [htext, ← hafter]
    simp [Text.Bracket.around, slotBracket]
  have hinside := (List.prefix_append _ _).trans hclosed
  have hopened := (List.prefix_append _ _).trans hinside
  have hbefore := (List.prefix_append _ _).trans hopened
  have hlength : byteLength (slotBracket.around o.inner) = 2 + byteLength o.inner + 2 :=
    byteLength_source_slot _
  have hvalid : ∀ {i : Nat} {front : List Char}, front <+: text.toList → i = byteLength front →
      (⟨i⟩ : String.Pos.Raw).IsValid text := by
    rintro i front hfront rfl
    exact Text.isValid_front hfront
  intro i hi
  simp only [List.mem_cons, List.not_mem_nil, or_false] at hi
  rcases hi with rfl | rfl | rfl | rfl
  · exact hvalid hbefore hstart
  · exact hvalid hopened (by simp [hstart])
  · exact hvalid hinside (by simp; omega)
  · exact hvalid hclosed (by simp; omega)

/-- **The scanner finds what a search from the left finds.**  In no text does it cut inside a character.  What
it gives is the one list of slots that do not overlap, of which each is the first to start behind the one before
and the shortest that starts there; a slot and its inside start and end where characters do. -/
theorem scan_leftmost (text : String) :
    scan text = .ok (spans text) ∧
      (∀ found, Leftmost (slotBracket.Occurs text.toList) 0 found ↔
        found = (spans text).map Span.occurrence) ∧
      ∀ k ∈ spans text, ∀ i ∈ [k.start, k.start + 2, k.stop - 2, k.stop],
        (⟨i⟩ : String.Pos.Raw).IsValid text := by
  have hleftmost : Leftmost (slotBracket.Occurs text.toList) 0 ((spans text).map Span.occurrence) :=
    leftmost_spansFrom (List.nil_append _).symm
  refine ⟨scanFrom_eq [] text.toList, fun found => ⟨fun h => ?_, ?_⟩, fun k hk => ?_⟩
  · exact Text.Bracket.leftmost_unique h hleftmost
  · rintro rfl
    exact hleftmost
  · have hoccurs := hleftmost.holds _ (List.mem_map_of_mem hk)
    exact isValid_of_occurs hoccurs

/-! ## Copying between the offsets -/

section
variable (a : Ambient) (c : Context)

theorem copySlot_eq (before inner after : List Char) :
    copySlot a c (before ++ ((Piece.slot inner).source ++ after))
        ⟨byteLength before, byteLength (before ++ (Piece.slot inner).source), String.ofList inner⟩ =
      .ok ((Piece.slot inner).render a c) := by
  rw [copySlot, Piece.render, String.toList_ofList]
  cases (Expression.ofChars inner).value? a c with
  | some v => rfl
  | none => exact Text.slice_append before _ after

/-- From the end of `before` on the text has been copied up to the end of `gap`; what remains are the pieces. -/
theorem copyFrom_spansFrom (ps : List Piece) (before gap : List Char) (i : Nat) :
    copyFrom a c (before ++ (gap ++ ps.flatMap Piece.source)) i (byteLength before)
        (spansFrom (byteLength (before ++ gap)) ps) =
      .ok (gap ++ renderPieces a c (i + gap.length) ps) := by
  induction ps generalizing before gap i with
  | nil => exact Text.sliceFrom_append before (gap ++ [])
  | cons p ps ih =>
    cases p with
    | char ch =>
      -- a character belongs to what is copied with the next slot
      have hlength : byteLength (before ++ (gap ++ [ch])) = byteLength (before ++ gap) + byteLength [ch] := by
        rw [← List.append_assoc, Text.byteLength_append]
      have hrest := ih before (gap ++ [ch]) i
      rw [hlength, List.append_assoc gap, List.append_assoc gap, List.length_append] at hrest
      exact hrest
    | slot inner =>
      have hgap := Text.slice_append before gap ((Piece.slot inner).source ++ ps.flatMap Piece.source)
      have hslot := copySlot_eq (a.child (i + gap.length)) c (before ++ gap) inner (ps.flatMap Piece.source)
      have hrest := ih (before ++ gap ++ (Piece.slot inner).source) [] (i + gap.length + 1)
      rw [List.append_assoc] at hslot
      rw [List.append_nil, List.nil_append, List.append_assoc, List.append_assoc] at hrest
      rw [List.flatMap_cons, spansFrom, copyFrom, hgap]
      simp only [Except.bind]
      rw [← Text.byteLength_append, hslot]
      simp only [hrest]
      rfl

end

/-- **Copying fills in.**  In no text does copying cut inside a character, and it gives the text with its pieces
filled in. -/
theorem copyText_eq (a : Ambient) (c : Context) (s : String) : copyText a c s = .ok (renderText a c s) := by
  have hscan : scan s = .ok (spansFrom 0 (pieces s.toList)) := scanFrom_eq [] s.toList
  have hcopy := copyFrom_spansFrom a c (pieces s.toList) [] [] 0
  rw [flatMap_source_pieces] at hcopy
  have hcopied : copyFrom a c s.toList 0 0 (spansFrom 0 (pieces s.toList)) = .ok (renderChars a c s.toList) :=
    hcopy
  rw [copyText, hscan]
  simp only [Except.bind, hcopied, Except.map]
  rfl

end CannedApi.Template
