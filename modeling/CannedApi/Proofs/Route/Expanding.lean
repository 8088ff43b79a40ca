import CannedApi.Proofs.Text.Leftmost
import CannedApi.Route.Expansion
import Mathlib.Data.List.Chain

/-!
# What a name expands to

Expanding in steps gives what expanding at once gives, whatever the list before it (`finish_eq`).  A name is cut
up in one way: literals in which no parameter starts, and the parameters between them (`Expands`).  All
that is said of the segments follows from it by induction.
-/

namespace CannedApi.Naming

open Text (BadOffset byteLength sliceFrom sliceTo StandsNotIn Occurrence Leftmost)

/-! ## The steps -/

theorem find?_bracket (cs : List Char) :
    Text.find? [']'] cs = (cutBracket cs).map fun p => byteLength p.1 := by
  induction cs with
  | nil => rfl
  | cons c cs ih =>
    rw [Text.find?, ih, cutBracket, cutBracket, Text.cutFirst]
    by_cases hc : c = ']'
    · simp [hc]
    · have hnot : ¬ [']'].isPrefixOf (c :: cs) := by simpa using Ne.symm hc
      rw [if_neg hnot, if_neg hc]
      cases Text.cutFirst ']' cs <;> rfl

theorem opening_ne_nil : opening ≠ [] := List.cons_ne_nil _ _

@[simp] theorem byteLength_opening : byteLength opening = 2 := rfl

theorem flushLiteral_eq (l : List Char) (out : Pattern) : flushLiteral l out = out ++ literalOf l := by
  cases l with
  | nil => exact (List.append_nil out).symm
  | cons c l => rfl

namespace Expanding

variable {s : Expanding} {l rest name after : List Char}

theorem stepAt_open (h : ∀ c name after, cutBracket rest ≠ some (c :: name, after))
    (hrest : s.rest = l ++ (opening ++ rest)) :
    s.stepAt (byteLength l) rest = .ok { s with literal := s.literal ++ (l ++ opening), rest } := by
  have hfront : sliceTo s.rest (byteLength l + 2) = .ok (l ++ opening) := by
    rw [hrest, ← List.append_assoc, ← byteLength_opening, ← Text.byteLength_append]
    exact Text.sliceTo_append (l ++ opening) rest
  rw [stepAt, find?_bracket]
  cases hcut : cutBracket rest with
  | none =>
    show (sliceTo s.rest (byteLength l + 2)).map _ = _
    rw [hfront]
    rfl
  | some p =>
    obtain ⟨name, after⟩ := p
    cases name with
    | nil =>
      show (sliceTo s.rest (byteLength l + 2)).map _ = _
      rw [hfront]
      rfl
    | cons c name => exact absurd hcut (h c name after)

theorem stepAt_param {c : Char} (h : cutBracket rest = some (c :: name, after))
    (hrest : s.rest = l ++ (opening ++ rest)) :
    s.stepAt (byteLength l) rest = .ok
      { literal := []
        out := s.out ++ (literalOf (s.literal ++ l) ++ [.param (String.ofList (c :: name))])
        rest := after } := by
  obtain ⟨n, hn⟩ := Text.exists_byteLength_cons c name
  have hfront : sliceTo s.rest (byteLength l) = .ok l := by
    rw [hrest]
    exact Text.sliceTo_append l _
  have hparts := Text.eq_of_cutFirst h
  have hname : sliceTo rest (n + 1) = .ok (c :: name) := by
    rw [hparts, ← hn]
    exact Text.sliceTo_append (c :: name) _
  have hafter : sliceFrom rest (n + 1 + 1) = .ok after := by
    have hlength : byteLength (c :: name ++ [']']) = n + 1 + 1 := by
      rw [Text.byteLength_append, hn]
      rfl
    rw [hparts, List.append_cons, ← hlength]
    exact Text.sliceFrom_append _ after
  rw [stepAt, find?_bracket, h]
  simp only [Option.map_some, hn, hfront, hname, hafter, Except.bind, Except.map, flushLiteral_eq,
    List.append_assoc]

theorem step_eq (hrest : s.rest = l ++ (opening ++ rest))
    (hfind : Text.find? opening s.rest = some (byteLength l)) :
    s.step = (s.stepAt (byteLength l) rest).map some := by
  have hafter : sliceFrom s.rest (byteLength l + 2) = .ok rest := by
    rw [hrest, ← List.append_assoc, ← byteLength_opening, ← Text.byteLength_append]
    exact Text.sliceFrom_append (l ++ opening) rest
  rw [step, hfind]
  simp only [hafter, Except.bind]

/-- The steps give what expanding at once gives. -/
theorem finish_eq (s : Expanding) : s.finish = .ok (s.out ++ expandFrom s.literal.reverse s.rest) := by
  induction hlength : s.rest.length using Nat.strongRecOn generalizing s with
  | ind n ih =>
    rcases Text.find?_cases opening_ne_nil s.rest with ⟨hfind, hnot⟩ | ⟨l, rest, hrest, hfind, hnot⟩
    · have hstep : s.step = .ok none := by rw [step, hfind]
      have hskip := expandFrom_skip hnot s.literal.reverse
      rw [List.append_nil] at hskip
      rw [finish_none hstep, flushLiteral_eq, hskip, expandFrom]
      simp
    · have hskip : expandFrom s.literal.reverse s.rest = expandFrom (s.literal ++ l).reverse ('-' :: '[' :: rest) := by
        rw [hrest, expandFrom_skip hnot, List.reverse_append]
        rfl
      have hlt : rest.length < n := by
        rw [← hlength, hrest]
        simp [opening]
        omega
      have hstep := step_eq hrest hfind
      by_cases hcut : ∃ c name after, cutBracket rest = some (c :: name, after)
      · obtain ⟨c, name, after, hcut⟩ := hcut
        have hlt' := Nat.lt_trans (length_lt_of_cutFirst hcut) hlt
        rw [stepAt_param hcut hrest] at hstep
        rw [finish_some hstep, ih _ hlt' _ rfl, hskip, expandFrom_param hcut]
        simp
      · have hopen : ∀ c name after, cutBracket rest ≠ some (c :: name, after) :=
          fun c name after h => hcut ⟨c, name, after, h⟩
        rw [stepAt_open hopen hrest] at hstep
        rw [finish_some hstep, ih _ hlt _ rfl, hskip, expandFrom_open hopen]
        simp [opening]

end Expanding

theorem expandInto_eq (raw : String) (out : Pattern) : expandInto raw out = .ok (out ++ expand raw) :=
  Expanding.finish_eq _

/-! ## How a name is cut up -/

/-- A parameter in a name: brackets behind a dash, and something between them that closes no bracket. -/
def paramBracket : Text.Bracket where
  opening := opening
  closing := [']']
  Holds name := name ≠ [] ∧ ']' ∉ name

theorem cut_of_starts {rest name : List Char} (h : paramBracket.Starts ('-' :: '[' :: rest) name) :
    ∃ after, cutBracket rest = some (name, after) := by
  obtain ⟨⟨-, hname⟩, after, hafter⟩ := h
  refine ⟨after, ?_⟩
  have hrest : name ++ ']' :: after = rest := by
    simpa [Text.Bracket.around, paramBracket, opening] using hafter
  rw [← hrest]
  exact Text.cutFirst_append hname after

/-- A name and its segments: a parameter ends the literal before it, and within a literal none starts. -/
inductive Expands : List Char → Pattern → Prop where
  | last {l : List Char} (hl : paramBracket.StartsNotIn l []) : Expands l (literalOf l)
  | param {l name rest : List Char} {p : Pattern}
      (hl : paramBracket.StartsNotIn l (paramBracket.around name ++ rest)) (hname : paramBracket.Holds name)
      (hrest : Expands rest p) :
      Expands (l ++ (paramBracket.around name ++ rest)) (literalOf l ++ .param (String.ofList name) :: p)

theorem expands_expandFrom {acc cs : List Char} (h : paramBracket.StartsNotIn acc.reverse cs) :
    Expands (acc.reverse ++ cs) (expandFrom acc cs) := by
  induction acc, cs using expandFrom_induction with
  | nil acc =>
    rw [expandFrom, List.append_nil]
    exact .last h
  | param acc rest c name after hcut ih =>
    have hname : paramBracket.Holds (c :: name) := ⟨List.cons_ne_nil _ _, Text.not_mem_of_cutFirst hcut⟩
    have hrest : '-' :: '[' :: rest = paramBracket.around (c :: name) ++ after := by
      rw [Text.eq_of_cutFirst hcut]
      simp [Text.Bracket.around, paramBracket, opening]
    rw [expandFrom_param hcut]
    rw [hrest] at h ⊢
    exact .param h hname (ih trivial)
  | opening acc rest hcut ih =>
    have hdash : ∀ x, ¬ paramBracket.Starts ('-' :: '[' :: rest) x := by
      intro x hx
      obtain ⟨after, hafter⟩ := cut_of_starts hx
      obtain ⟨c, name, rfl⟩ := List.exists_cons_of_ne_nil hx.1.1
      exact hcut c name after hafter
    have hbracket : ∀ x, ¬ paramBracket.Starts ('[' :: rest) x := by
      rintro x ⟨-, more, hmore⟩
      exact absurd (List.cons.inj hmore).1 (by decide)
    have hstands := (h.concat hdash).concat hbracket
    rw [expandFrom_open hcut]
    simpa using ih (by simpa using hstands)
  | char acc c rest hc ih =>
    have hnot : ∀ x, ¬ paramBracket.Starts (c :: rest) x := by
      rintro x ⟨-, more, hmore⟩
      obtain ⟨rfl, hrest⟩ := List.cons.inj hmore
      exact hc _ rfl hrest.symm
    rw [expandFrom_char hc]
    simpa using ih (by simpa using h.concat hnot)

theorem expands_expand (raw : String) : Expands raw.toList (expand raw) := by
  have hnil : paramBracket.StartsNotIn [].reverse raw.toList := trivial
  exact expands_expandFrom hnil

/-! ## What follows for the segments -/

/-- How a segment is written in a name. -/
def written : Segment → List Char
  | .literal t => t.toList
  | .param n => '-' :: '[' :: (n.toList ++ [']'])

/-- where the parameters are in the name, the first segment of which starts at `offset` -/
def places (offset : Nat) : Pattern → List Occurrence
  | [] => []
  | s :: p =>
    let stop := offset + byteLength (written s)
    match s with
    | .literal _ => places stop p
    | .param n => ⟨offset, stop, n.toList⟩ :: places stop p

/-- What a name expands to. -/
structure IsExpansion (raw : List Char) (p : Pattern) : Prop where
  /-- nothing is lost -/
  exact : p.flatMap written = raw
  literals : ∀ t, .literal t ∈ p → t ≠ "" ∧ ∀ o, ¬ paramBracket.Occurs t.toList o
  params : ∀ n, .param n ∈ p → n ≠ "" ∧ ']' ∉ n.toList
  /-- of two neighbours one is a parameter -/
  apart : p.IsChain fun s t => s.isParam ∨ t.isParam
  /-- The parameters are what a search from the left finds. -/
  leftmost : ∀ found, Leftmost (paramBracket.Occurs raw) 0 found ↔ found = places 0 p

section
variable {l cs name : List Char} {p : Pattern}

theorem mem_literalOf {s : Segment} (h : s ∈ literalOf l) : s = .literal (String.ofList l) ∧ l ≠ [] := by
  unfold literalOf at h
  split at h
  · cases h
  · exact ⟨List.mem_singleton.mp h, ‹_›⟩

theorem flatMap_written_literalOf (l : List Char) (p : Pattern) :
    (literalOf l ++ p).flatMap written = l ++ p.flatMap written := by
  cases l with
  | nil => rfl
  | cons c l => simp [literalOf, written]

theorem places_literalOf (i : Nat) (l : List Char) (p : Pattern) :
    places i (literalOf l ++ p) = places (i + byteLength l) p := by
  cases l with
  | nil => rfl
  | cons c l => simp [literalOf, places, written]

theorem written_param (name : List Char) : written (.param (String.ofList name)) = paramBracket.around name := by
  simp [written, Text.Bracket.around, paramBracket, opening]

theorem Expands.exact (h : Expands cs p) : p.flatMap written = cs := by
  induction h with
  | @last l _ => simpa using flatMap_written_literalOf l []
  | param _ _ _ ih => rw [flatMap_written_literalOf, List.flatMap_cons, written_param, ih]

theorem bare_of_mem_literalOf {rest : List Char} (hl : paramBracket.StartsNotIn l rest) {t : String}
    (ht : .literal t ∈ literalOf l) : t ≠ "" ∧ ∀ o, ¬ paramBracket.Occurs t.toList o := by
  obtain ⟨e, hne⟩ := mem_literalOf ht
  obtain rfl := Segment.literal.inj e
  refine ⟨fun h => hne (String.ofList_eq_empty_iff.mp h), fun o => ?_⟩
  rw [String.toList_ofList]
  exact hl.not_occurs opening_ne_nil

theorem Expands.literals (h : Expands cs p) :
    ∀ t, .literal t ∈ p → t ≠ "" ∧ ∀ o, ¬ paramBracket.Occurs t.toList o := by
  induction h with
  | last hl => exact fun t ht => bare_of_mem_literalOf hl ht
  | param hl _ _ ih =>
    intro t ht
    rcases List.mem_append.mp ht with ht | ht
    · exact bare_of_mem_literalOf hl ht
    · exact ih t (by simpa using ht)

theorem Expands.params (h : Expands cs p) : ∀ n, .param n ∈ p → n ≠ "" ∧ ']' ∉ n.toList := by
  induction h with
  | last =>
    intro n hn
    cases (mem_literalOf hn).1
  | @param l name _ _ _ hname _ ih =>
    intro n hn
    rcases List.mem_append.mp hn with hn | hn
    · cases (mem_literalOf hn).1
    · rcases List.mem_cons.mp hn with e | hn
      · obtain rfl := Segment.param.inj e
        rw [String.toList_ofList]
        exact ⟨fun h => hname.1 (String.ofList_eq_empty_iff.mp h), hname.2⟩
      · exact ih n hn

theorem Expands.apart (h : Expands cs p) : p.IsChain fun s t => s.isParam ∨ t.isParam := by
  induction h with
  | @last l _ =>
    unfold literalOf
    split
    · exact .nil
    · exact .singleton _
  | @param l name _ _ _ _ _ ih =>
    have hparam := ih.cons (x := .param (String.ofList name)) fun _ _ => Or.inl rfl
    unfold literalOf
    split
    · exact hparam
    · exact .cons_cons (Or.inr rfl) hparam

/-- Only one name stands between the brackets at a place. -/
theorem eq_of_starts {rest x : List Char} (hname : paramBracket.Holds name)
    (h : paramBracket.Starts (paramBracket.around name ++ rest) x) : x = name := by
  have htext : paramBracket.around name ++ rest = '-' :: '[' :: (name ++ ']' :: rest) := by
    simp [Text.Bracket.around, paramBracket, opening]
  rw [htext] at h
  obtain ⟨after, hafter⟩ := cut_of_starts h
  have hcut := (Text.cutFirst_append hname.2 rest).symm.trans hafter
  cases hcut
  rfl

theorem Expands.leftmost {text before : List Char} (h : Expands cs p) (htext : text = before ++ cs) :
    Leftmost (paramBracket.Occurs text) (byteLength before) (places (byteLength before) p) := by
  induction h generalizing before with
  | @last l hl =>
    have hplaces := places_literalOf (byteLength before) l []
    rw [List.append_nil] at hplaces
    rw [hplaces]
    have hend : Leftmost (paramBracket.Occurs text) (byteLength text) [] := Text.Bracket.leftmost_end opening_ne_nil
    rw [htext] at hend ⊢
    exact Text.Bracket.leftmost_pass (by rw [List.append_nil]) hl hend
  | @param l name rest p hl hname _ ih =>
    rw [places_literalOf, ← Text.byteLength_append]
    refine Text.Bracket.leftmost_pass htext hl ?_
    rw [← List.append_assoc] at htext
    have hrest := ih (htext.trans (List.append_assoc _ _ _).symm)
    have hstarts : paramBracket.Starts (paramBracket.around name ++ rest) name := ⟨hname, List.prefix_append _ _⟩
    have hshort : ∀ y, paramBracket.Starts (paramBracket.around name ++ rest) y →
        byteLength (paramBracket.around name) ≤ byteLength (paramBracket.around y) := by
      intro y hy
      rw [eq_of_starts hname hy]
    rw [Text.byteLength_append (before ++ l)] at hrest
    have hfound := Text.Bracket.leftmost_found htext hstarts hshort hrest
    rw [places, written_param, String.toList_ofList]
    exact hfound

end

/-- **Expanding a name is exact and loses nothing.**  Whatever the list, the same segments come behind it: written
one after the other they are the name, and they are its parameters, looked for from the left, with the literals
between them.  No other name has these segments. -/
theorem expandInto_exact (raw : String) :
    (∀ out, expandInto raw out = .ok (out ++ expand raw)) ∧ IsExpansion raw.toList (expand raw) ∧
      ∀ other, expand other = expand raw ↔ other = raw := by
  have h := expands_expand raw
  have hleftmost : Leftmost (paramBracket.Occurs raw.toList) 0 (places 0 (expand raw)) :=
    h.leftmost (List.nil_append _).symm
  refine ⟨expandInto_eq raw, ⟨h.exact, h.literals, h.params, h.apart, fun found => ⟨fun hfound => ?_, ?_⟩⟩,
    fun other => ⟨fun heq => ?_, ?_⟩⟩
  · exact Text.Bracket.leftmost_unique hfound hleftmost
  · rintro rfl
    exact hleftmost
  · have hother := (expands_expand other).exact
    rw [heq, h.exact] at hother
    exact String.toList_inj.mp hother.symm
  · rintro rfl
    rfl

end CannedApi.Naming
