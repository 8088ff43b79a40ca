import CannedApi.Proofs.Route.Segments
import CannedApi.Route.Expansion

/-!
# A literal and a parameter

A file whose name is a literal, a parameter in brackets and the ending has a route of these two segments
(`Scan.route?_param`): no dot in the name makes a part of it a method, and nothing in the literal opens a
bracket before the parameter's.  The route binds what comes after the literal in a path
(`RouteIndex.matchRequest_param`).
-/

namespace CannedApi

/-! ## The route of a file with one parameter -/

namespace Naming

theorem standsNotIn_of_absent {l : List Char} (h : ¬ opening <:+: l) (rest : List Char) :
    Text.StandsNotIn opening l (opening ++ rest) := by
  induction l with
  | nil => trivial
  | cons c l ih =>
    refine ⟨?_, ih fun hin => h (hin.trans (List.infix_cons List.infix_rfl))⟩
    rintro ⟨more, e⟩
    obtain ⟨rfl, hmore⟩ := List.cons.inj e
    cases l with
    | nil => exact absurd (List.cons.inj hmore).1 (by decide)
    | cons d l =>
      obtain ⟨rfl, -⟩ := List.cons.inj hmore
      exact h ⟨[], l, rfl⟩

theorem expandChars_param {l n : List Char} (hl : l ≠ []) (hopen : ¬ ['-', '['] <:+: l) (hn : n ≠ [])
    (hbracket : ']' ∉ n) : expandChars (l ++ '-' :: '[' :: (n ++ [']'])) =
      [.literal (String.ofList l), .param (String.ofList n)] := by
  obtain ⟨c, cs, rfl⟩ := List.exists_cons_of_ne_nil hn
  have hcut : cutBracket (c :: cs ++ [']']) = some (c :: cs, []) := Text.cutFirst_append hbracket []
  have hskip := expandFrom_skip (standsNotIn_of_absent hopen (c :: cs ++ [']'])) []
  refine (hskip.trans (expandFrom_param hcut _)).trans ?_
  rw [List.append_nil, List.reverse_reverse, literalOf, if_neg hl, expandFrom]
  rfl

theorem ofChars?_of_bracket {cs : List Char} (h : cs.getLast? = some ']') : Method.ofChars? cs = none := by
  rw [Method.ofChars?, List.find?_eq_none]
  intro m _ hsame
  -- letters keep being letters in the other case
  have hlast : (cs.map Char.toLower).getLast? = some ']' := by
    rw [List.getLast?_map, h]
    rfl
  rw [sameLetters, beq_iff_eq] at hsame
  rw [← hsame] at hlast
  cases m <;> exact absurd hlast (by decide)

/-- A name that ends in a bracket has no method. -/
theorem splitStem_of_bracket {stem : List Char} (h : stem.getLast? = some ']') :
    splitStem stem = (.get, stem) := by
  unfold splitStem
  cases hcut : Text.cutLast '.' stem with
  | none => rw [ofChars?_of_bracket h]
  | some p =>
    obtain ⟨logical, token⟩ := p
    have hstem := Text.eq_of_cutLast hcut
    have htoken : token.getLast? = some ']' := by
      rw [hstem] at h
      cases token with
      | nil => simp at h
      | cons c token => simpa using h
    simp only [ofChars?_of_bracket htoken]

theorem splitMethod_of_bracket {stem : List Char} (h : stem.getLast? = some ']') {name : String}
    (hname : name.toList = stem ++ ending) : splitMethod name = some (.get, String.ofList stem) := by
  rw [splitMethod_of_ending hname, splitStem_of_bracket h]

end Naming

/-- the name of a file whose route has one parameter, after one literal -/
def paramFileName (l n : String) : String := l ++ "-[" ++ n ++ "].json"

theorem toList_paramFileName (l n : String) : (paramFileName l n).toList =
    l.toList ++ '-' :: '[' :: (n.toList ++ [']']) ++ Naming.ending := by
  simp [paramFileName, Naming.ending]

section
variable {name : FileName} {l n : String}

theorem Scan.route?_param (hname : name.bytes = Utf8.toBytes (paramFileName l n)) (hl : l ≠ "")
    (hopen : ¬ ['-', '['] <:+: l.toList) (hn : n ≠ "") (hbracket : ']' ∉ n.toList) (p : Path) :
    route? "" ⟨[], name, p⟩ = some ⟨.get, [.literal l, .param n], p⟩ := by
  have hne {s : String} (h : s ≠ "") : s.toList ≠ [] := fun e => h (String.toList_inj.mp e)
  have htext : name.text? = some (paramFileName l n) := by
    rw [FileName.text?, hname, Utf8.ofBytes?_toBytes]
  have hlast : (l.toList ++ '-' :: '[' :: (n.toList ++ [']'])).getLast? = some ']' := by
    have hconcat : l.toList ++ '-' :: '[' :: (n.toList ++ [']']) =
        (l.toList ++ '-' :: '[' :: n.toList) ++ [']'] := by simp
    rw [hconcat, List.getLast?_concat]
  have hexpand := Naming.expandChars_param (hne hl) hopen (hne hn) hbracket
  rw [String.ofList_toList, String.ofList_toList] at hexpand
  unfold route?
  simp only [htext, Naming.splitMethod_of_bracket hlast (toList_paramFileName l n)]
  show some (Route.mk .get (Naming.baseSegments [] ++ [] ++ Naming.expand _) p) = _
  rw [Naming.expand, String.toList_ofList, hexpand]
  rfl

theorem Scan.isAnswerName_param (hname : name.bytes = Utf8.toBytes (paramFileName l n)) :
    isAnswerName name = true := by
  have htext : name.text? = some (paramFileName l n) := by
    rw [FileName.text?, hname, Utf8.ofBytes?_toBytes]
  unfold isAnswerName
  rw [htext]
  show (Text.dropTail? Naming.ending (paramFileName l n).toList).isSome = true
  rw [toList_paramFileName, Text.dropTail?_append]
  rfl

end

/-! ## The request -/

theorem RouteIndex.matchRequest_param {l n v w : String} {p : Path} (hl : IsPlain l) (hw : IsPlain w)
    (hv : Percent.text? w = some v) :
    (ofRoutes [⟨.get, [.literal l, .param n], p⟩]).matchRequest "GET" ("/" ++ l ++ "/" ++ w) =
      some ⟨⟨.get, [.literal l, .param n], p⟩, [(n, v)]⟩ := by
  have hroutes : (ofRoutes [⟨.get, [.literal l, .param n], p⟩]).routes =
      [⟨.get, [.literal l, .param n], p⟩] := List.mergeSort_singleton _
  have hpath : "/" ++ l ++ "/" ++ w = pathOf [l, w] := by
    apply String.toList_inj.mp
    simp [pathOf, Text.join]
  have hsplit : splitPath (pathOf [l, w]) = [l, w] := by
    refine splitPath_pathOf fun s hs => ?_
    simp only [List.mem_cons, List.not_mem_nil, or_false] at hs
    rcases hs with rfl | rfl
    · exact hl
    · exact hw
  have hmethod : Method.ofToken? "GET" = some .get := by decide
  have hbind : Pattern.bind [.literal l, .param n] [l, w] [] = some [(n, v)] := by
    rw [Pattern.bind, if_pos rfl, Pattern.bind, if_neg hw.1, decodeSegment, hv]
    rfl
  unfold matchRequest
  rw [hmethod, hpath, hsplit, hroutes]
  show Route.firstMatch _ .get [l, w] = _
  unfold Route.firstMatch
  rw [List.findSome?_cons, Route.matchSegments, if_pos rfl, hbind]
  rfl

end CannedApi
