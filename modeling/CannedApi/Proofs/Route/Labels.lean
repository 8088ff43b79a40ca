import CannedApi.Proofs.Route.Covering
import CannedApi.Request.Basic

/-!
# Routes answer to their labels

The path of a label shows every segment of the pattern after a slash.  Cut as the path of a request it
gives these segments back, and each of them fits itself: a literal is its own text, and a parameter takes
its name with the colon for a value.  So a request spelled as a label gets an answer
(`RouteIndex.label_ne_of_unmatched`).
-/

namespace CannedApi

/-! ## Paths of patterns -/

theorem Text.join_cons {mark : Char} {p : List Char} {ps : List (List Char)} (h : ps ≠ []) :
    Text.join mark (p :: ps) = p ++ mark :: Text.join mark ps := by
  cases ps with
  | nil => exact absurd rfl h
  | cons q qs => rfl

theorem toList_join_slashes (ss : List String) (hne : ss ≠ []) :
    (String.join (ss.map fun s => "/" ++ s)).toList = '/' :: Text.join '/' (ss.map String.toList) := by
  induction ss with
  | nil => exact absurd rfl hne
  | cons s ss ih =>
    by_cases hs : ss = []
    · subst hs
      simp [String.join, Text.join]
    · have e : String.join ((s :: ss).map fun s => "/" ++ s) =
          "/" ++ s ++ String.join (ss.map fun s => "/" ++ s) := by
        simp
      have hm : ss.map String.toList ≠ [] := by simpa using hs
      rw [e, String.toList_append, ih hs, List.map_cons, Text.join_cons hm]
      simp

theorem Pattern.display_eq_pathOf (p : Pattern) :
    p.display = pathOf (p.map Segment.display) := by
  cases p with
  | nil => rfl
  | cons s p =>
    rw [← String.toList_inj, pathOf, String.toList_ofList]
    have h := toList_join_slashes ((s :: p).map Segment.display) (by simp)
    rw [List.map_map] at h
    exact h

theorem Segment.isPlain_display {s : Segment} (h : IsPlain s.text) : IsPlain s.display := by
  cases s with
  | literal t => exact h
  | param n =>
    refine ⟨?_, ?_⟩
    · intro e
      have := congrArg String.toList e
      simp [Segment.display] at this
    · have hn : '/' ∉ n.toList := h.2
      simp [Segment.display, hn]

theorem Segment.fits_display {s : Segment} (h : IsPlain s.text) : s.Fits s.display := by
  cases s with
  | literal t => exact rfl
  | param n => exact (Segment.isPlain_display (s := .param n) h).1

theorem Pattern.fits_display {p : Pattern} (h : p.Plain) :
    List.Forall₂ Segment.Fits p (p.map Segment.display) := by
  induction p with
  | nil => exact .nil
  | cons s p ih =>
    exact .cons (Segment.fits_display (h s List.mem_cons_self))
      (ih fun t ht => h t (List.mem_cons_of_mem _ ht))

namespace Route

theorem splitPath_path {r : Route} (h : r.pattern.Plain) :
    splitPath r.path = r.pattern.map Segment.display := by
  have hplain : ∀ s ∈ r.pattern.map Segment.display, IsPlain s := by
    intro s hs
    obtain ⟨seg, hseg, rfl⟩ := List.mem_map.mp hs
    exact Segment.isPlain_display (h seg hseg)
  rw [path, Pattern.display_eq_pathOf, splitPath_pathOf hplain]

theorem answers_path {r : Route} (h : r.pattern.Plain) : r.Answers r.method.name r.path := by
  refine ⟨r.method, Method.ofChars?_name r.method, fits_iff.mpr ⟨rfl, ?_⟩⟩
  rw [splitPath_path h]
  exact Pattern.fits_display h

end Route

/-! ## Labels -/

theorem Method.space_not_mem_name (m : Method) : ' ' ∉ m.name.toList := by cases m <;> decide

theorem toList_spaced (a b : String) : s!"{a} {b}".toList = a.toList ++ ' ' :: b.toList := by
  simp [toString]

/-- what is written before the first space and after it can be told from the whole -/
theorem eq_of_spaced {a b c d : String} (ha : ' ' ∉ a.toList) (hc : ' ' ∉ c.toList)
    (h : s!"{a} {b}" = s!"{c} {d}") : a = c ∧ b = d := by
  have hl : a.toList ++ ' ' :: b.toList = c.toList ++ ' ' :: d.toList := by
    rw [← toList_spaced, ← toList_spaced, h]
  have hp := congrArg (Text.pieces ' ') hl
  rw [Text.pieces_append_mark ha, Text.pieces_append_mark hc, List.cons.injEq] at hp
  rw [hp.1, List.append_cancel_left_eq, List.cons.injEq] at hl
  exact ⟨String.toList_inj.mp hp.1, String.toList_inj.mp hl.2⟩

/-- a method of a request has no space -/
theorem HttpRequest.space_not_mem_of_isToken {s : String} (h : isToken s = true) :
    ' ' ∉ s.toList := by
  intro hs
  have hb : (0x20 : UInt8) ∈ Utf8.toBytes s := by
    obtain ⟨a, b, e⟩ := List.append_of_mem hs
    have hspace : Utf8.encodeChar ' ' = [0x20] := by decide
    have he : Utf8.toBytes s = Utf8.encode a ++ Utf8.encodeChar ' ' ++ Utf8.encode b := by
      show Utf8.encode s.toList = _
      rw [e, Utf8.encode_append, Utf8.encode_cons, List.append_assoc]
    rw [he, hspace]
    simp
  have ht := List.all_eq_true.mp (Bool.and_eq_true_iff.mp h).2 _ hb
  revert ht
  decide

namespace RouteIndex

theorem matchRequest_ne_none {index : RouteIndex} {r : Route} (hr : r ∈ index.routes)
    {token path : String} (h : r.Answers token path) : index.matchRequest token path ≠ none := by
  obtain ⟨m, ht, hf⟩ := h
  unfold matchRequest
  rw [ht]
  intro hnone
  have hm := Route.firstMatch_eq_none_iff.mp hnone r hr
  rw [Route.fits, hm] at hf
  cases hf

theorem matchRequest_eq_none_iff {index : RouteIndex} {token path : String} :
    index.matchRequest token path = none ↔ ∀ r ∈ index.routes, ¬ r.Answers token path := by
  constructor
  · intro hnone r hr h
    exact matchRequest_ne_none hr h hnone
  · intro hnone
    by_contra hsome
    obtain ⟨m, hm⟩ := Option.ne_none_iff_exists'.mp hsome
    obtain ⟨hr, h, -⟩ := of_matchRequest hm
    exact hnone _ hr h

/-- A request that gets no answer is spelled as no label. -/
theorem label_ne_of_unmatched {index : RouteIndex} (plain : ∀ r ∈ index.routes, r.pattern.Plain)
    {method path : String} (hm : HttpRequest.isToken method = true)
    (h : index.matchRequest method path = none) : ∀ r ∈ index.routes, r.label ≠ s!"{method} {path}" := by
  intro r hr e
  obtain ⟨rfl, rfl⟩ := eq_of_spaced r.method.space_not_mem_name
    (HttpRequest.space_not_mem_of_isToken hm) e
  exact matchRequest_ne_none hr (Route.answers_path (plain r hr)) h

end RouteIndex

end CannedApi
