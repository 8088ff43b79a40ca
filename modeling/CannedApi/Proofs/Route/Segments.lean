import CannedApi.Proofs.Text.Utf8
import CannedApi.Route.Match
import CannedApi.Route.Scan

/-!
# The segments of scanned routes

A route that the scan of a directory gives has plain segments only: their texts are not empty and have
no slash (`RouteIndex.plain_of_build`).  Hence segments of a request, put together as a path, come back
as they were when the path is cut (`splitPath_pathOf`).
-/

namespace CannedApi

/-- not empty, and without a slash -/
def IsPlain (s : String) : Prop := s ≠ "" ∧ '/' ∉ s.toList

/-- the literal, or the name of the parameter -/
def Segment.text : Segment → String
  | .literal t => t
  | .param n => n

/-- all segments have plain texts -/
def Pattern.Plain (p : Pattern) : Prop := ∀ s ∈ p, IsPlain s.text

theorem isPlain_ofList {cs : List Char} : IsPlain (String.ofList cs) ↔ cs ≠ [] ∧ '/' ∉ cs := by
  have h : String.ofList cs = "" ↔ cs = [] := by
    rw [← String.toList_inj]
    simp
  simp [IsPlain, h]

namespace Pattern

theorem plain_nil : Pattern.Plain [] := by
  intro s hs
  cases hs

theorem plain_cons {s : Segment} {p : Pattern} (hs : IsPlain s.text) (hp : p.Plain) :
    Pattern.Plain (s :: p) := by
  intro t ht
  rcases List.mem_cons.mp ht with rfl | ht'
  · exact hs
  · exact hp t ht'

theorem plain_append {p q : Pattern} (hp : p.Plain) (hq : q.Plain) : Pattern.Plain (p ++ q) := by
  intro s hs
  rcases List.mem_append.mp hs with h | h
  · exact hp s h
  · exact hq s h

end Pattern

/-! ## Expansion -/

namespace Naming

theorem plain_literalOf {cs : List Char} (h : '/' ∉ cs) : (literalOf cs).Plain := by
  unfold literalOf
  split
  · exact Pattern.plain_nil
  · rename_i hne
    exact Pattern.plain_cons (isPlain_ofList.mpr ⟨hne, h⟩) Pattern.plain_nil

theorem plain_expandFrom {acc cs : List Char} (ha : '/' ∉ acc) (hc : '/' ∉ cs) :
    (expandFrom acc cs).Plain := by
  induction acc, cs using expandFrom_induction with
  | nil acc =>
    rw [expandFrom]
    exact plain_literalOf (by simpa using ha)
  | param acc rest c name after h ih =>
    have e : rest = (c :: name) ++ ']' :: after := Text.eq_of_cutFirst h
    rw [e] at hc
    simp only [List.mem_cons, List.mem_append, not_or] at hc
    obtain ⟨_, _, ⟨hc1, hc2⟩, _, hafter⟩ := hc
    rw [expandFrom_param h]
    refine Pattern.plain_append (plain_literalOf (by simpa using ha)) ?_
    refine Pattern.plain_cons ?_ (ih (by simp) hafter)
    exact isPlain_ofList.mpr ⟨by simp, by simp [hc1, hc2]⟩
  | opening acc rest h ih =>
    rw [expandFrom_open h]
    simp only [List.mem_cons, not_or] at hc
    exact ih (by simp [ha]) hc.2.2
  | char acc c rest hne ih =>
    rw [expandFrom_char hne]
    simp only [List.mem_cons, not_or] at hc
    exact ih (by simp [hc.1, ha]) hc.2

theorem plain_expand {raw : String} (h : '/' ∉ raw.toList) : (expand raw).Plain :=
  plain_expandFrom (by simp) h

theorem plain_baseSegments (base : List Char) : (baseSegments base).Plain := by
  intro s hs
  obtain ⟨cs, hcs, rfl⟩ := List.mem_map.mp hs
  obtain ⟨hmem, hne⟩ := List.mem_filter.mp hcs
  exact isPlain_ofList.mpr ⟨by simpa using hne, Text.mark_not_mem_pieces '/' base cs hmem⟩

theorem plain_pattern {base : String} {dirs : List String} {logical : String}
    (hd : ∀ dir ∈ dirs, '/' ∉ dir.toList) (hl : '/' ∉ logical.toList) :
    (pattern base dirs logical).Plain := by
  refine Pattern.plain_append (Pattern.plain_append (plain_baseSegments _) ?_) (plain_expand hl)
  intro s hs
  obtain ⟨dir, hdir, hs'⟩ := List.mem_flatMap.mp hs
  exact plain_expand (hd dir hdir) s hs'

/-- the logical name is a part of the file name -/
theorem mem_of_mem_splitMethod {name logical : String} {m : Method} {c : Char}
    (h : splitMethod name = some (m, logical)) (hc : c ∈ logical.toList) : c ∈ name.toList := by
  unfold splitMethod splitChars at h
  obtain ⟨⟨m', cs⟩, hs, he⟩ := Option.map_eq_some_iff.mp h
  obtain ⟨stem, hstem, hsplit⟩ := Option.map_eq_some_iff.mp hs
  have hcs : c ∈ cs := by
    simp only [Prod.mk.injEq] at he
    rw [← he.2] at hc
    simpa using hc
  have hstem' : ∀ x ∈ stem, x ∈ name.toList := by
    unfold Text.dropTail? at hstem
    split at hstem
    · cases hstem
      exact fun x hx => List.mem_of_mem_take hx
    · cases hstem
  refine hstem' c ?_
  unfold splitStem at hsplit
  split at hsplit
  · rename_i l token hcut
    rw [Text.eq_of_cutLast hcut]
    split at hsplit
    · cases hsplit
      exact List.mem_append_left _ hcs
    · cases hsplit
      rwa [Text.eq_of_cutLast hcut] at hcs
  · split at hsplit
    · cases hsplit
      cases hcs
    · cases hsplit
      exact hcs

end Naming

/-! ## Scanned routes -/

theorem FileName.slash_not_mem_display (n : FileName) : '/' ∉ n.display.toList := fun h =>
  n.legal.2.1 (Utf8.mem_of_mem_ofBytesLossy (by decide) (by decide) h)

theorem FileName.slash_not_mem_text {n : FileName} {s : String} (h : n.text? = some s) :
    '/' ∉ s.toList := fun hs =>
  n.legal.2.1 (Utf8.mem_of_mem_ofBytes? (by decide) (by decide) h hs)

theorem Scan.plain_of_route? {base : String} {f : FoundFile} {r : Route}
    (h : route? base f = some r) : r.pattern.Plain := by
  unfold route? at h
  cases hn : f.name.text? with
  | none =>
    rw [hn] at h
    cases h
  | some name =>
    rw [hn] at h
    obtain ⟨⟨m, logical⟩, hsplit, rfl⟩ := Option.map_eq_some_iff.mp h
    refine Naming.plain_pattern ?_ ?_
    · intro dir hdir
      obtain ⟨n, _, rfl⟩ := List.mem_map.mp hdir
      exact n.slash_not_mem_display
    · exact fun hc => FileName.slash_not_mem_text hn (Naming.mem_of_mem_splitMethod hsplit hc)

theorem RouteIndex.plain_of_build {d : Disk} {root : Path} {base : String} {index : RouteIndex}
    (h : build d root base = .ok index) : ∀ r ∈ index.routes, r.pattern.Plain := by
  unfold build at h
  split at h
  · cases hf : Scan.files d root with
    | error e =>
      rw [hf] at h
      cases h
    | ok fs =>
      rw [hf] at h
      cases h
      intro r hr
      obtain ⟨f, _, hroute⟩ := List.mem_filterMap.mp (List.mem_mergeSort.mp hr)
      exact Scan.plain_of_route? hroute
  · cases h
    intro r hr
    cases hr

/-! ## Paths made of segments -/

/-- each segment after a slash; without segments a slash alone -/
def pathOf (segments : List String) : String :=
  String.ofList ('/' :: Text.join '/' (segments.map String.toList))

theorem Text.join_ne_nil {mark : Char} {ps : List (List Char)} (hne : ps ≠ [])
    (h : ∀ p ∈ ps, p ≠ []) : Text.join mark ps ≠ [] := by
  cases ps with
  | nil => exact absurd rfl hne
  | cons p ps =>
    have hp : p ≠ [] := h p List.mem_cons_self
    cases ps with
    | nil => exact hp
    | cons q qs => simp [Text.join]

theorem splitPath_pathOf {ss : List String} (h : ∀ s ∈ ss, IsPlain s) :
    splitPath (pathOf ss) = ss := by
  have hdrop : splitPath (pathOf ss) =
      if Text.join '/' (ss.map String.toList) = [] then []
      else (Text.pieces '/' (Text.join '/' (ss.map String.toList))).map String.ofList := by
    simp [splitPath, pathOf]
  rw [hdrop]
  by_cases hne : ss = []
  · subst hne
    rfl
  · have hparts : ∀ p ∈ ss.map String.toList, p ≠ [] ∧ '/' ∉ p := by
      intro p hp
      obtain ⟨s, hs, rfl⟩ := List.mem_map.mp hp
      exact ⟨fun e => (h s hs).1 (String.toList_inj.mp (by rw [e]; rfl)), (h s hs).2⟩
    have hne' : ss.map String.toList ≠ [] := by simpa using hne
    rw [if_neg (Text.join_ne_nil hne' fun p hp => (hparts p hp).1),
      Text.pieces_join hne' fun p hp => (hparts p hp).2, List.map_map]
    exact (List.map_congr_left fun s _ => String.ofList_toList).trans (List.map_id ss)

end CannedApi
