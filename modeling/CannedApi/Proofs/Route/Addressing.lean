import CannedApi.Proofs.Route.Covering

/-!
# Which routes can be addressed

The literals of a route are compared with the segments of a path as they stand; only the values of parameters
have their escapes undone.  So a route can be asked for by a path as clients write it, with nothing but the
characters that may stand in a path and escapes, if and only if its literals are written so themselves
(`RouteIndex.addressable_iff`).
-/

namespace CannedApi

/-! ## Paths as clients write them -/

namespace Target

/-- may stand in a segment as itself -/
def isSegmentChar (c : Char) : Bool := c.isAlphanum || "-._~!$&'()*+,;=:@".toList.contains c

def isHexChar (c : Char) : Bool := (Text.hexValue? c.toNat).isSome

/-- Slashes, characters that may stand in a segment as themselves, and percent escapes. -/
inductive IsWritten : List Char → Prop
  | nil : IsWritten []
  | slash {cs : List Char} (rest : IsWritten cs) : IsWritten ('/' :: cs)
  | plain {c : Char} {cs : List Char} (h : isSegmentChar c = true) (rest : IsWritten cs) :
      IsWritten (c :: cs)
  | escape {h l : Char} {cs : List Char} (high : isHexChar h = true) (low : isHexChar l = true)
      (rest : IsWritten cs) : IsWritten ('%' :: h :: l :: cs)

theorem ne_slash_of_isHexChar {c : Char} (h : isHexChar c = true) : c ≠ '/' := by
  rintro rfl
  revert h
  decide

theorem ne_slash_of_isSegmentChar {c : Char} (h : isSegmentChar c = true) : c ≠ '/' := by
  rintro rfl
  revert h
  decide

namespace IsWritten

variable {a b cs : List Char}

theorem append (ha : IsWritten a) (hb : IsWritten b) : IsWritten (a ++ b) := by
  induction ha with
  | nil => exact hb
  | slash _ ih => exact .slash ih
  | plain h _ ih => exact .plain h ih
  | escape high low _ ih => exact .escape high low ih

theorem of_slash (h : IsWritten ('/' :: cs)) : IsWritten cs := by
  cases h with
  | slash rest => exact rest
  | plain h _ => exact absurd rfl (ne_slash_of_isSegmentChar h)

theorem of_cons {c : Char} (hc : c ≠ '%') (h : IsWritten (c :: cs)) :
    (c = '/' ∨ isSegmentChar c = true) ∧ IsWritten cs := by
  cases h with
  | slash rest => exact ⟨Or.inl rfl, rest⟩
  | plain h rest => exact ⟨Or.inr h, rest⟩
  | escape _ _ _ => exact absurd rfl hc

theorem join {ps : List (List Char)} (h : ∀ p ∈ ps, IsWritten p) : IsWritten (Text.join '/' ps) := by
  induction ps with
  | nil => exact .nil
  | cons p ps ih =>
    have hp := h p List.mem_cons_self
    have hps := ih fun q hq => h q (List.mem_cons_of_mem p hq)
    cases ps with
    | nil => exact hp
    | cons q qs => exact hp.append (.slash hps)

end IsWritten

end Target

open Target (IsWritten)

/-- No escape is cut in two: each piece between slashes is written as the whole is. -/
theorem Target.IsWritten.of_mem_pieces {cs : List Char} (h : IsWritten cs) :
    ∀ p ∈ Text.pieces '/' cs, IsWritten p := by
  induction h with
  | nil =>
    intro p hp
    rw [List.mem_singleton.mp hp]
    exact .nil
  | @slash cs _ ih =>
    intro p hp
    rw [Text.pieces_cons_mark] at hp
    rcases List.mem_cons.mp hp with rfl | hp'
    · exact .nil
    · exact ih p hp'
  | @plain c cs hc _ ih =>
    obtain ⟨q, qs, hq⟩ := List.exists_cons_of_ne_nil (Text.pieces_ne_nil '/' cs)
    rw [hq] at ih
    rw [Text.pieces_cons_of_ne (ne_slash_of_isSegmentChar hc) hq]
    intro p hp
    rcases List.mem_cons.mp hp with rfl | hp'
    · exact .plain hc (ih q List.mem_cons_self)
    · exact ih p (List.mem_cons_of_mem q hp')
  | @escape hi lo cs high low _ ih =>
    obtain ⟨q, qs, hq⟩ := List.exists_cons_of_ne_nil (Text.pieces_ne_nil '/' cs)
    rw [hq] at ih
    have hlow := Text.pieces_cons_of_ne (ne_slash_of_isHexChar low) hq
    have hhigh := Text.pieces_cons_of_ne (ne_slash_of_isHexChar high) hlow
    rw [Text.pieces_cons_of_ne (by decide) hhigh]
    intro p hp
    rcases List.mem_cons.mp hp with rfl | hp'
    · exact .escape high low (ih q List.mem_cons_self)
    · exact ih p (List.mem_cons_of_mem q hp')

theorem isWritten_of_mem_splitPath {path : String} (h : IsWritten path.toList) :
    ∀ s ∈ splitPath path, IsWritten s.toList := by
  have hrest : IsWritten (if path.toList.head? = some '/' then path.toList.drop 1 else path.toList) := by
    split
    · rename_i hhead
      obtain ⟨cs, hcs⟩ := List.head?_eq_some_iff.mp hhead
      rw [hcs] at h ⊢
      exact h.of_slash
    · exact h
  unfold splitPath
  dsimp only
  generalize (if path.toList.head? = some '/' then path.toList.drop 1 else path.toList) = cs at hrest ⊢
  intro s hs
  by_cases hnil : cs = []
  · rw [if_pos hnil] at hs
    cases hs
  · rw [if_neg hnil] at hs
    obtain ⟨p, hp, rfl⟩ := List.mem_map.mp hs
    rw [String.toList_ofList]
    exact hrest.of_mem_pieces p hp

theorem isWritten_pathOf {ss : List String} (h : ∀ s ∈ ss, IsWritten s.toList) :
    IsWritten (pathOf ss).toList := by
  rw [pathOf, String.toList_ofList]
  refine .slash (IsWritten.join fun p hp => ?_)
  obtain ⟨s, hs, rfl⟩ := List.mem_map.mp hp
  exact h s hs

/-! ## Addresses of routes -/

namespace Pattern

theorem mem_of_literal_mem {p : Pattern} {ss : List String} (h : List.Forall₂ Segment.Fits p ss)
    {t : String} (ht : .literal t ∈ p) : t ∈ ss := by
  induction h with
  | nil => cases ht
  | @cons s u p ss hs _ ih =>
    rcases List.mem_cons.mp ht with rfl | ht'
    · have hu : t = u := hs
      rw [hu]
      exact List.mem_cons_self
    · exact List.mem_cons_of_mem u (ih ht')

theorem isWritten_fill {v : String} (hv : IsWritten v.toList) {p : Pattern}
    (h : ∀ t, .literal t ∈ p → IsWritten t.toList) : ∀ s ∈ p.fill v, IsWritten s.toList := by
  intro s hs
  obtain ⟨seg, hseg, rfl⟩ := List.mem_map.mp hs
  cases seg with
  | literal t => exact h t hseg
  | param n => exact hv

end Pattern

namespace Route

variable {r : Route}

/-- some path as clients write it fits the route -/
def Addressable (r : Route) : Prop :=
  ∃ path : String, IsWritten path.toList ∧ (r.matchSegments r.method (splitPath path)).isSome = true

theorem isWritten_of_addressable (h : r.Addressable) {t : String} (ht : .literal t ∈ r.pattern) :
    IsWritten t.toList := by
  obtain ⟨path, hpath, hfits⟩ := h
  have hsegments := (fits_iff (m := r.method).mp hfits).2
  exact isWritten_of_mem_splitPath hpath t (Pattern.mem_of_literal_mem hsegments ht)

theorem addressable_of_isWritten (hplain : r.pattern.Plain)
    (h : ∀ t, .literal t ∈ r.pattern → IsWritten t.toList) : r.Addressable := by
  have hvalue : IsPlain "x" := by
    constructor <;> decide
  have hwritten : IsWritten "x".toList := .plain (by decide) .nil
  refine ⟨pathOf (r.pattern.fill "x"), isWritten_pathOf (Pattern.isWritten_fill hwritten h), ?_⟩
  rw [splitPath_pathOf (Pattern.isPlain_fill hvalue hplain)]
  exact (fits_iff (m := r.method)).mpr ⟨rfl, Pattern.fits_fill hvalue.1 r.pattern⟩

end Route

namespace RouteIndex

/-- **A route can be addressed if its literals are written as in a path.**  Some path that has nothing but
slashes, characters that may stand in a segment as themselves and percent escapes fits a route of a directory
if and only if each literal of the route has nothing else. -/
theorem addressable_iff {d : Disk} {root : Path} {base : String} {index : RouteIndex}
    (hb : build d root base = .ok index) {r : Route} (hr : r ∈ index.routes) :
    (∃ path : String, IsWritten path.toList ∧
        (r.matchSegments r.method (splitPath path)).isSome = true) ↔
      ∀ t, .literal t ∈ r.pattern → IsWritten t.toList :=
  ⟨fun h _ ht => Route.isWritten_of_addressable h ht,
    Route.addressable_of_isWritten (plain_of_build hb r hr)⟩

/-! ## A name with a space -/

namespace Spaced

open Overlap (mocks)

def bare : FileName := ⟨Utf8.toBytes "a b.json", by decide⟩
def escaped : FileName := ⟨Utf8.toBytes "a%20b-[id].json", by decide⟩

/-- a name with a space as it is, and one with an escape in its place -/
def disk : Disk :=
  ((Disk.empty.put [mocks] (.directory .directory)).put [mocks, bare] (.file .file [])).put
    [mocks, escaped] (.file .file [])

def bareRoute : Route := ⟨.get, [.literal "a b"], .ofText "mocks/a b.json"⟩

def escapedRoute : Route := ⟨.get, [.literal "a%20b", .param "id"], .ofText "mocks/a%20b-[id].json"⟩

/-- The longer route is tried first, although its file comes second. -/
theorem sorted_routes : [bareRoute, escapedRoute].mergeSort Route.ranksBefore = [escapedRoute, bareRoute] := by
  refine List.Perm.eq_of_pairwise (fun r q hr hq hrq hqr => ?_)
    (List.pairwise_mergeSort Route.ranksBefore_trans Route.ranksBefore_total _) (by decide)
    ((List.mergeSort_perm _ _).trans (.swap _ _ _))
  simp only [List.mem_mergeSort, List.mem_cons, List.not_mem_nil, or_false] at hr hq
  rcases hr with rfl | rfl <;> rcases hq with rfl | rfl
  · cases hrq
  · rfl
  · rfl
  · cases hqr

theorem build_disk : ∃ index, build disk (.ofText "mocks") "" = .ok index ∧
    index.routes = [escapedRoute, bareRoute] := by
  have hgives : disk.Gives (.ofText "mocks") [bare, escaped] := ⟨[mocks], .directory, rfl, rfl, .refl _⟩
  have hstat : ∀ n ∈ [bare, escaped], disk.stat ((Path.ofText "mocks").join n) = .ok .file :=
    List.forall_mem_cons.mpr ⟨rfl, List.forall_mem_singleton.mpr rfl⟩
  exact ⟨ofRoutes [bareRoute, escapedRoute], build_of_gives hgives (by decide) hstat (by decide +kernel),
    sorted_routes⟩

theorem isWritten_escaped : IsWritten "a%20b".toList :=
  .plain (by decide) (.escape (by decide) (by decide) (.plain (by decide) .nil))

theorem not_isWritten_bare : ¬ IsWritten "a b".toList := by
  intro h
  have hspace := (IsWritten.of_cons (by decide) (IsWritten.of_cons (c := 'a') (by decide) h).2).1
  revert hspace
  decide

end Spaced

/-- The name with the escape can be asked for, and the one with the space cannot. -/
theorem addressable_iff_spaced :
    ∃ index, build Spaced.disk (.ofText "mocks") "" = .ok index ∧
      (∃ path : String, IsWritten path.toList ∧
        (Spaced.escapedRoute.matchSegments .get (splitPath path)).isSome = true) ∧
      ¬ ∃ path : String, IsWritten path.toList ∧
        (Spaced.bareRoute.matchSegments .get (splitPath path)).isSome = true := by
  obtain ⟨index, hb, hr⟩ := Spaced.build_disk
  have hescaped : Spaced.escapedRoute ∈ index.routes := by rw [hr]; simp
  have hbare : Spaced.bareRoute ∈ index.routes := by rw [hr]; simp
  refine ⟨index, hb, (addressable_iff hb hescaped).mpr fun t ht => ?_, fun h => ?_⟩
  · obtain rfl : t = "a%20b" := by simpa [Spaced.escapedRoute] using ht
    exact Spaced.isWritten_escaped
  · exact Spaced.not_isWritten_bare ((addressable_iff hb hbare).mp h "a b" (by simp [Spaced.bareRoute]))

/-- No path as clients write it leads to the answer in `a b.json`. -/
theorem not_addressable :
    ¬ ∀ (d : Disk) (root : Path) (base : String) (index : RouteIndex), build d root base = .ok index →
      ∀ r ∈ index.routes, ∃ path : String, IsWritten path.toList ∧
        (r.matchSegments r.method (splitPath path)).isSome = true := by
  intro h
  obtain ⟨index, hb, hr⟩ := Spaced.build_disk
  have hbare : Spaced.bareRoute ∈ index.routes := by rw [hr]; simp
  have haddress : Spaced.bareRoute.Addressable := h _ _ _ index hb _ hbare
  have hliteral : .literal "a b" ∈ Spaced.bareRoute.pattern := by simp [Spaced.bareRoute]
  exact Spaced.not_isWritten_bare (Route.isWritten_of_addressable haddress hliteral)

end RouteIndex

end CannedApi
