import CannedApi.Route.Match
import Mathlib.Data.List.Forall2

/-!
# The ranked search is a search in two passes

An index tries its routes in ranked order and takes the first that fits.  All routes that fit one
request have as many segments as its path, so among them only `hasParams` ranks, and ranking is stable:
the answer is the first literal route that fits, in the order in which the routes came, or else the
first one with parameters (`RouteIndex.matchRequest_ofRoutes`).
-/

namespace CannedApi

/-! ## Methods -/

theorem Method.eq_of_sameLetters {m n : Method} {token : List Char}
    (hm : sameLetters m.name.toList token = true) (hn : sameLetters n.name.toList token = true) :
    m = n := by
  simp only [sameLetters, beq_iff_eq] at hm hn
  have h : m.name.toList.map Char.toLower = n.name.toList.map Char.toLower := hm.trans hn.symm
  revert h
  cases m <;> cases n <;> decide

/-- A token names the method whose name it is in some letter case. -/
theorem Method.ofToken?_eq_some_iff {token : String} {m : Method} :
    Method.ofToken? token = some m ↔ sameLetters m.name.toList token.toList = true := by
  have e : ofToken? token = all.find? fun n => sameLetters n.name.toList token.toList := rfl
  rw [e]
  constructor
  · intro h
    have hm := List.find?_some h
    exact hm
  · intro h
    cases hf : all.find? fun n => sameLetters n.name.toList token.toList with
    | none => exact absurd h (by simpa using List.find?_eq_none.mp hf m m.mem_all)
    | some n =>
      have hn := List.find?_some hf
      rw [eq_of_sameLetters hn h]

/-! ## Routes that fit -/

/-- a literal fits its own text only, a parameter any text but the empty one -/
def Segment.Fits : Segment → String → Prop
  | .literal t, s => t = s
  | .param _, s => s ≠ ""

/-- The pattern fits the segments, and binding its parameters on top of `acc` gives `ps`. -/
inductive Pattern.Fills : Pattern → List String → Params → Params → Prop
  | nil {acc : Params} : Fills [] [] acc acc
  | literal {t : String} {p : Pattern} {ss : List String} {acc ps : Params} (h : Fills p ss acc ps) :
    Fills (.literal t :: p) (t :: ss) acc ps
  | param {n s : String} {p : Pattern} {ss : List String} {acc ps : Params} (hs : s ≠ "")
    (h : Fills p ss (acc.put n (decodeSegment s)) ps) : Fills (.param n :: p) (s :: ss) acc ps

theorem Pattern.fills_of_bind {p : Pattern} {ss : List String} {acc ps : Params}
    (h : p.bind ss acc = some ps) : p.Fills ss acc ps := by
  induction p generalizing ss acc with
  | nil =>
    cases ss with
    | nil =>
      cases h
      exact .nil
    | cons s ss => cases h
  | cons seg p ih =>
    cases ss with
    | nil => cases seg <;> cases h
    | cons s ss =>
      cases seg with
      | literal t =>
        rw [bind] at h
        split at h
        · rename_i hts
          subst hts
          exact .literal (ih h)
        · cases h
      | param n =>
        rw [bind] at h
        split at h
        · cases h
        · exact .param ‹_› (ih h)

theorem Pattern.Fills.fits {p : Pattern} {ss : List String} {acc ps : Params} (h : p.Fills ss acc ps) :
    List.Forall₂ Segment.Fits p ss := by
  induction h with
  | nil => exact .nil
  | literal _ ih => exact .cons rfl ih
  | param hs _ ih => exact .cons hs ih

theorem Pattern.isSome_bind {p : Pattern} {ss : List String} {acc : Params} :
    (p.bind ss acc).isSome = true ↔ List.Forall₂ Segment.Fits p ss := by
  constructor
  · intro h
    obtain ⟨ps, hps⟩ := Option.isSome_iff_exists.mp h
    exact (fills_of_bind hps).fits
  · intro h
    induction h generalizing acc with
    | nil => rfl
    | @cons seg s p ss hseg _ ih =>
      cases seg with
      | literal t =>
        rw [bind, if_pos (show t = s from hseg)]
        exact ih
      | param n =>
        rw [bind, if_neg (show ¬ s = "" from hseg)]
        exact ih

namespace Route

/-- the route answers requests with this method and these segments -/
def fits (m : Method) (segments : List String) (r : Route) : Bool :=
  (r.matchSegments m segments).isSome

theorem fits_iff {m : Method} {ss : List String} {r : Route} :
    r.fits m ss = true ↔ r.method = m ∧ List.Forall₂ Segment.Fits r.pattern ss := by
  unfold fits matchSegments
  split
  · rename_i hm
    rw [Pattern.isSome_bind]
    simp [hm]
  · rename_i hm
    simp [hm]

theorem length_eq_of_fits {m : Method} {ss : List String} {r : Route} (h : r.fits m ss = true) :
    r.pattern.length = ss.length :=
  (fits_iff.mp h).2.length_eq

theorem firstMatch_eq_head? (routes : List Route) (m : Method) (ss : List String) :
    firstMatch routes m ss =
      ((routes.filter (fits m ss)).head?).bind fun r =>
        (r.matchSegments m ss).map fun ps => ⟨r, ps⟩ := by
  induction routes with
  | nil => rfl
  | cons r routes ih =>
    cases h : r.matchSegments m ss with
    | none =>
      have hf : r.fits m ss = false := by simp [fits, h]
      rw [List.filter_cons_of_neg (by simp [hf]), ← ih]
      simp [firstMatch, h]
    | some ps =>
      have hf : r.fits m ss = true := by simp [fits, h]
      rw [List.filter_cons_of_pos hf]
      simp [firstMatch, h]

/-- two lists with the same fitting routes give the same answer -/
theorem firstMatch_congr {a b : List Route} {m : Method} {ss : List String}
    (h : a.filter (fits m ss) = b.filter (fits m ss)) : firstMatch a m ss = firstMatch b m ss := by
  rw [firstMatch_eq_head?, firstMatch_eq_head?, h]

theorem firstMatch_eq_none_iff {routes : List Route} {m : Method} {ss : List String} :
    firstMatch routes m ss = none ↔ ∀ r ∈ routes, r.matchSegments m ss = none := by
  simp [firstMatch]

/-! ## The search in two passes -/

/-- the first literal route that fits, or else the first one with parameters that does -/
def literalFirst (routes : List Route) (m : Method) (segments : List String) : Option RouteMatch :=
  (firstMatch (routes.filter fun r => !r.hasParams) m segments).or
    (firstMatch (routes.filter fun r => r.hasParams) m segments)

theorem ranksBefore_of_fits {m : Method} {ss : List String} {a b : Route} (ha : a.fits m ss = true)
    (hb : b.fits m ss = true) : a.ranksBefore b = (!a.hasParams || b.hasParams) := by
  have h : a.pattern.length = b.pattern.length :=
    (length_eq_of_fits ha).trans (length_eq_of_fits hb).symm
  simp [ranksBefore, h]

/-- Where literal routes stand before the others that fit, the first that fits is found in two
passes too. -/
theorem firstMatch_of_ranked {routes : List Route} {m : Method} {ss : List String}
    (h : routes.Pairwise fun a b => a.ranksBefore b = true) :
    firstMatch routes m ss = literalFirst routes m ss := by
  induction routes with
  | nil => rfl
  | cons r routes ih =>
    obtain ⟨hr, hrest⟩ := List.pairwise_cons.mp h
    have ih' := ih hrest
    cases hm : r.matchSegments m ss with
    | none =>
      have e : firstMatch (r :: routes) m ss = firstMatch routes m ss := by simp [firstMatch, hm]
      rw [e, ih']
      cases hp : r.hasParams <;> simp [literalFirst, firstMatch, hp, hm]
    | some ps =>
      have hf : r.fits m ss = true := by simp [fits, hm]
      cases hp : r.hasParams with
      | false => simp [literalFirst, firstMatch, hp, hm]
      | true =>
        -- no literal route that fits can come after one with parameters
        have hnone : firstMatch (routes.filter fun r => !r.hasParams) m ss = none := by
          rw [firstMatch_eq_none_iff]
          intro b hb
          obtain ⟨hmem, hlit⟩ := List.mem_filter.mp hb
          by_contra hne
          have hbf : b.fits m ss = true := Option.isSome_iff_ne_none.mpr hne
          have hrank := hr b hmem
          rw [ranksBefore_of_fits hf hbf, hp] at hrank
          simp at hlit hrank
          rw [hrank] at hlit
          cases hlit
        have e : firstMatch ((r :: routes).filter fun r => !r.hasParams) m ss = none := by
          simpa [hp] using hnone
        unfold literalFirst
        rw [e]
        simp [firstMatch, hp, hm]

/-! ## Ranking is stable -/

/-- Ranking keeps the order of routes none of which must come before another. -/
theorem filter_mergeSort {routes : List Route} {p : Route → Bool}
    (h : ∀ a ∈ routes, ∀ b ∈ routes, p a = true → p b = true → a.ranksBefore b = true) :
    (routes.mergeSort ranksBefore).filter p = routes.filter p := by
  have hpair : (routes.filter p).Pairwise fun a b => a.ranksBefore b = true := by
    refine List.pairwise_of_forall_mem_list fun a ha b hb => ?_
    obtain ⟨ha, hpa⟩ := List.mem_filter.mp ha
    obtain ⟨hb, hpb⟩ := List.mem_filter.mp hb
    exact h a ha b hb hpa hpb
  have hsub : (routes.filter p).Sublist (routes.mergeSort ranksBefore) :=
    List.sublist_mergeSort ranksBefore_trans ranksBefore_total hpair List.filter_sublist
  have hsub' : (routes.filter p).Sublist ((routes.mergeSort ranksBefore).filter p) := by
    have := hsub.filter p
    rwa [List.filter_filter, show (fun a => p a && p a) = p by simp] at this
  have hlen : (routes.filter p).length = ((routes.mergeSort ranksBefore).filter p).length :=
    ((List.mergeSort_perm routes ranksBefore).filter p).length_eq.symm
  exact (hsub'.eq_of_length hlen).symm

theorem literalFirst_mergeSort (routes : List Route) (m : Method) (ss : List String) :
    literalFirst (routes.mergeSort ranksBefore) m ss = literalFirst routes m ss := by
  have key : ∀ q : Bool,
      firstMatch ((routes.mergeSort ranksBefore).filter fun r => r.hasParams == q) m ss =
        firstMatch (routes.filter fun r => r.hasParams == q) m ss := by
    intro q
    apply firstMatch_congr
    rw [List.filter_filter, List.filter_filter]
    apply filter_mergeSort
    intro a _ b _ ha hb
    simp only [Bool.and_eq_true, beq_iff_eq] at ha hb
    rw [ranksBefore_of_fits ha.1 hb.1, ha.2, hb.2]
    cases q <;> rfl
  have hlit := key false
  have hpar := key true
  simp only [beq_false, beq_true] at hlit hpar
  rw [literalFirst, literalFirst, hlit, hpar]

end Route

namespace RouteIndex

/-- **The ranked search is the search in two passes.**  A request gets nothing if no route fits it under
a method that its token names in some letter case; else it gets the first literal route that fits, or else
the first one with parameters, in the order in which the routes came.  The index has each of these routes
as often as they came. -/
theorem matchRequest_ofRoutes (routes : List Route) (token path : String) :
    (ofRoutes routes).matchRequest token path =
        ((Method.ofToken? token).bind fun m => Route.literalFirst routes m (splitPath path)) ∧
      ((ofRoutes routes).matchRequest token path = none ↔
        ∀ m : Method, sameLetters m.name.toList token.toList = true →
          ∀ r ∈ routes, r.matchSegments m (splitPath path) = none) ∧
      (ofRoutes routes).routes.Perm routes := by
  have hperm : (ofRoutes routes).routes.Perm routes := List.mergeSort_perm routes _
  refine ⟨?_, ?_, hperm⟩
  · unfold matchRequest
    cases Method.ofToken? token with
    | none => rfl
    | some m =>
      show Route.firstMatch (ofRoutes routes).routes m (splitPath path) = _
      rw [Route.firstMatch_of_ranked (ofRoutes routes).ranked]
      exact Route.literalFirst_mergeSort routes m (splitPath path)
  · unfold matchRequest
    constructor
    · intro h m hm r hr
      rw [Method.ofToken?_eq_some_iff.mpr hm] at h
      exact Route.firstMatch_eq_none_iff.mp h r (hperm.mem_iff.mpr hr)
    · intro h
      cases ht : Method.ofToken? token with
      | none => rfl
      | some m =>
        refine Route.firstMatch_eq_none_iff.mpr fun r hr => ?_
        exact h m (Method.ofToken?_eq_some_iff.mp ht) r (hperm.mem_iff.mp hr)

end RouteIndex

end CannedApi
