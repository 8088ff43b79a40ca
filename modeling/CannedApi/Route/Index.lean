import CannedApi.Route.Pattern

/-!
# The index of routes

Routes in the order in which they are tried: longer patterns first, and of equally long ones those
without parameters first.  Routes that this does not tell apart keep the order in which they came.
-/

namespace CannedApi

/-- `a` may be tried before `b` -/
def Route.ranksBefore (a b : Route) : Bool :=
  b.pattern.length < a.pattern.length ||
    (a.pattern.length == b.pattern.length && (!a.hasParams || b.hasParams))

/-- Routes in the order in which they are tried. -/
structure RouteIndex where
  routes : List Route
  ranked : routes.Pairwise fun a b => a.ranksBefore b = true
  deriving DecidableEq

theorem Route.ranksBefore_trans (a b c : Route) (hab : a.ranksBefore b = true)
    (hbc : b.ranksBefore c = true) : a.ranksBefore c = true := by
  unfold ranksBefore at *
  simp only [Bool.or_eq_true, decide_eq_true_eq, Bool.and_eq_true, beq_iff_eq,
    Bool.not_eq_true'] at *
  rcases hab with h | ⟨h, h'⟩ <;> rcases hbc with k | ⟨k, k'⟩
  · left; omega
  · left; omega
  · left; omega
  · refine Or.inr ⟨by omega, ?_⟩
    rcases h' with h' | h'
    · exact Or.inl h'
    · rcases k' with k' | k'
      · rw [h'] at k'
        cases k'
      · exact Or.inr k'

theorem Route.ranksBefore_total (a b : Route) :
    (a.ranksBefore b || b.ranksBefore a) = true := by
  have h : b.pattern.length < a.pattern.length ∨ a.pattern.length < b.pattern.length ∨
      a.pattern.length = b.pattern.length := by omega
  unfold ranksBefore
  rcases h with h | h | h
  · simp [h]
  · simp [h]
  · cases a.hasParams <;> cases b.hasParams <;> simp [h]

namespace RouteIndex

def empty : RouteIndex := ⟨[], List.Pairwise.nil⟩

/-- The routes ranked. -/
def ofRoutes (routes : List Route) : RouteIndex where
  routes := routes.mergeSort Route.ranksBefore
  ranked := List.pairwise_mergeSort Route.ranksBefore_trans Route.ranksBefore_total routes

theorem ofRoutes_nil : ofRoutes [] = empty := by
  simp [ofRoutes, empty]

def size (index : RouteIndex) : Nat := index.routes.length

def labels (index : RouteIndex) : List String := index.routes.map Route.label

end RouteIndex

end CannedApi
