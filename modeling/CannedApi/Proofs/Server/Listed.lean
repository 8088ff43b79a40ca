import CannedApi.Proofs.Route.Labels
import CannedApi.Server.Host

/-!
# Listed routes answer

A response that no route answers lists the labels of all routes.  Each of them is a request that has an
answer: the path of a label, cut into segments, fits the route that it shows.  Another route may come first,
with parameters in other places, but it has the same method and as many segments, and a literal route is
answered by none but one with the same pattern (`RouteIndex.listed_answers`).
-/

namespace CannedApi

/-! ## Literal patterns -/

theorem Pattern.eq_map_literal_of_fits {p : Pattern} {ss : List String} (h : List.Forall₂ Segment.Fits p ss)
    (hlit : p.hasParams = false) : p = ss.map Segment.literal := by
  induction h with
  | nil => rfl
  | @cons s t p ss hs _ ih =>
    have hparts : s.isParam = false ∧ Pattern.hasParams p = false := by
      simpa [Pattern.hasParams] using hlit
    cases s with
    | literal u =>
      have hu : u = t := hs
      rw [List.map_cons, ← ih hparts.2, hu]
    | param n => cases hparts.1

theorem Route.pattern_eq_of_literal {r q : Route} {token path : String} (hr : r.Answers token path)
    (hq : q.Answers token path) (hlit : r.hasParams = false) (hlit' : q.hasParams = false) :
    q.pattern = r.pattern := by
  obtain ⟨m, ht, hf⟩ := hr
  obtain ⟨m', ht', hf'⟩ := hq
  rw [Pattern.eq_map_literal_of_fits (Route.fits_iff.mp hf).2 hlit,
    Pattern.eq_map_literal_of_fits (Route.fits_iff.mp hf').2 hlit']

/-- Routes that answer one request have one method and are equally long. -/
theorem Route.Answers.alike {r q : Route} {token path : String} (hr : r.Answers token path)
    (hq : q.Answers token path) : q.method = r.method ∧ q.pattern.length = r.pattern.length := by
  obtain ⟨m, ht, hf⟩ := hr
  obtain ⟨m', ht', hf'⟩ := hq
  rw [ht] at ht'
  cases ht'
  exact ⟨(Route.fits_iff.mp hf').1.trans (Route.fits_iff.mp hf).1.symm,
    (Route.length_eq_of_fits hf').trans (Route.length_eq_of_fits hf).symm⟩

/-! ## What a request of a route gets -/

namespace RouteIndex

variable {index : RouteIndex} {r : Route} {token path : String}

theorem exists_matchRequest (hr : r ∈ index.routes) (h : r.Answers token path) :
    ∃ m, index.matchRequest token path = some m ∧ m.route.Answers token path ∧
      (r.hasParams = false → m.route.hasParams = false) := by
  obtain ⟨m, hm⟩ := Option.ne_none_iff_exists'.mp (matchRequest_ne_none hr h)
  obtain ⟨-, hanswers, hbefore⟩ := of_matchRequest hm
  refine ⟨m, hm, hanswers, fun hlit => ?_⟩
  -- were it one with parameters, the literal route would have been tried before it
  by_contra hpar
  have hlength := (hanswers.alike h).2
  exact hbefore r (mem_triedBefore hr hlength hlit (Bool.not_eq_false _ ▸ hpar)) h

/-- A request without a route gets the list of all labels, and a request spelled as one of them has a
route. -/
theorem exists_serve_of_unmatched {x : Dispatcher} (plain : ∀ r ∈ x.index.routes, r.pattern.Plain)
    {q : HttpRequest} (hq : x.resolve q.method q.target.path = none) (limit : Nat) (d : Disk)
    (a : Template.Ambient) :
    ∃ y, Host.serve limit x d a q = (.notFound q.method q.target.path x.index.labels, y) ∧
      ∀ label ∈ x.index.labels, ∀ p : HttpRequest, HttpRequest.isToken p.method = true →
        s!"{p.method} {p.target.path}" = label →
          ∀ (limit : Nat) (d : Disk) (a : Template.Ambient),
            ∃ result z, y.dispatch d a limit p = (some result, z) := by
  refine ⟨{ x with metrics := x.metrics.countUnmatched q.method }, ?_, ?_⟩
  · simp [Host.serve, Dispatcher.dispatch, hq]
  · rintro label hlabel p hp hspelled limit d a
    obtain ⟨r, hr, rfl⟩ := List.mem_map.mp hlabel
    cases hm : x.index.matchRequest p.method p.target.path with
    | none => exact absurd hspelled.symm (label_ne_of_unmatched plain hp hm r hr)
    | some m =>
      unfold Dispatcher.dispatch Dispatcher.resolve
      rw [hm]
      exact ⟨_, _, rfl⟩

/-- **Listed routes answer.**  A request with the method and the path of a route gets a route with the same
method and as many segments, and with the same pattern if the route has no parameters.  So a response that no
route answers lists labels each of which, taken as a request, is answered. -/
theorem listed_answers {d : Disk} {root : Path} {base : String} {index : RouteIndex}
    (hb : build d root base = .ok index) :
    (∀ r ∈ index.routes, ∃ m, index.matchRequest r.method.name r.path = some m ∧
        m.route.method = r.method ∧ m.route.pattern.length = r.pattern.length ∧
        (r.hasParams = false → m.route.pattern = r.pattern)) ∧
      ∀ (x : Dispatcher) (q : HttpRequest), x.index = index →
        x.resolve q.method q.target.path = none → ∀ (limit : Nat) (d : Disk) (a : Template.Ambient),
          ∃ y, Host.serve limit x d a q = (.notFound q.method q.target.path index.labels, y) ∧
            ∀ label ∈ index.labels, ∀ p : HttpRequest, HttpRequest.isToken p.method = true →
              s!"{p.method} {p.target.path}" = label →
                ∀ (limit : Nat) (d : Disk) (a : Template.Ambient),
                  ∃ result z, y.dispatch d a limit p = (some result, z) := by
  have plain := plain_of_build hb
  constructor
  · intro r hr
    have hself := Route.answers_path (plain r hr)
    obtain ⟨m, hm, hanswers, hlit⟩ := exists_matchRequest hr hself
    obtain ⟨hmethod, hlength⟩ := hself.alike hanswers
    exact ⟨m, hm, hmethod, hlength, fun h => Route.pattern_eq_of_literal hself hanswers h (hlit h)⟩
  · rintro x q rfl hq limit d a
    exact exists_serve_of_unmatched plain hq limit d a

namespace Overlap

def ambient : Template.Ambient := .ofSeed default 0

def request (path : String) : HttpRequest := ⟨"GET", ⟨none, none, path, none⟩, [], []⟩

def dispatcher (index : RouteIndex) : Dispatcher := ⟨.ofText "mocks", "", index, .new false, {}⟩

end Overlap

/-- The label `GET /user/:id` is listed and has an answer: that of `/:kind/:id`, which is tried first. -/
theorem listed_answers_overlap :
    ∃ index, build Overlap.disk (.ofText "mocks") "" = .ok index ∧
      (∃ m, index.matchRequest "GET" "/user/:id" = some m ∧ m.route = Overlap.anyKind ∧
        m.route.method = Overlap.user.method ∧
        m.route.pattern.length = Overlap.user.pattern.length) ∧
      ∃ y result z, Host.serve 0 (Overlap.dispatcher index) Overlap.disk Overlap.ambient
          (Overlap.request "/") = (.notFound "GET" "/" index.labels, y) ∧
        "GET /user/:id" ∈ index.labels ∧
        y.dispatch Overlap.disk Overlap.ambient 0 (Overlap.request "/user/:id") = (some result, z) := by
  obtain ⟨index, hb, hr⟩ := Overlap.build_disk
  obtain ⟨hrequests, hlists⟩ := listed_answers hb
  have huser : Overlap.user ∈ index.routes := by rw [hr]; simp
  have hlabel : "GET /user/:id" ∈ index.labels := List.mem_map.mpr ⟨_, huser, rfl⟩
  have hfirst : (index.matchRequest "GET" "/user/:id").map (·.route) = some Overlap.anyKind := by
    unfold matchRequest
    rw [hr]
    decide
  have hnone : (Overlap.dispatcher index).resolve "GET" "/" = none := by
    show index.matchRequest "GET" "/" = none
    unfold matchRequest
    rw [hr]
    decide
  refine ⟨index, hb, ?_, ?_⟩
  · obtain ⟨m, hm, hmethod, hlength, -⟩ := hrequests _ huser
    have hm' : index.matchRequest "GET" "/user/:id" = some m := hm
    rw [hm'] at hfirst
    exact ⟨m, hm', Option.some.inj hfirst, hmethod, hlength⟩
  · obtain ⟨y, hy, hserves⟩ := hlists (Overlap.dispatcher index) (Overlap.request "/") rfl hnone 0
      Overlap.disk Overlap.ambient
    obtain ⟨result, z, hz⟩ := hserves _ hlabel (Overlap.request "/user/:id") (by decide) rfl 0
      Overlap.disk Overlap.ambient
    exact ⟨y, result, z, hy, hlabel, hz⟩

end RouteIndex

end CannedApi
