import CannedApi.Proofs.Route.Walk
import CannedApi.Proofs.Text.Utf8
import CannedApi.Server.Host

/-!
# What the two hosts do with the same answer

Both hosts hand a request to the dispatcher, and what it answers goes out with its status and its body.
Only the standalone router can come between: with cross-origin headers it answers every `OPTIONS` request
before the dispatcher sees it.  `Host.router_agrees_iff` says that this is all in which they differ on
requests that have a route, and that they do differ there: no answer has an empty body.
-/

namespace CannedApi

/-! ## Responses on their way out -/

namespace Response

@[simp] theorem delay_finish (method : String) (r : Response) :
    (r.finish method).delay = r.delay := by
  unfold finish
  split <;> rfl

theorem body_finish_options (r : Response) : (r.finish "OPTIONS").body = r.body := by
  simp [finish]

@[simp] theorem delay_openToAll (r : Response) : r.openToAll.delay = r.delay := rfl

/-- the same but for the headers -/
structure Agrees (a b : Response) : Prop where
  status : a.status = b.status
  body : a.body = b.body

theorem agrees_openToAll (r : Response) : r.openToAll.Agrees r := ⟨rfl, rfl⟩

theorem Agrees.refl (r : Response) : r.Agrees r := ⟨rfl, rfl⟩

end Response

namespace Host

/-- The router answers the request itself and hands it to nobody. -/
def Intercepts (s : Settings) (r : HttpRequest) : Prop := s.cors = true ∧ r.method = "OPTIONS"

variable {s : Settings} {x : Dispatcher} {d : Disk} {a : Template.Ambient} {r : HttpRequest}
  {m : RouteMatch}

theorem serve_of_resolve (limit : Nat) (hm : x.resolve r.method r.target.path = some m) :
    serve limit x d a r =
      (.ofAnswer (x.respond d a m (r.read limit)).1, (x.respond d a m (r.read limit)).2) := by
  simp [serve, Dispatcher.dispatch, hm]

theorem layer_of_resolve (henable : s.enable = true)
    (hm : x.resolve r.method r.target.path = some m) (next : HttpRequest → Response) :
    layer s next x d a r =
      ((Response.ofAnswer (x.respond d a m (r.read s.maxBodySize)).1).finish r.method,
        (x.respond d a m (r.read s.maxBodySize)).2) := by
  simp [layer, Dispatcher.dispatch, henable, hm]

/-- A router that does not intercept serves the request; it may add headers. -/
theorem router_of_not_intercepts (h : ¬ Intercepts s r) :
    ((router s x d a r).1.Agrees ((serve s.maxBodySize x d a r).1.finish r.method)) ∧
      (router s x d a r).1.delay = (serve s.maxBodySize x d a r).1.delay ∧
      (router s x d a r).2 = (serve s.maxBodySize x d a r).2 := by
  unfold router
  by_cases hcors : s.cors = true
  · have hmethod : ¬ r.method = "OPTIONS" := fun e => h ⟨hcors, e⟩
    rw [if_pos hcors, if_neg hmethod]
    exact ⟨Response.agrees_openToAll _, by simp, rfl⟩
  · rw [if_neg hcors]
    exact ⟨.refl _, by simp, rfl⟩

theorem router_of_intercepts (h : Intercepts s r) : router s x d a r = (.allowAll, x) := by
  unfold router
  rw [if_pos h.1, if_pos h.2]

theorem agrees_of_not_intercepts (henable : s.enable = true)
    (hm : x.resolve r.method r.target.path = some m) (next : HttpRequest → Response)
    (h : ¬ Intercepts s r) :
    (router s x d a r).1.Agrees (layer s next x d a r).1 ∧
      (router s x d a r).1.delay = (layer s next x d a r).1.delay ∧
      (router s x d a r).2 = (layer s next x d a r).2 := by
  have hr := router_of_not_intercepts (x := x) (d := d) (a := a) h
  rw [serve_of_resolve s.maxBodySize hm] at hr
  rw [layer_of_resolve henable hm next]
  obtain ⟨hagrees, hdelay, hafter⟩ := hr
  exact ⟨hagrees, by rw [hdelay, Response.delay_finish], hafter⟩

theorem not_agrees_of_intercepts (henable : s.enable = true)
    (hm : x.resolve r.method r.target.path = some m) (next : HttpRequest → Response)
    (h : Intercepts s r) : ¬ (router s x d a r).1.Agrees (layer s next x d a r).1 := by
  intro hagrees
  have hbody := hagrees.body
  rw [router_of_intercepts h, layer_of_resolve henable hm next, h.2,
    Response.body_finish_options] at hbody
  exact Json.write_ne_empty _ hbody.symm

/-- **The hosts agree exactly where the router does not intercept.**  A request has a route.  The router
and the layer around the same dispatcher give it the same status and the same body, if and only if it is
not an `OPTIONS` request to a router with cross-origin headers.  Then the delay and what the dispatcher
has kept and counted are the same too; but a router that intercepts leaves the dispatcher unasked. -/
theorem router_agrees_iff (henable : s.enable = true)
    (hm : x.resolve r.method r.target.path = some m) (next : HttpRequest → Response) :
    ((router s x d a r).1.Agrees (layer s next x d a r).1 ↔ ¬ Intercepts s r) ∧
      (¬ Intercepts s r → (router s x d a r).1.delay = (layer s next x d a r).1.delay ∧
        (router s x d a r).2 = (layer s next x d a r).2) ∧
      (Intercepts s r → router s x d a r = (.allowAll, x)) := by
  refine ⟨⟨fun hagrees h => ?_, fun h => ?_⟩, fun h => ?_, router_of_intercepts⟩
  · exact not_agrees_of_intercepts henable hm next h hagrees
  · exact (agrees_of_not_intercepts henable hm next h).1
  · exact (agrees_of_not_intercepts henable hm next h).2

/-! ## An answer to `OPTIONS` -/

namespace Preflight

theorem mocks_legal : IsFileName (Utf8.toBytes "mocks") := by decide

def mocks : FileName := ⟨_, mocks_legal⟩
def answer : FileName := ⟨Utf8.toBytes "a.options.json", by decide⟩

/-- a directory with an answer to `OPTIONS /a` -/
def disk : Disk :=
  (Disk.empty.put [mocks] (.directory .directory)).put [mocks, answer]
    (.file .file (Utf8.toBytes "\x7b\"x\":1\x7d"))

def settings : Settings := { mockDir := .ofText "mocks" }

def ambient : Template.Ambient := .ofSeed default 0

def route : Route := ⟨.options, [.literal "a"], .ofText "mocks/a.options.json"⟩

/-- `/a` with a method spelled in some way -/
def request (method : String) : HttpRequest := ⟨method, ⟨none, none, "/a", none⟩, [], []⟩

def next (_ : HttpRequest) : Response := .plainText "next"

theorem build_disk : RouteIndex.build disk settings.mockDir settings.normalBase =
    .ok (.ofRoutes [route]) := by
  have hgives : disk.Gives settings.mockDir [answer] := ⟨[mocks], .directory, rfl, rfl, .refl _⟩
  have hstat : ∀ n ∈ [answer], disk.stat (settings.mockDir.join n) = .ok .file :=
    List.forall_mem_singleton.mpr rfl
  exact RouteIndex.build_of_gives hgives (List.pairwise_singleton _ _) hstat (by decide +kernel)

theorem new_disk : ∃ x, Dispatcher.new settings disk = .ok x ∧
    x.resolve "OPTIONS" "/a" = some ⟨route, []⟩ ∧ x.resolve "options" "/a" = some ⟨route, []⟩ := by
  unfold Dispatcher.new
  rw [build_disk]
  have hroutes : (RouteIndex.ofRoutes [route]).routes = [route] := List.mergeSort_singleton _
  refine ⟨_, rfl, ?_, ?_⟩
  · show (RouteIndex.ofRoutes [route]).matchRequest "OPTIONS" "/a" = _
    unfold RouteIndex.matchRequest
    rw [hroutes]
    decide
  · show (RouteIndex.ofRoutes [route]).matchRequest "options" "/a" = _
    unfold RouteIndex.matchRequest
    rw [hroutes]
    decide

end Preflight

/-- `OPTIONS` is intercepted, but `options`, which has the same route, is not. -/
theorem router_agrees_iff_preflight :
    ∃ x, Dispatcher.new Preflight.settings Preflight.disk = .ok x ∧
      (¬ (router Preflight.settings x Preflight.disk Preflight.ambient
          (Preflight.request "OPTIONS")).1.Agrees
        (layer Preflight.settings Preflight.next x Preflight.disk Preflight.ambient
          (Preflight.request "OPTIONS")).1) ∧
      (router Preflight.settings x Preflight.disk Preflight.ambient
          (Preflight.request "options")).1.Agrees
        (layer Preflight.settings Preflight.next x Preflight.disk Preflight.ambient
          (Preflight.request "options")).1 := by
  obtain ⟨x, hx, hupper, hlower⟩ := Preflight.new_disk
  refine ⟨x, hx, ?_, ?_⟩
  · rw [(router_agrees_iff (r := Preflight.request "OPTIONS") rfl hupper Preflight.next).1]
    exact not_not_intro ⟨rfl, rfl⟩
  · refine (router_agrees_iff (r := Preflight.request "options") rfl hlower Preflight.next).1.mpr ?_
    exact fun h => absurd h.2 (by decide)

/-- A request that has a route can get another response from the router than from the layer. -/
theorem not_router_agrees :
    ¬ ∀ (s : Settings) (d : Disk) (x : Dispatcher), s.enable = true → Dispatcher.new s d = .ok x →
      ∀ (a : Template.Ambient) (r : HttpRequest) (m : RouteMatch) (next : HttpRequest → Response),
        x.resolve r.method r.target.path = some m →
          (router s x d a r).1.Agrees (layer s next x d a r).1 := by
  intro h
  obtain ⟨x, hx, hupper, -⟩ := Preflight.new_disk
  exact not_agrees_of_intercepts (r := Preflight.request "OPTIONS") rfl hupper Preflight.next
    ⟨rfl, rfl⟩ (h _ _ x rfl hx Preflight.ambient _ _ _ hupper)

end Host

end CannedApi
