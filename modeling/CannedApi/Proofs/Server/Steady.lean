import CannedApi.Proofs.Route.Building
import CannedApi.Proofs.Route.Covering
import CannedApi.Proofs.Server.Restart

/-!
# While no file changes

As long as no file changes a server has no memory.  A reload finds the routes that are in use already, and
what is kept of an answer is what is in its file, so each reply follows from the files, the routes and the
action itself (`Site.run_steady`).  It makes no difference then whether answers are remembered
(`Site.cache_transparent`).
-/

namespace CannedApi

/-! ## Replies without memory -/

/-- the action leaves the files as they are -/
def Action.KeepsFiles : Action → Prop
  | .change _ => False
  | _ => True

/-- The answer to a request where every answer is loaded anew. -/
def Dispatcher.freshAnswer (d : Disk) (index : RouteIndex) (a : Template.Ambient) (r : Request) :
    Option Answer :=
  (index.matchRequest r.method r.path).map fun m =>
    answer a m r ((Mock.load d m.route.file).map fun mock => ⟨mock, 0⟩)

/-- The reply where every answer is loaded anew and the routes in use are those that the disk has. -/
def Action.freshReply (d : Disk) (index : RouteIndex) : Action → Reply
  | .change _ => .none
  | .handle a r => .answer (Dispatcher.freshAnswer d index a r)
  | .dispatch a limit r => .answer (Dispatcher.freshAnswer d index a (r.read limit))
  | .reload => .index (.ok index)

/-! ## Files of an index -/

theorem RouteIndex.nodup_files_of_build {d : Disk} {root : Path} {base : String} {index : RouteIndex}
    (h : build d root base = .ok index) : ((index.routes.map Route.file).map Path.parts).Nodup := by
  by_cases hroot : d.isDirectory root = true
  · rw [List.map_map]
    exact (isOf_of_build hroot h).distinct
  · rw [build, if_neg hroot] at h
    cases h
    exact List.nodup_nil

theorem RouteIndex.mem_of_matchRequest {index : RouteIndex} {token path : String} {m : RouteMatch}
    (h : index.matchRequest token path = some m) : m.route ∈ index.routes := by
  have hroute : (index.matchRequest token path).map (·.route) = some m.route := by rw [h]; rfl
  exact (matchRequest_eq_some_iff.mp hroute).1

namespace Dispatcher

/-! ## Steady dispatchers -/

/-- The routes in use are those that the disk has, and what is kept of their answers is what is in their
files. -/
structure Steady (x : Dispatcher) (d : Disk) (index : RouteIndex) : Prop where
  routes : x.index = index
  build : x.build d = .ok index
  kept : x.cache.Faithful d (index.routes.map Route.file)

variable {x : Dispatcher} {c : Settings} {d : Disk} {index : RouteIndex}

theorem steady_new (h : new c d = .ok x) : x.Steady d x.index := by
  obtain ⟨index, hb, rfl⟩ := Except.map_eq_ok_iff.mp h
  exact ⟨rfl, hb, Cache.faithful_new _ _ _⟩

theorem Steady.handle (h : x.Steady d index) (a : Template.Ambient) (r : Request) :
    (x.handle d a r).1 = freshAnswer d index a r ∧ (x.handle d a r).2.Steady d index := by
  have hresolve : x.resolve r.method r.path = index.matchRequest r.method r.path := by
    rw [resolve, h.routes]
  unfold Dispatcher.handle freshAnswer
  rw [hresolve]
  cases hm : index.matchRequest r.method r.path with
  | none => exact ⟨rfl, h.routes, h.build, h.kept⟩
  | some m =>
    have hfile : m.route.file ∈ index.routes.map Route.file :=
      List.mem_map_of_mem (RouteIndex.mem_of_matchRequest hm)
    have hloaded : (x.cache.load d m.route.file).1.map Reading.mock =
        ((Mock.load d m.route.file).map fun mock => ⟨mock, 0⟩).map Reading.mock := by
      rw [h.kept.load_eq hfile]
      cases Mock.load d m.route.file <;> rfl
    have hkept := h.kept.load (RouteIndex.nodup_files_of_build h.build) hfile
    exact ⟨congrArg some (answer_congr hloaded r), h.routes, h.build, hkept⟩

theorem Steady.reload (h : x.Steady d index) :
    (x.reload d).1 = .ok index ∧ (x.reload d).2.Steady d index := by
  unfold Dispatcher.reload
  rw [h.build]
  exact ⟨rfl, rfl, h.build, Cache.faithful_clear _ _ _⟩

end Dispatcher

namespace Site

variable {s : Site} {c : Settings} {d : Disk} {index : RouteIndex}

/-! ## Steady runs -/

structure Steady (s : Site) (d : Disk) (index : RouteIndex) : Prop where
  disk : s.disk = d
  dispatcher : s.dispatcher.Steady d index

theorem steady_start (h : start c d = .ok s) : s.Steady d s.dispatcher.index := by
  obtain ⟨x, hx, rfl⟩ := Except.map_eq_ok_iff.mp h
  exact ⟨rfl, Dispatcher.steady_new hx⟩

theorem step_steady (h : s.Steady d index) {x : Action} (hx : x.KeepsFiles) :
    (s.step x).1 = x.freshReply d index ∧ (s.step x).2.Steady d index := by
  obtain ⟨d', y⟩ := s
  obtain ⟨hdisk, hy⟩ := h
  obtain rfl : d' = d := hdisk
  cases x with
  | change ch => exact hx.elim
  | handle a r =>
    obtain ⟨hanswer, hafter⟩ := hy.handle a r
    exact ⟨congrArg Reply.answer hanswer, rfl, hafter⟩
  | dispatch a limit r =>
    obtain ⟨hanswer, hafter⟩ := hy.handle a (r.read limit)
    exact ⟨congrArg Reply.answer hanswer, rfl, hafter⟩
  | reload =>
    obtain ⟨hreply, hafter⟩ := hy.reload
    exact ⟨congrArg Reply.index hreply, rfl, hafter⟩

/-- While no file changes, every reply is that of a server without memory. -/
theorem run_steady (h : s.Steady d index) {actions : List Action} (hkeep : ∀ x ∈ actions, x.KeepsFiles) :
    (s.run actions).1 = actions.map (Action.freshReply d index) ∧
      (s.run actions).2.Steady d index := by
  induction actions generalizing s with
  | nil => exact ⟨rfl, h⟩
  | cons x rest ih =>
    obtain ⟨hreply, hafter⟩ := step_steady h (hkeep x List.mem_cons_self)
    obtain ⟨hreplies, hlast⟩ := ih hafter fun y hy => hkeep y (List.mem_cons_of_mem x hy)
    rw [run_cons]
    exact ⟨by rw [hreply, hreplies, List.map_cons], hlast⟩

/-! ## Remembered answers do not show -/

/-- What is started, or the failure to start, but for whether answers are remembered. -/
theorem start_cache (c : Settings) (d : Disk) (cache : Bool) :
    (start { c with cache := cache } d).map (fun s => s.dispatcher.index) =
      RouteIndex.build d c.mockDir c.normalBase := by
  have hbuild : RouteIndex.build d { c with cache := cache }.mockDir { c with cache := cache }.normalBase =
      RouteIndex.build d c.mockDir c.normalBase := rfl
  unfold start Dispatcher.new
  rw [hbuild]
  cases RouteIndex.build d c.mockDir c.normalBase <;> rfl

theorem replies_cache (c : Settings) (d : Disk) (cache : Bool) {actions : List Action}
    (hkeep : ∀ x ∈ actions, x.KeepsFiles) :
    (start { c with cache := cache } d).map (fun s => (s.run actions).1) =
      (RouteIndex.build d c.mockDir c.normalBase).map fun index =>
        actions.map (Action.freshReply d index) := by
  rw [← start_cache c d cache]
  cases hs : start { c with cache := cache } d with
  | error e => rfl
  | ok s => exact congrArg Except.ok (run_steady (steady_start hs) hkeep).1

/-- **Remembered answers do not show.**  While no file changes, a server that remembers answers and one
that does not start alike, and then give the same replies to the same requests and reloads, those whose
answers cannot be loaded included. -/
theorem cache_transparent (c : Settings) (d : Disk) {actions : List Action}
    (hkeep : ∀ x ∈ actions, x.KeepsFiles) :
    (start { c with cache := true } d).map (fun s => (s.run actions).1) =
      (start { c with cache := false } d).map fun s => (s.run actions).1 := by
  rw [replies_cache c d true hkeep, replies_cache c d false hkeep]

/-- what is asked of a server while nothing changes -/
def quiet : List Action :=
  [.dispatch ServerRun.Lost.ambient 0 ServerRun.Lost.request,
    .dispatch ServerRun.Lost.ambient 0 ServerRun.Lost.request, .reload,
    .dispatch ServerRun.Lost.ambient 0 ServerRun.Lost.request]

theorem keepsFiles_quiet : ∀ x ∈ quiet, x.KeepsFiles := by simp [quiet, Action.KeepsFiles]

/-- An answer that cannot be loaded is asked for again and again. -/
theorem cache_transparent_failing :
    ∃ s t, start { ServerRun.Lost.settings with cache := true } ServerRun.Lost.full = .ok s ∧
      start { ServerRun.Lost.settings with cache := false } ServerRun.Lost.full = .ok t ∧
      (s.run quiet).1 = (t.run quiet).1 := by
  have hstarts (cache : Bool) :
      ∃ s, start { ServerRun.Lost.settings with cache := cache } ServerRun.Lost.full = .ok s := by
    have h := start_cache ServerRun.Lost.settings ServerRun.Lost.full cache
    rw [ServerRun.Lost.build_full, Except.map_eq_ok_iff] at h
    obtain ⟨s, hs, -⟩ := h
    exact ⟨s, hs⟩
  obtain ⟨s, hs⟩ := hstarts true
  obtain ⟨t, ht⟩ := hstarts false
  have hsame := cache_transparent ServerRun.Lost.settings ServerRun.Lost.full keepsFiles_quiet
  rw [hs, ht] at hsame
  exact ⟨s, t, hs, ht, Except.ok.inj hsame⟩

end Site

end CannedApi
