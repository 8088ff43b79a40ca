import CannedApi.Proofs.Cache.Answers
import CannedApi.Proofs.Server.Reloads
import CannedApi.Server.Run

/-!
# A reload is a restart or nothing

Two dispatchers answer alike, now and after the same actions, if they have the same directory, base and
index and caches that answer alike (`Site.run_alike`); counters do not show in answers.  A reload that
succeeds makes a dispatcher alike to one that is made anew from the same settings, whatever came before; a
reload that fails leaves it as it was but for the counters (`Site.reload_restarts_or_keeps`).
-/

namespace CannedApi

namespace Dispatcher

/-- the same but for the counters, with caches that answer alike -/
structure Alike (x y : Dispatcher) : Prop where
  mockDir : x.mockDir = y.mockDir
  base : x.base = y.base
  index : x.index = y.index
  cache : x.cache.Alike y.cache

variable {x y : Dispatcher} {d : Disk} {a : Template.Ambient} {m : RouteMatch}

/-- What is answered depends on the loaded answer alone, not on when it was read. -/
theorem answer_congr {l l' : Except LoadError Reading} (h : l.map Reading.mock = l'.map Reading.mock)
    (r : Request) : answer a m r l = answer a m r l' := by
  cases l with
  | error e =>
    cases l' with
    | error e' =>
      cases h
      rfl
    | ok reading' => cases h
  | ok reading =>
    cases l' with
    | error e' => cases h
    | ok reading' =>
      have hmock : reading.mock = reading'.mock := Except.ok.inj h
      simp only [answer, hmock]

/-! ## What an operation keeps alike -/

theorem Alike.respond (h : x.Alike y) (d : Disk) (a : Template.Ambient) (m : RouteMatch) (r : Request) :
    (x.respond d a m r).1 = (y.respond d a m r).1 ∧
      (x.respond d a m r).2.Alike (y.respond d a m r).2 := by
  obtain ⟨hloaded, hcache⟩ := h.cache.load d m.route.file
  exact ⟨answer_congr hloaded r, h.mockDir, h.base, h.index, hcache⟩

theorem Alike.resolve (h : x.Alike y) (method path : String) :
    x.resolve method path = y.resolve method path := by
  unfold Dispatcher.resolve
  rw [h.index]

theorem Alike.handle (h : x.Alike y) (d : Disk) (a : Template.Ambient) (r : Request) :
    (x.handle d a r).1 = (y.handle d a r).1 ∧ (x.handle d a r).2.Alike (y.handle d a r).2 := by
  unfold Dispatcher.handle
  rw [h.resolve]
  cases y.resolve r.method r.path with
  | none => exact ⟨rfl, h.mockDir, h.base, h.index, h.cache⟩
  | some m =>
    obtain ⟨hanswer, hafter⟩ := h.respond d a m r
    exact ⟨congrArg some hanswer, hafter⟩

theorem Alike.dispatch (h : x.Alike y) (d : Disk) (a : Template.Ambient) (limit : Nat)
    (r : HttpRequest) : (x.dispatch d a limit r).1 = (y.dispatch d a limit r).1 ∧
      (x.dispatch d a limit r).2.Alike (y.dispatch d a limit r).2 := by
  unfold Dispatcher.dispatch
  rw [h.resolve]
  cases y.resolve r.method r.target.path with
  | none => exact ⟨rfl, h.mockDir, h.base, h.index, h.cache⟩
  | some m =>
    obtain ⟨hanswer, hafter⟩ := h.respond d a m (r.read limit)
    exact ⟨congrArg some hanswer, hafter⟩

theorem Alike.reload (h : x.Alike y) (d : Disk) :
    (x.reload d).1 = (y.reload d).1 ∧ (x.reload d).2.Alike (y.reload d).2 := by
  have hbuild : x.build d = y.build d := by rw [build, build, h.mockDir, h.base]
  unfold Dispatcher.reload
  rw [hbuild]
  cases y.build d with
  | error e => exact ⟨rfl, h.mockDir, h.base, h.index, h.cache⟩
  | ok index => exact ⟨rfl, h.mockDir, h.base, rfl, h.cache.clear⟩

/-! ## What settings fix for good -/

/-- the dispatcher is one for the settings -/
structure MadeFrom (c : Settings) (x : Dispatcher) : Prop where
  mockDir : x.mockDir = c.mockDir
  base : x.base = c.normalBase
  enabled : x.cache.enabled = c.cache

variable {c : Settings}

theorem madeFrom_new (h : new c d = .ok x) : MadeFrom c x := by
  obtain ⟨index, -, rfl⟩ := Except.map_eq_ok_iff.mp h
  exact ⟨rfl, rfl, rfl⟩

theorem MadeFrom.respond (h : MadeFrom c x) (d : Disk) (a : Template.Ambient) (m : RouteMatch)
    (r : Request) : MadeFrom c (x.respond d a m r).2 :=
  ⟨h.mockDir, h.base, (Cache.enabled_load _ _ _).trans h.enabled⟩

theorem MadeFrom.reload (h : MadeFrom c x) (d : Disk) : MadeFrom c (x.reload d).2 := by
  unfold Dispatcher.reload
  cases x.build d with
  | error e => exact ⟨h.mockDir, h.base, h.enabled⟩
  | ok index => exact ⟨h.mockDir, h.base, h.enabled⟩

theorem MadeFrom.build_eq (h : MadeFrom c x) (d : Disk) :
    x.build d = RouteIndex.build d c.mockDir c.normalBase := by
  rw [build, h.mockDir, h.base]

/-- A reload that succeeds is as good as a new dispatcher. -/
theorem MadeFrom.exists_new_alike (h : MadeFrom c x) {index : RouteIndex}
    (hb : RouteIndex.build d c.mockDir c.normalBase = .ok index) :
    (x.reload d).1 = .ok index ∧ ∃ y, new c d = .ok y ∧ (x.reload d).2.Alike y := by
  unfold Dispatcher.reload new
  rw [h.build_eq, hb]
  refine ⟨rfl, _, rfl, h.mockDir, h.base, rfl, ?_⟩
  have hcache := Cache.alike_clear_new x.cache
  rw [h.enabled] at hcache
  exact hcache

theorem MadeFrom.reload_of_error (h : MadeFrom c x) {e : ScanError}
    (hb : RouteIndex.build d c.mockDir c.normalBase = .error e) :
    x.reload d = (.error e, x.countReload none) := by
  unfold Dispatcher.reload
  rw [h.build_eq, hb]

end Dispatcher

namespace Site

/-! ## Runs of sites that are alike -/

structure Alike (s t : Site) : Prop where
  disk : s.disk = t.disk
  dispatcher : s.dispatcher.Alike t.dispatcher

variable {s t : Site} {c : Settings}

theorem step_alike (h : s.Alike t) (x : Action) :
    (s.step x).1 = (t.step x).1 ∧ (s.step x).2.Alike (t.step x).2 := by
  obtain ⟨d, y⟩ := s
  obtain ⟨d', y'⟩ := t
  obtain ⟨hdisk, hy⟩ := h
  obtain rfl : d = d' := hdisk
  cases x with
  | change ch =>
    cases hd : d.apply ch with
    | error e =>
      simp only [step, hd]
      exact ⟨trivial, rfl, hy⟩
    | ok d' =>
      simp only [step, hd]
      exact ⟨trivial, rfl, hy⟩
  | handle a r =>
    obtain ⟨hreply, hafter⟩ := hy.handle d a r
    exact ⟨congrArg Reply.answer hreply, rfl, hafter⟩
  | dispatch a limit r =>
    obtain ⟨hreply, hafter⟩ := hy.dispatch d a limit r
    exact ⟨congrArg Reply.answer hreply, rfl, hafter⟩
  | reload =>
    obtain ⟨hreply, hafter⟩ := hy.reload d
    exact ⟨congrArg Reply.index hreply, rfl, hafter⟩

/-- Sites that are alike give the same replies and stay alike, whatever is done to both. -/
theorem run_alike (h : s.Alike t) (actions : List Action) :
    (s.run actions).1 = (t.run actions).1 ∧ (s.run actions).2.Alike (t.run actions).2 := by
  induction actions generalizing s t with
  | nil => exact ⟨rfl, h⟩
  | cons x rest ih =>
    obtain ⟨hreply, hafter⟩ := step_alike h x
    obtain ⟨hreplies, hlast⟩ := ih hafter
    rw [run_cons, run_cons]
    exact ⟨by rw [hreply, hreplies], hlast⟩

theorem madeFrom_step (h : Dispatcher.MadeFrom c s.dispatcher) (x : Action) :
    Dispatcher.MadeFrom c (s.step x).2.dispatcher := by
  cases x with
  | change ch => cases hd : s.disk.apply ch <;> simpa only [step, hd] using h
  | handle a r =>
    show Dispatcher.MadeFrom c (s.dispatcher.handle s.disk a r).2
    unfold Dispatcher.handle
    cases s.dispatcher.resolve r.method r.path with
    | none => exact ⟨h.mockDir, h.base, h.enabled⟩
    | some m => exact h.respond _ _ _ _
  | dispatch a limit r =>
    show Dispatcher.MadeFrom c (s.dispatcher.dispatch s.disk a limit r).2
    unfold Dispatcher.dispatch
    cases s.dispatcher.resolve r.method r.target.path with
    | none => exact ⟨h.mockDir, h.base, h.enabled⟩
    | some m => exact h.respond _ _ _ _
  | reload => exact h.reload s.disk

theorem madeFrom_run (h : Dispatcher.MadeFrom c s.dispatcher) (actions : List Action) :
    Dispatcher.MadeFrom c (s.run actions).2.dispatcher := by
  induction actions generalizing s with
  | nil => exact h
  | cons x rest ih => exact ih (madeFrom_step h x)

theorem madeFrom_start {d : Disk} (h : start c d = .ok s) : Dispatcher.MadeFrom c s.dispatcher := by
  obtain ⟨x, hx, rfl⟩ := Except.map_eq_ok_iff.mp h
  exact Dispatcher.madeFrom_new hx

/-! ## Reloads -/

/-- **A reload is a restart or nothing.**  If the directory can be read then, the replies after the reload
are those of a site that starts at that moment with the same settings on the same disk.  If it cannot, the
reload changes the counters alone, and the replies are those of the run without it. -/
theorem reload_restarts_or_keeps {d : Disk} (hs : start c d = .ok s) (before after : List Action) :
    (∀ index, RouteIndex.build (s.run before).2.disk c.mockDir c.normalBase = .ok index →
      ∃ fresh, start c (s.run before).2.disk = .ok fresh ∧
        (s.run (before ++ .reload :: after)).1 =
          (s.run before).1 ++ .index (.ok index) :: (fresh.run after).1 ∧
        (s.run (before ++ .reload :: after)).2.Alike (fresh.run after).2) ∧
    (∀ e, RouteIndex.build (s.run before).2.disk c.mockDir c.normalBase = .error e →
      (s.run (before ++ [.reload])).2.dispatcher =
          (s.run before).2.dispatcher.countReload none ∧
        ∃ later, (s.run (before ++ after)).1 = (s.run before).1 ++ later ∧
          (s.run (before ++ .reload :: after)).1 = (s.run before).1 ++ .index (.error e) :: later ∧
          (s.run (before ++ .reload :: after)).2.Alike (s.run (before ++ after)).2) := by
  have hmade := madeFrom_run (madeFrom_start hs) before
  constructor
  · intro index hb
    obtain ⟨hreply, y, hy, halike⟩ := hmade.exists_new_alike hb
    have hsite : ((s.run before).2.step .reload).2.Alike ⟨(s.run before).2.disk, y⟩ :=
      ⟨rfl, halike⟩
    obtain ⟨hreplies, hlast⟩ := run_alike hsite after
    refine ⟨⟨(s.run before).2.disk, y⟩, ?_, ?_, ?_⟩
    · exact Except.map_eq_ok_iff.mpr ⟨y, hy, rfl⟩
    · rw [run_append, run_cons, hreplies]
      exact congrArg (fun r => _ ++ Reply.index r :: _) hreply
    · rw [run_append, run_cons]
      exact hlast
  · intro e hb
    have hreload := hmade.reload_of_error hb
    have hstep : (s.run before).2.step .reload =
        (.index (.error e),
          { (s.run before).2 with dispatcher := (s.run before).2.dispatcher.countReload none }) := by
      rw [step, hreload]
    -- what has changed is counters alone, which are no part of being alike
    have hsite : ((s.run before).2.step .reload).2.Alike (s.run before).2 := by
      rw [hstep]
      exact ⟨rfl, rfl, rfl, rfl, .refl _⟩
    obtain ⟨hreplies, hlast⟩ := run_alike hsite after
    refine ⟨?_, ((s.run before).2.run after).1, ?_, ?_, ?_⟩
    · rw [run_append, run_cons, hstep]
      rfl
    · rw [run_append]
    · rw [run_append, run_cons, hreplies, hstep]
    · rw [run_append, run_append, run_cons]
      exact hlast

/-! ## Two reloads, one of them in vain -/

namespace Stocked

open ServerRun.Lost (mocks full ambient request)

/-- answers are remembered -/
def settings : Settings := { mockDir := .ofText "mocks", cache := true }

/-- the directory after its only answer has been removed -/
def emptied : Disk := Disk.empty.put [mocks] (.directory .directory)

/-- the directory after it has been closed to everybody -/
def closed : Disk := full.put [mocks] (.directory ⟨false, false, false⟩)

/-- the only answer is asked for, and then the disk changes -/
def before (c : Change) : List Action := [.dispatch ambient 0 request, .change c]

def after : List Action := [.dispatch ambient 0 request]

def removal : Change := .remove (.ofText "mocks/a.json")
def closing : Change := .setMode (.ofText "mocks") 0

theorem apply_removal : full.apply removal = .ok emptied := rfl

theorem apply_closing : full.apply closing = .ok closed := rfl

theorem build_emptied : RouteIndex.build emptied settings.mockDir settings.normalBase =
    .ok (.ofRoutes []) := by
  have hgives : emptied.Gives settings.mockDir [] := ⟨[mocks], .directory, rfl, rfl, .refl _⟩
  exact RouteIndex.build_of_gives hgives .nil (fun n hn => absurd hn List.not_mem_nil) rfl

theorem build_closed : RouteIndex.build closed settings.mockDir settings.normalBase =
    .error ⟨.ofText "mocks", .permissionDenied⟩ := by
  have hdir : closed.isDirectory settings.mockDir = true := rfl
  have hlist : closed.list settings.mockDir = .error .permissionDenied := rfl
  exact RouteIndex.build_of_list_error hdir hlist _

theorem start_full : ∃ s, start settings full = .ok s ∧ s.disk = full := by
  unfold start Dispatcher.new
  have hb : RouteIndex.build full settings.mockDir settings.normalBase = .ok ServerRun.Lost.index :=
    ServerRun.Lost.build_full
  rw [hb]
  exact ⟨_, rfl, rfl⟩

theorem disk_before {s : Site} (hs : s.disk = full) {c : Change} {d : Disk}
    (hd : full.apply c = .ok d) : (s.run (before c)).2.disk = d := by
  have hd' : s.disk.apply c = .ok d := by rw [hs, hd]
  simp [before, run, step, hd']

end Stocked

theorem reload_restarts_or_keeps_stocked :
    ∃ s, start Stocked.settings ServerRun.Lost.full = .ok s ∧
      (∃ fresh, start Stocked.settings Stocked.emptied = .ok fresh ∧
        (s.run (Stocked.before Stocked.removal ++ .reload :: Stocked.after)).1 =
          (s.run (Stocked.before Stocked.removal)).1 ++
            .index (.ok (.ofRoutes [])) :: (fresh.run Stocked.after).1) ∧
      ∃ later,
        (s.run (Stocked.before Stocked.closing ++ Stocked.after)).1 =
          (s.run (Stocked.before Stocked.closing)).1 ++ later ∧
        (s.run (Stocked.before Stocked.closing ++ .reload :: Stocked.after)).1 =
          (s.run (Stocked.before Stocked.closing)).1 ++
            .index (.error ⟨.ofText "mocks", .permissionDenied⟩) :: later := by
  obtain ⟨s, hs, hdisk⟩ := Stocked.start_full
  have hemptied := Stocked.disk_before hdisk Stocked.apply_removal
  have hclosed := Stocked.disk_before hdisk Stocked.apply_closing
  refine ⟨s, hs, ?_, ?_⟩
  · obtain ⟨fresh, hfresh, hreplies, -⟩ :=
      (reload_restarts_or_keeps hs (Stocked.before Stocked.removal) Stocked.after).1 _
        (by rw [hemptied, Stocked.build_emptied])
    rw [hemptied] at hfresh
    exact ⟨fresh, hfresh, hreplies⟩
  · obtain ⟨-, later, hwithout, hwith, -⟩ :=
      (reload_restarts_or_keeps hs (Stocked.before Stocked.closing) Stocked.after).2 _
        (by rw [hclosed, Stocked.build_closed])
    exact ⟨later, hwithout, hwith⟩

end Site

end CannedApi
