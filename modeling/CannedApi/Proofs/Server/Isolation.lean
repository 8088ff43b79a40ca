import CannedApi.Proofs.Disk.Twins
import CannedApi.Proofs.Server.Steady

/-!
# Answers do not leak into each other

Two servers on directories that are alike but for one file have the same routes, whatever the file holds:
the walk reads no file (`RouteIndex.build_of_twins`).  The file is read only where a request is resolved to
its route, and since a server has no memory while nothing changes, what was read of it shows nowhere else
(`Site.isolated`).
-/

namespace CannedApi

variable {d d' : Disk} {root dir : Path} {file above : List FileName} {top top' : RealPath}

/-! ## The same walk -/

namespace Scan

theorem look_of_twins (h : d.Twins d' root file top top')
    (hdir : Disk.Alike d d' file top top' dir above) : look d dir above = look d' dir above :=
  look_congr (P := Disk.Alike d d' file top top') (fun _ _ hp => h.list_eq hp)
    (fun _ _ n hp => h.stat_join hp n) (fun _ _ _ hp hstat => h.alike_of_stat hp hstat) hdir

theorem alike_of_visits (h : d.Twins d' root file top top') (hv : Visits d root above dir) :
    Disk.Alike d d' file top top' dir above ∧ dir = root.below above := by
  induction hv with
  | root => exact ⟨h.alike_root, rfl⟩
  | inside outer hlist hn hstat ih =>
    obtain ⟨hdir, rfl⟩ := ih
    rw [Path.below_concat]
    exact ⟨h.alike_of_stat hdir hstat, rfl⟩

theorem alike_of_finds (h : d.Twins d' root file top top') {f : FoundFile} (hf : Finds d root f) :
    Disk.Alike d d' file top top' f.path (f.directories ++ [f.name]) ∧
      f.path = root.below (f.directories ++ [f.name]) := by
  obtain ⟨dir, names, hv, hlist, hn, hpath⟩ := hf.listed
  obtain ⟨hdir, rfl⟩ := alike_of_visits h hv
  have hstat := hf.isFile
  rw [Path.below_concat]
  rw [hpath] at hstat ⊢
  exact ⟨h.alike_of_stat hdir hstat, rfl⟩

end Scan

/-! ## The same routes -/

theorem RouteIndex.build_of_twins (h : d.Twins d' root file top top') (base : String) :
    build d root base = build d' root base := by
  have hdir : d.isDirectory root = d'.isDirectory root := by
    rw [Disk.isDirectory, Disk.isDirectory, Disk.Twins.stat_eq h.alike_root]
  rw [build, build, hdir, Scan.files_eq, Scan.files_eq, Scan.look_of_twins h h.alike_root]

/-! ## The same answers, but for those of the one file -/

theorem Mock.load_of_twins (h : d.Twins d' root file top top') {base : String} {index : RouteIndex}
    (hb : RouteIndex.build d root base = .ok index) {r : Route} (hr : r ∈ index.routes)
    (hfile : r.file ≠ root.below file) : Mock.load d r.file = Mock.load d' r.file := by
  by_cases hroot : d.isDirectory root = true
  · obtain ⟨f, hf, hroute⟩ := (RouteIndex.isOf_of_build hroot hb).found r hr
    obtain ⟨halike, hpath⟩ := Scan.alike_of_finds h hf
    rw [Scan.file_of_route? hroute] at hfile ⊢
    have hnames : f.directories ++ [f.name] ≠ file := by
      intro e
      rw [hpath, e] at hfile
      exact hfile rfl
    rw [Mock.load, Mock.load, Disk.Twins.readText_eq halike hnames]
  · -- without a directory there are no routes
    rw [RouteIndex.build, if_neg hroot] at hb
    cases hb
    cases hr

/-- the action is a request that is resolved to the answer in the file `p` -/
def Action.AsksFor (index : RouteIndex) (p : Path) : Action → Prop
  | .handle _ r => ∃ m, index.matchRequest r.method r.path = some m ∧ m.route.file = p
  | .dispatch _ _ r => ∃ m, index.matchRequest r.method r.target.path = some m ∧ m.route.file = p
  | _ => False

theorem Dispatcher.freshAnswer_of_twins (h : d.Twins d' root file top top') {base : String}
    {index : RouteIndex} (hb : RouteIndex.build d root base = .ok index) (a : Template.Ambient)
    {r : Request} (hask : ¬ ∃ m, index.matchRequest r.method r.path = some m ∧
      m.route.file = root.below file) :
    freshAnswer d index a r = freshAnswer d' index a r := by
  unfold freshAnswer
  cases hm : index.matchRequest r.method r.path with
  | none => rfl
  | some m =>
    have hfile : m.route.file ≠ root.below file := fun e => hask ⟨m, hm, e⟩
    show some (answer a m r _) = some (answer a m r _)
    rw [Mock.load_of_twins h hb (RouteIndex.mem_of_matchRequest hm) hfile]

theorem Action.freshReply_of_twins (h : d.Twins d' root file top top') {base : String}
    {index : RouteIndex} (hb : RouteIndex.build d root base = .ok index) {x : Action}
    (hask : ¬ x.AsksFor index (root.below file)) : x.freshReply d index = x.freshReply d' index := by
  cases x with
  | change c => rfl
  | handle a r => exact congrArg Reply.answer (Dispatcher.freshAnswer_of_twins h hb a hask)
  | dispatch a limit r => exact congrArg Reply.answer (Dispatcher.freshAnswer_of_twins h hb a hask)
  | reload => rfl

namespace Site

variable {c : Settings}

/-- **Answers do not leak into each other.**  Two servers with the same settings, on directories without
links that are alike but for what one file holds, start alike and have the same routes at every moment of
any run in which no file changes.  Every reply is the same on both, but for those to requests that are
resolved to the one file at that moment. -/
theorem isolated (h : d.Twins d' c.mockDir file top top') :
    (start c d).map (fun s => s.dispatcher.index) = (start c d').map (fun s => s.dispatcher.index) ∧
      ∀ s s', start c d = .ok s → start c d' = .ok s' →
        ∀ actions : List Action, (∀ x ∈ actions, x.KeepsFiles) →
          (∀ i, (s.run (actions.take i)).2.dispatcher.index =
            (s'.run (actions.take i)).2.dispatcher.index) ∧
          ∀ (i : Nat) (x : Action), actions[i]? = some x →
            ¬ x.AsksFor (s.run (actions.take i)).2.dispatcher.index (c.mockDir.below file) →
              (s.run actions).1[i]? = (s'.run actions).1[i]? := by
  have hbuild := RouteIndex.build_of_twins h c.normalBase
  have hstarts : (start c d).map (fun s => s.dispatcher.index) = _ := start_cache c d c.cache
  have hstarts' : (start c d').map (fun s => s.dispatcher.index) = _ := start_cache c d' c.cache
  rw [← hbuild] at hstarts'
  refine ⟨hstarts.trans hstarts'.symm, fun s s' hs hs' actions hkeep => ?_⟩
  rw [hs] at hstarts
  rw [hs'] at hstarts'
  have hindex : s'.dispatcher.index = s.dispatcher.index := by
    rw [← hstarts] at hstarts'
    exact Except.ok.inj hstarts'
  have hsteady := steady_start hs
  have hsteady' := steady_start hs'
  rw [hindex] at hsteady'
  have hroutes (i : Nat) : (s.run (actions.take i)).2.dispatcher.index = s.dispatcher.index :=
    (run_steady hsteady fun x hx => hkeep x (List.mem_of_mem_take hx)).2.dispatcher.routes
  have hroutes' (i : Nat) : (s'.run (actions.take i)).2.dispatcher.index = s.dispatcher.index :=
    (run_steady hsteady' fun x hx => hkeep x (List.mem_of_mem_take hx)).2.dispatcher.routes
  refine ⟨fun i => (hroutes i).trans (hroutes' i).symm, fun i x hx hask => ?_⟩
  rw [hroutes] at hask
  rw [(run_steady hsteady hkeep).1, (run_steady hsteady' hkeep).1, List.getElem?_map, List.getElem?_map,
    hx]
  exact congrArg some (Action.freshReply_of_twins h hstarts.symm hask)

/-! ## One answer that is no text -/

namespace Neighbours

open ServerRun.Lost (mocks answer ambient)

def other : FileName := ⟨Utf8.toBytes "b.json", by decide⟩

/-- a directory with two answers, of which the first holds any bytes -/
def disk (bytes : List UInt8) : Disk :=
  ((Disk.empty.put [mocks] (.directory .directory)).put [mocks, answer] (.file .file bytes)).put
    [mocks, other] (.file .file [0x31])

/-- the first answer is a one -/
def valid : Disk := disk [0x31]

/-- the first answer is no text -/
def broken : Disk := disk [0xFF]

def settings : Settings := { mockDir := .ofText "mocks", cache := true }

def first : Request := ⟨"GET", "/a", [], none⟩
def second : Request := ⟨"GET", "/b", [], none⟩

def actions : List Action :=
  [.handle ambient first, .handle ambient second, .reload, .handle ambient first, .handle ambient second]

def routes : List Route :=
  [⟨.get, [.literal "a"], .ofText "mocks/a.json"⟩, ⟨.get, [.literal "b"], .ofText "mocks/b.json"⟩]

theorem get?_disk (bytes : List UInt8) (names : List FileName) :
    (disk bytes).get? ([mocks] ++ names) =
      if names = [other] then some (.file .file [0x31])
      else if names = [answer] then some (.file .file bytes)
      else if names = [] then some (.directory .directory) else none := by
  have hempty (names : List FileName) : Disk.empty.get? (mocks :: names) = none := rfl
  rw [disk, Disk.get?_put _ (by decide), Disk.get?_put _ (by decide), Disk.get?_put _ (by decide)]
  simp [hempty, eq_comm]

theorem twins : valid.Twins broken settings.mockDir [answer] [mocks] [mocks] := by
  have hleft : valid.find settings.mockDir = .ok ([mocks], .directory .directory) := rfl
  have hright : broken.find settings.mockDir = .ok ([mocks], .directory .directory) := rfl
  refine ⟨⟨_, hleft⟩, ⟨_, hright⟩, fun names hnames => ?_, ⟨.file, [0x31], [0xFF], ?_, ?_⟩,
    fun names target => ?_⟩
  · rw [valid, broken, get?_disk, get?_disk, if_neg hnames, if_neg hnames]
  · rw [valid, get?_disk]
    decide
  · rw [broken, get?_disk]
    decide
  · rw [valid, get?_disk]
    split_ifs <;> simp

theorem build_valid :
    RouteIndex.build valid settings.mockDir settings.normalBase = .ok (.ofRoutes routes) := by
  have hgives : valid.Gives settings.mockDir [answer, other] := ⟨[mocks], .directory, rfl, rfl, .refl _⟩
  have hstat : ∀ n ∈ [answer, other], valid.stat (settings.mockDir.join n) = .ok .file :=
    List.forall_mem_cons.mpr ⟨rfl, List.forall_mem_singleton.mpr rfl⟩
  exact RouteIndex.build_of_gives hgives (by decide) hstat (by decide +kernel)

theorem not_asksFor_second : ¬ (Action.handle ambient second).AsksFor (.ofRoutes routes)
    (settings.mockDir.below [answer]) := by
  have hmatch : (RouteIndex.ofRoutes routes).matchRequest "GET" "/b" =
      some ⟨⟨.get, [.literal "b"], .ofText "mocks/b.json"⟩, []⟩ := by
    have hranked : (RouteIndex.ofRoutes routes).routes = routes := List.mergeSort_of_pairwise (by decide)
    rw [RouteIndex.matchRequest, hranked]
    decide
  rintro ⟨m, hm, hfile⟩
  rw [show second.method = "GET" from rfl, show second.path = "/b" from rfl, hmatch] at hm
  cases hm
  exact absurd hfile (by decide)

end Neighbours

theorem isolated_broken :
    ∃ s s', start Neighbours.settings Neighbours.valid = .ok s ∧
      start Neighbours.settings Neighbours.broken = .ok s' ∧
      (∀ i, (s.run (Neighbours.actions.take i)).2.dispatcher.index =
        (s'.run (Neighbours.actions.take i)).2.dispatcher.index) ∧
      (s.run Neighbours.actions).1[4]? = (s'.run Neighbours.actions).1[4]? := by
  obtain ⟨hindex, hruns⟩ := isolated Neighbours.twins
  have hstarts : (start Neighbours.settings Neighbours.valid).map (fun s => s.dispatcher.index) = _ :=
    start_cache Neighbours.settings Neighbours.valid true
  rw [Neighbours.build_valid] at hstarts
  rw [hstarts] at hindex
  obtain ⟨s, hs, hroutes⟩ := Except.map_eq_ok_iff.mp hstarts
  obtain ⟨s', hs', -⟩ := Except.map_eq_ok_iff.mp hindex.symm
  have hkeep : ∀ x ∈ Neighbours.actions, x.KeepsFiles := by
    simp [Neighbours.actions, Action.KeepsFiles]
  obtain ⟨hsame, hreplies⟩ := hruns s s' hs hs' Neighbours.actions hkeep
  have hbefore : ∀ x ∈ Neighbours.actions.take 4, x.KeepsFiles := fun x hx =>
    hkeep x (List.mem_of_mem_take hx)
  refine ⟨s, s', hs, hs', hsame, hreplies 4 _ rfl ?_⟩
  rw [(run_steady (steady_start hs) hbefore).2.dispatcher.routes, hroutes]
  exact Neighbours.not_asksFor_second

end Site

end CannedApi
