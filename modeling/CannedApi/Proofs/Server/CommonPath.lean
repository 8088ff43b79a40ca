import CannedApi.Proofs.Except
import CannedApi.Proofs.Route.Labels
import CannedApi.Proofs.Route.NormalBase
import CannedApi.Proofs.Server.Reloads

/-!
# Routes below a common path

The common path of all routes puts its literals in front of every pattern and changes nothing else: not the
files, not the methods, not the order.  It is shown as it was written but for its ends, while empty pieces
between its slashes make no literals; so the path of a route is the common path as it is shown, with each run
of slashes written as one slash, followed by the path that the route would have alone
(`Dispatcher.routes_below`).
-/

namespace CannedApi

namespace Naming

/-- each run of slashes written as one slash -/
def oneSlash : List Char → List Char
  | [] => []
  | c :: cs => if c = '/' ∧ cs.head? = some '/' then oneSlash cs else c :: oneSlash cs

/-! ## Runs of slashes -/

theorem oneSlash_slash_slash (cs : List Char) : oneSlash ('/' :: '/' :: cs) = oneSlash ('/' :: cs) := by
  rw [oneSlash, if_pos ⟨rfl, rfl⟩]

theorem oneSlash_cons {c : Char} {cs : List Char} (h : ¬ (c = '/' ∧ cs.head? = some '/')) :
    oneSlash (c :: cs) = c :: oneSlash cs := by
  rw [oneSlash, if_neg h]

theorem length_oneSlash_le (cs : List Char) : (oneSlash cs).length ≤ cs.length := by
  induction cs with
  | nil => exact Nat.le_refl 0
  | cons c cs ih =>
    rw [oneSlash]
    split
    · exact Nat.le_succ_of_le ih
    · exact Nat.succ_le_succ ih

theorem oneSlash_eq_nil_iff {cs : List Char} : oneSlash cs = [] ↔ cs = [] := by
  induction cs with
  | nil => simp [oneSlash]
  | cons c cs ih =>
    rw [oneSlash]
    split
    · rename_i h
      rw [ih]
      refine ⟨fun hnil => ?_, fun hnil => absurd hnil (List.cons_ne_nil _ _)⟩
      rw [hnil] at h
      cases h.2
    · simp

/-- Only a text without two slashes in a row stays as it is. -/
theorem oneSlash_eq_self_iff {cs : List Char} : oneSlash cs = cs ↔ ¬ ['/', '/'] <:+: cs := by
  induction cs with
  | nil => simp [oneSlash]
  | cons c cs ih =>
    by_cases h : c = '/' ∧ cs.head? = some '/'
    · obtain ⟨rfl, hhead⟩ := h
      obtain ⟨rest, rfl⟩ := List.head?_eq_some_iff.mp hhead
      refine iff_of_false (fun hself => ?_) (not_not_intro ⟨[], rest, rfl⟩)
      have hle := length_oneSlash_le ('/' :: rest)
      rw [oneSlash_slash_slash] at hself
      rw [hself, List.length_cons] at hle
      omega
    · rw [oneSlash_cons h, List.cons.injEq, and_iff_right rfl, ih, List.infix_cons_iff, not_or,
        and_iff_right]
      rintro ⟨rest, hrest⟩
      obtain ⟨rfl, rfl⟩ := List.cons.inj hrest
      exact h ⟨rfl, rfl⟩

/-- The text between slashes, each piece that is not empty after one slash. -/
theorem oneSlash_of_pieces {cs p : List Char} {ps : List (List Char)} (hlast : cs.getLast? ≠ some '/')
    (h : Text.pieces '/' cs = p :: ps) :
    oneSlash cs = p ++ (ps.filter (· ≠ [])).flatMap ('/' :: ·) := by
  induction cs generalizing p ps with
  | nil =>
    obtain ⟨rfl, rfl⟩ := List.cons.inj h
    rfl
  | cons c cs ih =>
    have hrest : cs.getLast? ≠ some '/' := by
      intro e
      rw [List.getLast?_cons, e] at hlast
      exact hlast rfl
    obtain ⟨q, qs, hq⟩ := List.exists_cons_of_ne_nil (Text.pieces_ne_nil '/' cs)
    have ih' := ih hrest hq
    by_cases hc : c = '/'
    · subst hc
      rw [Text.pieces_cons_mark, hq] at h
      obtain ⟨rfl, rfl⟩ := List.cons.inj h
      cases cs with
      | nil => exact absurd rfl hlast
      | cons d cs =>
        by_cases hd : d = '/'
        · -- the piece between the two slashes is empty
          subst hd
          have hqs : q = [] := by
            rw [Text.pieces_cons_mark] at hq
            exact (List.cons.inj hq).1.symm
          rw [oneSlash_slash_slash, ih', hqs]
          rfl
        · have hne : q ≠ [] := by
            rintro rfl
            obtain ⟨r, rs, hr⟩ := List.exists_cons_of_ne_nil (Text.pieces_ne_nil '/' cs)
            rw [Text.pieces_cons_of_ne hd hr] at hq
            exact absurd (List.cons.inj hq).1 (List.cons_ne_nil d r)
          rw [oneSlash_cons fun e => hd (by simpa using e.2), ih', List.filter_cons,
            if_pos (by simpa using hne)]
          rfl
    · rw [Text.pieces_cons_of_ne hc hq] at h
      obtain ⟨rfl, rfl⟩ := List.cons.inj h
      rw [oneSlash_cons fun e => hc e.1, ih']
      rfl

end Naming

/-! ## Patterns in front of patterns -/

namespace Pattern

/-- each segment as it is shown, after a slash -/
def trail (p : Pattern) : List Char := p.flatMap fun s => '/' :: s.display.toList

theorem trail_append (p q : Pattern) : Pattern.trail (p ++ q) = p.trail ++ q.trail :=
  List.flatMap_append

theorem trail_eq_nil_iff {p : Pattern} : p.trail = [] ↔ p = [] := by
  cases p <;> simp [trail]

theorem toList_display {p : Pattern} (h : p ≠ []) : p.display.toList = p.trail := by
  have hjoin : ∀ q : Pattern, (String.join (q.map fun s => "/" ++ s.display)).toList = q.trail := by
    intro q
    induction q with
    | nil => rfl
    | cons s q ih =>
      rw [List.map_cons, String.join_cons, String.toList_append, ih]
      simp [trail]
  cases p with
  | nil => exact absurd rfl h
  | cons s p => exact hjoin (s :: p)

/-- a slash alone is shown where there is no segment -/
theorem display_eq_slash_iff {p : Pattern} (h : p.Plain) : p.display = "/" ↔ p = [] := by
  refine ⟨fun e => ?_, fun e => by rw [e]; rfl⟩
  cases p with
  | nil => rfl
  | cons s p =>
    have hl := congrArg String.toList e
    rw [toList_display (List.cons_ne_nil _ _), trail, List.flatMap_cons] at hl
    have hshown := (Segment.isPlain_display (h s List.mem_cons_self)).1
    have hnil : s.display.toList = [] := by
      have := (List.cons.inj hl).2
      exact (List.append_eq_nil_iff.mp this).1
    exact absurd (String.toList_inj.mp hnil) hshown

end Pattern

namespace Route

/-- the route with segments in front of its own -/
def below (front : Pattern) (r : Route) : Route := { r with pattern := front ++ r.pattern }

theorem file_below (front : Pattern) (r : Route) : (r.below front).file = r.file := rfl

theorem method_below (front : Pattern) (r : Route) : (r.below front).method = r.method := rfl

/-- the path of the route after a common path; a slash alone counts as nothing after one that is not
empty -/
def pathBelow (base : String) (r : Route) : String :=
  if base ≠ "" ∧ r.path = "/" then base else base ++ r.path

theorem path_below {front : Pattern} {r : Route} (h : r.pattern.Plain) :
    (r.below front).path = r.pathBelow (String.ofList front.trail) := by
  have hempty : String.ofList front.trail = "" ↔ front = [] := by
    rw [← Pattern.trail_eq_nil_iff, ← String.toList_inj, String.toList_ofList]
    rfl
  have hroot : r.path = "/" ↔ r.pattern = [] := Pattern.display_eq_slash_iff h
  show Pattern.display (front ++ r.pattern) = _
  by_cases hfront : front = []
  · subst hfront
    simp [pathBelow, Pattern.trail, path]
  · have hne : front ++ r.pattern ≠ [] := by simp [hfront]
    rw [← String.toList_inj, Pattern.toList_display hne, Pattern.trail_append, pathBelow]
    by_cases hr : r.pattern = []
    · rw [if_pos ⟨mt hempty.mp hfront, hroot.mpr hr⟩, hr, String.toList_ofList]
      exact List.append_nil _
    · rw [if_neg fun e => hr (hroot.mp e.2), String.toList_append, String.toList_ofList, path,
        Pattern.toList_display hr]

theorem hasParams_below {front : Pattern} (h : front.hasParams = false) (r : Route) :
    (r.below front).hasParams = r.hasParams := by
  show List.any (front ++ r.pattern) Segment.isParam = _
  rw [List.any_append]
  have hf : front.any Segment.isParam = false := h
  rw [hf, Bool.false_or]
  rfl

theorem ranksBefore_below {front : Pattern} (h : front.hasParams = false) (a b : Route) :
    (a.below front).ranksBefore (b.below front) = a.ranksBefore b := by
  have hlength (r : Route) : (r.below front).pattern.length = front.length + r.pattern.length :=
    List.length_append
  rw [Bool.eq_iff_iff]
  simp only [ranksBefore, hasParams_below h, hlength, Bool.or_eq_true, Bool.and_eq_true,
    decide_eq_true_eq, beq_iff_eq, Nat.add_left_cancel_iff, Nat.add_lt_add_iff_left]

theorem pathBelow_inj {a b : String} (h : a = "" ↔ b = "") (r : Route) :
    r.pathBelow a = r.pathBelow b ↔ a = b := by
  unfold pathBelow
  by_cases hr : r.path = "/"
  · by_cases ha : a = ""
    · rw [ha, h.mp ha]
      simp
    · have hb : b ≠ "" := mt h.mpr ha
      simp [ha, hb, hr]
  · simp [hr]

end Route

namespace Naming

theorem hasParams_baseSegments (base : List Char) : (baseSegments base).hasParams = false := by
  simp [baseSegments, Pattern.hasParams, Segment.isParam]

theorem trail_baseSegments {base : List Char} (hstart : base = [] ∨ ∃ cs, base = '/' :: cs)
    (hlast : base.getLast? ≠ some '/') : (baseSegments base).trail = oneSlash base := by
  have htrail : (baseSegments base).trail =
      ((Text.pieces '/' base).filter (· ≠ [])).flatMap ('/' :: ·) := by
    simp [Pattern.trail, baseSegments, List.flatMap_map, Segment.display]
  rw [htrail]
  rcases hstart with rfl | ⟨cs, rfl⟩
  · rfl
  · -- nothing stands before the first slash
    rw [oneSlash_of_pieces hlast (Text.pieces_cons_mark '/' cs), Text.pieces_cons_mark]
    rfl

end Naming

/-! ## Routes of a directory -/

theorem Scan.route?_base (base : String) (f : FoundFile) :
    route? base f = (route? "" f).map (Route.below (Naming.baseSegments base.toList)) := by
  unfold route?
  cases f.name.text? with
  | none => rfl
  | some name =>
    show (Naming.splitMethod name).map _ = ((Naming.splitMethod name).map _).map _
    rw [Option.map_map]
    refine congrFun (congrArg Option.map (funext fun p => ?_)) _
    show Route.mk _ (_ ++ _ ++ _) _ = Route.mk _ (_ ++ ([] ++ _ ++ _)) _
    rw [List.nil_append, List.append_assoc]

/-- The index below a common path is the index without one, with the literals of the path in front of each
pattern. -/
theorem RouteIndex.routes_build (d : Disk) (root : Path) (base : String) :
    (build d root base).map RouteIndex.routes = (build d root "").map fun index =>
      index.routes.map (Route.below (Naming.baseSegments (Naming.normalizeBase base).toList)) := by
  have hnone : Naming.normalizeBase "" = "" := by decide
  by_cases hroot : d.isDirectory root = true
  · rw [build_of_isDirectory hroot, build_of_isDirectory hroot, hnone]
    cases Scan.files d root with
    | error e => rfl
    | ok fs =>
      show Except.ok (List.mergeSort _ _) = Except.ok (List.map _ (List.mergeSort _ _))
      have hroutes : fs.filterMap (Scan.route? (Naming.normalizeBase base)) =
          (fs.filterMap (Scan.route? "")).map
            (Route.below (Naming.baseSegments (Naming.normalizeBase base).toList)) := by
        rw [List.map_filterMap]
        exact congrArg (fun g => fs.filterMap g) (funext fun f => Scan.route?_base _ f)
      rw [hroutes, List.map_mergeSort fun a _ b _ =>
        (Route.ranksBefore_below (Naming.hasParams_baseSegments _) a b).symm]
  · rw [build, if_neg hroot, build, if_neg hroot]
    rfl

namespace Dispatcher

variable {c : Settings} {d : Disk} {x y : Dispatcher}

theorem normalBase_none (c : Settings) : Settings.normalBase { c with base := "" } = "" := by
  show Naming.normalizeBase "" = ""
  decide

theorem base_of_new (h : new c d = .ok x) : x.base = c.normalBase := by
  obtain ⟨index, -, rfl⟩ := Except.map_eq_ok_iff.mp h
  rfl

theorem build_of_new (h : new c d = .ok x) :
    RouteIndex.build d c.mockDir c.normalBase = .ok x.index := by
  obtain ⟨index, hb, rfl⟩ := Except.map_eq_ok_iff.mp h
  exact hb

theorem routes_new (c : Settings) (d : Disk) : (new c d).map (fun x => x.index.routes) =
    (RouteIndex.build d c.mockDir "").map fun index =>
      index.routes.map (Route.below (Naming.baseSegments (Naming.normalizeBase c.normalBase).toList)) := by
  rw [← RouteIndex.routes_build, new]
  cases RouteIndex.build d c.mockDir c.normalBase <;> rfl

theorem new_eq_error_iff {e : ScanError} :
    new c d = .error e ↔ RouteIndex.build d c.mockDir "" = .error e := by
  rw [← Except.map_eq_error_iff (f := fun x => x.index.routes), routes_new, Except.map_eq_error_iff]

/-- A common path that ends well is its own normal form, and its literals are shown as it is but for runs
of slashes. -/
theorem trail_base (hx : new c d = .ok x) (h : Naming.EndsWell x.base.toList) :
    (Naming.baseSegments (Naming.normalizeBase c.normalBase).toList).trail =
      Naming.oneSlash x.base.toList := by
  have hbase : x.base.toList = Naming.normalChars c.base.toList := by
    rw [base_of_new hx, Settings.normalBase, Naming.normalizeBase, String.toList_ofList]
  have hnormal : Naming.normalChars x.base.toList = x.base.toList := by
    rcases Naming.normalChars_cases c.base.toList with hnil | ⟨cs, hcs⟩
    · rw [hbase, hnil]
      rfl
    · rw [hbase, hcs] at h ⊢
      exact Naming.normalChars_self h
  rw [← base_of_new hx, Naming.normalizeBase, String.toList_ofList, hnormal]
  refine Naming.trail_baseSegments ?_ fun hlast => (h _ hlast).1 rfl
  rw [hbase]
  exact Naming.normalChars_cases _

theorem path_below_iff (x : Dispatcher) (q : Route) :
    q.pathBelow (String.ofList (Naming.oneSlash x.base.toList)) = q.pathBelow x.base ↔
      ¬ ['/', '/'] <:+: x.base.toList := by
  have hempty : String.ofList (Naming.oneSlash x.base.toList) = "" ↔ x.base = "" := by
    simp only [← String.toList_inj, String.toList_ofList]
    exact Naming.oneSlash_eq_nil_iff
  rw [Route.pathBelow_inj hempty, ← String.toList_inj, String.toList_ofList,
    Naming.oneSlash_eq_self_iff]

/-- **The common path stands in front of every path.**  With a common path and without one a dispatcher
has the same files in the same order with the same methods, or fails in the same way.  If the common path in
its normal form ends neither in a slash nor in white space, the path of each route is that path with each run
of slashes written as one slash, followed by the path of the route without it; so it is the common path
itself, followed by that path, exactly if there are no two slashes in a row in it. -/
theorem routes_below (c : Settings) (d : Disk) :
    (∀ e, new c d = .error e ↔ new { c with base := "" } d = .error e) ∧
      ∀ x y, new c d = .ok x → new { c with base := "" } d = .ok y →
        List.Forall₂ (fun r q => r.file = q.file ∧ r.method = q.method ∧
            (Naming.EndsWell x.base.toList →
              r.path = q.pathBelow (String.ofList (Naming.oneSlash x.base.toList)) ∧
                (r.path = q.pathBelow x.base ↔ ¬ ['/', '/'] <:+: x.base.toList)))
          x.index.routes y.index.routes := by
  refine ⟨fun e => ?_, fun x y hx hy => ?_⟩
  · rw [new_eq_error_iff, new_eq_error_iff]
  · have hb := build_of_new hy
    rw [normalBase_none] at hb
    have hroutes := routes_new c d
    rw [hx, hb] at hroutes
    have hroutes' : x.index.routes = y.index.routes.map _ := Except.ok.inj hroutes
    rw [hroutes', List.forall₂_map_left_iff, List.forall₂_same]
    intro q hq
    refine ⟨Route.file_below _ q, Route.method_below _ q, fun h => ?_⟩
    rw [Route.path_below (RouteIndex.plain_of_build hb q hq), trail_base hx h]
    exact ⟨rfl, path_below_iff x q⟩

end Dispatcher

/-! ## A common path with an empty piece -/

namespace Slashed

open ServerRun.Lost (mocks answer full)

def root : FileName := ⟨Utf8.toBytes "post.json", by decide⟩

/-- an answer of its own, and one of the directory itself -/
def disk : Disk := full.put [mocks, root] (.file .file [])

def settings (base : String) : Settings := { mockDir := .ofText "mocks", base := base }

def routes : List Route :=
  [⟨.get, [.literal "a"], .ofText "mocks/a.json"⟩, ⟨.post, [], .ofText "mocks/post.json"⟩]

theorem build_disk : RouteIndex.build disk (.ofText "mocks") "" = .ok (.ofRoutes routes) := by
  have hgives : disk.Gives (.ofText "mocks") [answer, root] := ⟨[mocks], .directory, rfl, rfl, .refl _⟩
  have hstat : ∀ n ∈ [answer, root], disk.stat ((Path.ofText "mocks").join n) = .ok .file :=
    List.forall_mem_cons.mpr ⟨rfl, List.forall_mem_singleton.mpr rfl⟩
  exact RouteIndex.build_of_gives hgives (by decide) hstat (by decide +kernel)

theorem exists_new (base : String) : ∃ x y, Dispatcher.new (settings base) disk = .ok x ∧
    Dispatcher.new (settings "") disk = .ok y ∧ x.base = Naming.normalizeBase base ∧
    y.index.routes = routes ∧ x.index.routes = routes.map
      (Route.below (Naming.baseSegments (Naming.normalizeBase (settings base).normalBase).toList)) := by
  have hranked : (RouteIndex.ofRoutes routes).routes = routes :=
    List.mergeSort_of_pairwise (by decide)
  have hb : RouteIndex.build disk (settings base).mockDir "" = .ok (.ofRoutes routes) := build_disk
  have hroutes := Dispatcher.routes_new (settings base) disk
  rw [hb] at hroutes
  obtain ⟨x, hx, hxroutes⟩ := Except.map_eq_ok_iff.mp hroutes
  dsimp only at hxroutes
  have hb' : RouteIndex.build disk (settings "").mockDir (settings "").normalBase =
      .ok (.ofRoutes routes) := by
    rw [show (settings "").normalBase = "" from Dispatcher.normalBase_none (settings "")]
    exact build_disk
  obtain ⟨y, hy, hindex⟩ :
      ∃ y, Dispatcher.new (settings "") disk = .ok y ∧ y.index = .ofRoutes routes := by
    rw [Dispatcher.new, hb']
    exact ⟨_, rfl, rfl⟩
  have hbase := Dispatcher.base_of_new hx
  rw [hranked] at hxroutes
  exact ⟨x, y, hx, hy, hbase, by rw [hindex, hranked], hxroutes⟩

end Slashed

namespace Dispatcher

/-- White space around the common path and a slash at its end are gone before it is shown. -/
theorem routes_below_slashed : ∃ x y, new (Slashed.settings " a/b/ ") Slashed.disk = .ok x ∧
    new (Slashed.settings "") Slashed.disk = .ok y ∧ x.base = "/a/b" ∧ y.index.routes.length = 2 ∧
    List.Forall₂ (fun r q => r.file = q.file ∧ r.method = q.method ∧ r.path = q.pathBelow "/a/b")
      x.index.routes y.index.routes := by
  obtain ⟨x, y, hx, hy, hbase, hindex, -⟩ := Slashed.exists_new " a/b/ "
  have hnormal : Naming.normalizeBase " a/b/ " = "/a/b" := rfl
  rw [hnormal] at hbase
  have hends : Naming.EndsWell x.base.toList := by
    rw [hbase]
    intro c hc
    obtain rfl : 'b' = c := Option.some.inj hc
    decide
  refine ⟨x, y, hx, hy, hbase, ?_, ?_⟩
  · rw [hindex]
    rfl
  · refine ((routes_below (Slashed.settings " a/b/ ") Slashed.disk).2 x y hx hy).imp ?_
    rintro r q ⟨hfile, hmethod, hpath⟩
    have hrun : ¬ ['/', '/'] <:+: x.base.toList := by
      rw [hbase]
      decide
    have hshown := (hpath hends).2.mpr hrun
    rw [hbase] at hshown
    exact ⟨hfile, hmethod, hshown⟩

/-- Below `a//b`, which is shown as `/a//b`, the route `/a` has the path `/a/b/a`. -/
theorem not_routes_below :
    ¬ ∀ (c : Settings) (d : Disk) (x y : Dispatcher), new c d = .ok x →
      new { c with base := "" } d = .ok y →
        List.Forall₂ (fun r q => r.file = q.file ∧ r.method = q.method ∧ r.path = q.pathBelow x.base)
          x.index.routes y.index.routes := by
  intro h
  obtain ⟨x, y, hx, hy, hbase, hindex, hroutes⟩ := Slashed.exists_new "a//b"
  have hall := h _ _ x y hx hy
  rw [hroutes, hindex, hbase] at hall
  have hpath := (List.forall₂_cons.mp hall).1.2.2
  revert hpath
  have hnormal : Naming.normalizeBase "a//b" = "/a//b" := rfl
  have hsegments : Naming.baseSegments (Naming.normalizeBase (Slashed.settings "a//b").normalBase).toList =
      [.literal "a", .literal "b"] := by
    rfl
  rw [hnormal, hsegments]
  decide

end Dispatcher

end CannedApi
