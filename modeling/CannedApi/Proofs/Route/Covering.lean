import CannedApi.Proofs.Route.Ranking
import CannedApi.Proofs.Route.Segments
import CannedApi.Proofs.Route.Walk

/-!
# When the more literal route wins

Ranking tells routes of one length apart only by whether they have parameters at all.  Of two routes
that both have some, one may be more literal than the other segment by segment and still be tried after
it.  `RouteIndex.moreLiteral_wins_iff` says exactly when it wins all the same: some route that is tried
before the other covers it.  One direction takes a path in which every parameter stands for a text that
no literal of the index has; only a route that covers the pattern fits it.
-/

namespace CannedApi

/-! ## Patterns that cover others -/

/-- `a` fits every text that `b` fits -/
def Segment.Covers : Segment → Segment → Prop
  | .literal t, b => b = .literal t
  | .param _, .literal t => t ≠ ""
  | .param _, .param _ => True

/-- `p` is `q` with literals in place of one or more parameters -/
def Pattern.MoreLiteral (p q : Pattern) : Prop :=
  List.Forall₂ (fun a b : Segment => a = b ∨ (a.isParam = false ∧ b.isParam = true)) p q ∧ p ≠ q

/-- the segments of a path that the pattern fits, with `v` for every parameter -/
def Pattern.fill (v : String) (p : Pattern) : List String :=
  p.map fun
    | .literal t => t
    | .param _ => v

theorem Segment.Covers.fits {a b : Segment} {s : String} (h : a.Covers b) (hb : b.Fits s) :
    a.Fits s := by
  cases a with
  | literal t =>
    have e : b = .literal t := h
    rwa [e] at hb
  | param n =>
    cases b with
    | literal t =>
      have ht : t ≠ "" := h
      have e : t = s := hb
      exact fun hs => ht (e.trans hs)
    | param m => exact hb

namespace Pattern

theorem fits_of_covers {p q : Pattern} {ss : List String}
    (h : List.Forall₂ Segment.Covers q p) (hp : List.Forall₂ Segment.Fits p ss) :
    List.Forall₂ Segment.Fits q ss := by
  induction h generalizing ss with
  | nil => exact hp
  | cons hab _ ih =>
    cases hp with
    | cons hs hss => exact .cons (hab.fits hs) (ih hss)

theorem MoreLiteral.covers {p q : Pattern} (h : p.MoreLiteral q) (hp : p.Plain) :
    List.Forall₂ Segment.Covers q p := by
  obtain ⟨h, -⟩ := h
  induction h with
  | nil => exact .nil
  | @cons a b p q hab _ ih =>
    have ha : IsPlain a.text := hp a List.mem_cons_self
    refine .cons ?_ (ih fun s hs => hp s (List.mem_cons_of_mem _ hs))
    rcases hab with rfl | ⟨hlit, hpar⟩
    · cases a with
      | literal t => exact rfl
      | param n => exact trivial
    · cases b with
      | literal t => cases hpar
      | param n =>
        cases a with
        | literal t => exact ha.1
        | param m => exact trivial

theorem MoreLiteral.hasParams {p q : Pattern} (h : p.MoreLiteral q) : q.hasParams = true := by
  obtain ⟨h, hne⟩ := h
  induction h with
  | nil => exact absurd rfl hne
  | @cons a b p q hab _ ih =>
    by_cases hpar : b.isParam = true
    · simp [Pattern.hasParams, hpar]
    · have e : a = b := hab.resolve_right fun h => hpar h.2
      have hq := ih fun epq => hne (by rw [e, epq])
      have hq' : q.any Segment.isParam = true := hq
      simp [Pattern.hasParams, hq']

theorem fits_fill {v : String} (hv : v ≠ "") (p : Pattern) :
    List.Forall₂ Segment.Fits p (p.fill v) := by
  induction p with
  | nil => exact .nil
  | cons s p ih =>
    cases s with
    | literal t => exact .cons rfl ih
    | param n => exact .cons hv ih

theorem isPlain_fill {v : String} (hv : IsPlain v) {p : Pattern} (hp : p.Plain) :
    ∀ s ∈ p.fill v, IsPlain s := by
  intro s hs
  obtain ⟨seg, hseg, rfl⟩ := List.mem_map.mp hs
  cases seg with
  | literal t => exact hp _ hseg
  | param n => exact hv

/-- A pattern that fits a text which none of its literals has covers what the text stands for. -/
theorem covers_of_fits_fill {v : String} {p q : Pattern} (hv : .literal v ∉ q)
    (h : List.Forall₂ Segment.Fits q (p.fill v)) : List.Forall₂ Segment.Covers q p := by
  induction p generalizing q with
  | nil =>
    cases h with
    | nil => exact .nil
  | cons s p ih =>
    cases h with
    | @cons a _ q _ ha hrest =>
      refine .cons ?_ (ih (fun hm => hv (List.mem_cons_of_mem _ hm)) hrest)
      cases a with
      | literal t =>
        cases s with
        | literal u =>
          have e : t = u := ha
          rw [e]
          exact rfl
        | param n =>
          have e : t = v := ha
          exact absurd (e ▸ List.mem_cons_self) hv
      | param m =>
        cases s with
        | literal u => exact ha
        | param n => exact trivial

end Pattern

/-- There is always a plain text that is not among finitely many. -/
theorem exists_isPlain_not_mem (texts : List String) : ∃ v, IsPlain v ∧ v ∉ texts := by
  refine ⟨String.ofList (List.replicate ((texts.map String.length).max?.getD 0 + 1) 'x'), ?_, ?_⟩
  · refine isPlain_ofList.mpr ⟨by simp, fun h => ?_⟩
    have := List.eq_of_mem_replicate h
    cases this
  · intro hmem
    have hle := List.le_max?_getD_of_mem (k := 0) (List.mem_map_of_mem (f := String.length) hmem)
    rw [String.length_ofList, List.length_replicate] at hle
    omega

/-! ## Routes that are tried before another -/

/-- the request has a method and a path that the route fits -/
def Route.Answers (r : Route) (token path : String) : Prop :=
  ∃ m, Method.ofToken? token = some m ∧ r.fits m (splitPath path) = true

theorem Route.answers_of_covers {r q : Route} {token path : String} (hm : q.method = r.method)
    (hc : List.Forall₂ Segment.Covers q.pattern r.pattern) (h : r.Answers token path) :
    q.Answers token path := by
  obtain ⟨m, ht, hf⟩ := h
  obtain ⟨hmr, hfr⟩ := Route.fits_iff.mp hf
  exact ⟨m, ht, Route.fits_iff.mpr ⟨hm.trans hmr, Pattern.fits_of_covers hc hfr⟩⟩

namespace RouteIndex

/-- the routes that a request is compared with before `r` -/
def triedBefore (index : RouteIndex) (r : Route) : List Route := index.routes.takeWhile (· ≠ r)

theorem find?_eq_some_iff {α : Type} [DecidableEq α] {l : List α} {p : α → Bool} {a : α} :
    l.find? p = some a ↔ a ∈ l ∧ p a = true ∧ ∀ b ∈ l.takeWhile (· ≠ a), p b = false := by
  induction l with
  | nil => simp
  | cons x l ih =>
    by_cases hx : x = a
    · subst hx
      cases hp : p x with
      | true => simp [hp]
      | false =>
        simp only [List.find?_cons, hp]
        constructor
        · intro h
          have hx := List.find?_some h
          rw [hp] at hx
          cases hx
        · rintro ⟨_, h, _⟩
          cases h
    · have hx' : a ≠ x := fun e => hx e.symm
      cases hp : p x <;> simp [hp, hx, hx', ih]

theorem matchRequest_eq_some_iff {index : RouteIndex} {token path : String} {r : Route} :
    (index.matchRequest token path).map (·.route) = some r ↔
      r ∈ index.routes ∧ r.Answers token path ∧ ∀ q ∈ index.triedBefore r, ¬ q.Answers token path := by
  unfold matchRequest Route.Answers
  cases ht : Method.ofToken? token with
  | none => simp
  | some m =>
    have hfind : (Route.firstMatch index.routes m (splitPath path)).map (·.route) =
        index.routes.find? (Route.fits m (splitPath path)) := by
      rw [Route.firstMatch_eq_head?, List.head?_filter]
      cases hf : index.routes.find? (Route.fits m (splitPath path)) with
      | none => rfl
      | some q =>
        have hq : q.fits m (splitPath path) = true := List.find?_some hf
        obtain ⟨ps, hps⟩ := Option.isSome_iff_exists.mp hq
        simp [hps]
    show (Route.firstMatch index.routes m (splitPath path)).map (·.route) = some r ↔ _
    rw [hfind, find?_eq_some_iff]
    simp [triedBefore]

theorem of_matchRequest {index : RouteIndex} {token path : String} {m : RouteMatch}
    (h : index.matchRequest token path = some m) : m.route ∈ index.routes ∧
      m.route.Answers token path ∧ ∀ q ∈ index.triedBefore m.route, ¬ q.Answers token path := by
  refine matchRequest_eq_some_iff.mp ?_
  rw [h]
  rfl

/-- A literal route is tried before a route of the same length that has parameters. -/
theorem mem_triedBefore {index : RouteIndex} {r₁ r₂ : Route} (h₁ : r₁ ∈ index.routes)
    (hlen : r₁.pattern.length = r₂.pattern.length) (hlit : r₁.hasParams = false)
    (hpar : r₂.hasParams = true) : r₁ ∈ index.triedBefore r₂ := by
  obtain ⟨routes, hranked⟩ := index
  unfold triedBefore
  induction routes with
  | nil => cases h₁
  | cons q routes ih =>
    obtain ⟨hq, hrest⟩ := List.pairwise_cons.mp hranked
    by_cases hq₂ : q = r₂
    · rcases List.mem_cons.mp h₁ with e | hmem
      · rw [← hq₂, ← e, hlit] at hpar
        cases hpar
      · have hrank := hq r₁ hmem
        simp [Route.ranksBefore, hq₂, hlen, hlit, hpar] at hrank
    · rw [List.takeWhile_cons_of_pos (by simpa using hq₂)]
      rcases List.mem_cons.mp h₁ with e | hmem
      · exact e ▸ List.mem_cons_self
      · exact List.mem_cons_of_mem _ (ih hrest hmem)

/-! ## The condition -/

section
variable {index : RouteIndex} (plain : ∀ r ∈ index.routes, r.pattern.Plain)
include plain

/-- a request that only routes which cover `r` answer -/
theorem exists_request {r : Route} (hr : r ∈ index.routes) :
    ∃ path, r.Answers r.method.name path ∧
      ∀ q ∈ index.routes, q.Answers r.method.name path →
        q.method = r.method ∧ List.Forall₂ Segment.Covers q.pattern r.pattern := by
  obtain ⟨v, hv, hfresh⟩ := exists_isPlain_not_mem
    ((index.routes.flatMap fun q => q.pattern).map Segment.text)
  have hsplit := splitPath_pathOf (Pattern.isPlain_fill hv (plain r hr))
  have hname : Method.ofToken? r.method.name = some r.method := Method.ofChars?_name r.method
  refine ⟨pathOf (r.pattern.fill v), ⟨r.method, hname, ?_⟩, ?_⟩
  · rw [hsplit]
    exact Route.fits_iff.mpr ⟨rfl, Pattern.fits_fill hv.1 r.pattern⟩
  · rintro q hq ⟨m, hm, hf⟩
    rw [hname] at hm
    cases hm
    rw [hsplit] at hf
    obtain ⟨hqm, hqf⟩ := Route.fits_iff.mp hf
    refine ⟨hqm, Pattern.covers_of_fits_fill (fun hlit => hfresh ?_) hqf⟩
    exact List.mem_map.mpr ⟨.literal v, List.mem_flatMap.mpr ⟨q, hq, hlit⟩, rfl⟩

theorem not_returned_iff {r₁ r₂ : Route} (h₁ : r₁ ∈ index.routes) (h₂ : r₂ ∈ index.routes)
    (hm : r₁.method = r₂.method) (hl : r₁.pattern.MoreLiteral r₂.pattern) :
    (∀ token path, r₁.Answers token path → r₂.Answers token path →
        (index.matchRequest token path).map (·.route) ≠ some r₂) ↔
      ∃ r₀ ∈ index.triedBefore r₂,
        r₀.method = r₁.method ∧ List.Forall₂ Segment.Covers r₀.pattern r₁.pattern := by
  constructor
  · intro h
    obtain ⟨path, ha₁, honly⟩ := exists_request plain h₁
    have ha₂ := Route.answers_of_covers hm.symm (hl.covers (plain r₁ h₁)) ha₁
    by_contra hnone
    refine h r₁.method.name path ha₁ ha₂ (matchRequest_eq_some_iff.mpr ⟨h₂, ha₂, ?_⟩)
    intro q hq haq
    exact hnone ⟨q, hq, honly q (List.takeWhile_subset _ hq) haq⟩
  · rintro ⟨r₀, hbefore, hm₀, hc₀⟩ token path ha₁ _ hret
    obtain ⟨_, _, hnone⟩ := matchRequest_eq_some_iff.mp hret
    exact hnone r₀ hbefore (Route.answers_of_covers hm₀ hc₀ ha₁)

end

/-- **A more literal route wins exactly where it is covered in time.**  Of two routes of a scanned
index, `r₁` more literal than `r₂`, no request that both answer gets `r₂` if and only if some route
that covers `r₁`, be it `r₁` itself, is tried before `r₂`; so it is whenever `r₁` has no parameters. -/
theorem moreLiteral_wins_iff {d : Disk} {root : Path} {base : String} {index : RouteIndex}
    (hb : build d root base = .ok index) {r₁ r₂ : Route} (h₁ : r₁ ∈ index.routes)
    (h₂ : r₂ ∈ index.routes) (hm : r₁.method = r₂.method)
    (hl : r₁.pattern.MoreLiteral r₂.pattern) :
    ((∀ token path, r₁.Answers token path → r₂.Answers token path →
        (index.matchRequest token path).map (·.route) ≠ some r₂) ↔
      ∃ r₀ ∈ index.triedBefore r₂,
        r₀.method = r₁.method ∧ List.Forall₂ Segment.Covers r₀.pattern r₁.pattern) ∧
    (r₁.hasParams = false → ∀ token path, r₁.Answers token path → r₂.Answers token path →
        (index.matchRequest token path).map (·.route) ≠ some r₂) := by
  have plain := plain_of_build hb
  refine ⟨not_returned_iff plain h₁ h₂ hm hl, fun hlit token path ha₁ _ hret => ?_⟩
  have hbefore : r₁ ∈ index.triedBefore r₂ := mem_triedBefore h₁ hl.1.length_eq hlit hl.hasParams
  exact (matchRequest_eq_some_iff.mp hret).2.2 r₁ hbefore ha₁

/-! ## A route that loses -/

namespace Overlap

def mocks : FileName := ⟨Utf8.toBytes "mocks", by decide⟩
def wide : FileName := ⟨Utf8.toBytes "-[kind]-[id].json", by decide⟩
def narrow : FileName := ⟨Utf8.toBytes "user-[id].json", by decide⟩

/-- The file of `/:kind/:id` comes before that of `/user/:id`. -/
def disk : Disk :=
  ((Disk.empty.put [mocks] (.directory .directory)).put [mocks, wide] (.file .file [])).put
    [mocks, narrow] (.file .file [])

def anyKind : Route :=
  ⟨.get, [.param "kind", .param "id"], .ofText "mocks/-[kind]-[id].json"⟩

def user : Route := ⟨.get, [.literal "user", .param "id"], .ofText "mocks/user-[id].json"⟩

theorem build_disk :
    ∃ index, build disk (.ofText "mocks") "" = .ok index ∧ index.routes = [anyKind, user] := by
  have hgives : disk.Gives (.ofText "mocks") [wide, narrow] := ⟨[mocks], .directory, rfl, rfl, .refl _⟩
  have hstat : ∀ n ∈ [wide, narrow], disk.stat ((Path.ofText "mocks").join n) = .ok .file :=
    List.forall_mem_cons.mpr ⟨rfl, List.forall_mem_singleton.mpr rfl⟩
  exact ⟨ofRoutes [anyKind, user], build_of_gives hgives (by decide) hstat (by decide +kernel),
    List.mergeSort_of_pairwise (by decide)⟩

theorem moreLiteral : user.pattern.MoreLiteral anyKind.pattern :=
  ⟨.cons (.inr ⟨rfl, rfl⟩) (.cons (.inl rfl) .nil), by decide⟩

theorem user_answers : user.Answers "GET" "/user/7" := by
  have hsplit : splitPath "/user/7" = ["user", "7"] := by decide
  refine ⟨.get, by decide, Route.fits_iff.mpr ⟨rfl, ?_⟩⟩
  rw [hsplit]
  exact .cons rfl (.cons (by simp [Segment.Fits]) .nil)

theorem anyKind_answers : anyKind.Answers "GET" "/user/7" := by
  have hcovers : List.Forall₂ Segment.Covers anyKind.pattern user.pattern :=
    .cons (show "user" ≠ "" by decide) (.cons trivial .nil)
  exact Route.answers_of_covers (r := user) rfl hcovers user_answers

end Overlap

theorem moreLiteral_wins_iff_overlap :
    ∃ index, build Overlap.disk (.ofText "mocks") "" = .ok index ∧
      ((∀ token path, Overlap.user.Answers token path → Overlap.anyKind.Answers token path →
          (index.matchRequest token path).map (·.route) ≠ some Overlap.anyKind) ↔
        ∃ r₀ ∈ index.triedBefore Overlap.anyKind, r₀.method = Overlap.user.method ∧
          List.Forall₂ Segment.Covers r₀.pattern Overlap.user.pattern) := by
  obtain ⟨index, hb, hr⟩ := Overlap.build_disk
  have h₁ : Overlap.user ∈ index.routes := by rw [hr]; simp
  have h₂ : Overlap.anyKind ∈ index.routes := by rw [hr]; simp
  exact ⟨index, hb, (moreLiteral_wins_iff hb h₁ h₂ rfl Overlap.moreLiteral).1⟩

/-- `/user/7` gets `/:kind/:id`, although there is `/user/:id`. -/
theorem not_moreLiteral_wins :
    ¬ ∀ (d : Disk) (root : Path) (base : String) (index : RouteIndex),
      build d root base = .ok index → ∀ r₁ ∈ index.routes, ∀ r₂ ∈ index.routes,
        r₁.method = r₂.method → r₁.pattern.MoreLiteral r₂.pattern →
          ∀ token path, r₁.Answers token path → r₂.Answers token path →
            (index.matchRequest token path).map (·.route) ≠ some r₂ := by
  intro h
  obtain ⟨index, hb, hr⟩ := Overlap.build_disk
  have h₁ : Overlap.user ∈ index.routes := by rw [hr]; simp
  have h₂ : Overlap.anyKind ∈ index.routes := by rw [hr]; simp
  have hfirst : index.triedBefore Overlap.anyKind = [] := by
    rw [triedBefore, hr]
    simp
  have hret : (index.matchRequest "GET" "/user/7").map (·.route) = some Overlap.anyKind := by
    rw [matchRequest_eq_some_iff, hfirst]
    exact ⟨h₂, Overlap.anyKind_answers, by simp⟩
  exact h _ _ _ index hb _ h₁ _ h₂ rfl Overlap.moreLiteral _ _ Overlap.user_answers
    Overlap.anyKind_answers hret

end RouteIndex

end CannedApi
