import CannedApi.Proofs.Route.Labels
import CannedApi.Proofs.Server.Reloads
import Mathlib.Data.Nat.Init

/-!
# What a refusal lists

A request without a route is told which routes there are.  For that the index in use is looked at a second
time, after the request has been resolved, and a reload may have published in between.
`ServerRun.refusal_lists` says which index the list is from: the one that the request was resolved against
if nothing was published between the two looks, and otherwise the one published last between them.  In the
first case the list has no label that spells the request.
-/

namespace CannedApi

/-- what was sent to a request that has no route, with the index against which it was resolved -/
def ServerJob.refused? : ServerJob → Option (HttpRequest × DatedIndex × Response)
  | .request r (.finished x none response) => some (r, x, response)
  | _ => none

namespace ServerRun

/-- The next step of the `i`th job refuses the request `r`, resolved against `x`, with the labels of `y`. -/
def Refuses (i : Nat) (r : HttpRequest) (x y : DatedIndex) (s : ServerRun) : Prop :=
  s.jobs[i]? = some (.request r (.resolved x none)) ∧ s.current = y

variable {s : ServerRun} {moves : List ServerMove} {i : Nat} {j : ServerJob} {x : DatedIndex}

/-! ## The index in use between two moves -/

/-- no move between the `t`th and the `u`th puts an index in use -/
def Undisturbed (s : ServerRun) (moves : List ServerMove) (t u : Nat) : Prop :=
  ∀ v k z, t < v → v < u → ¬ s.TakesAt moves v k (Publishes k z)

/-- `y` is put in use between the `t`th move and the `u`th, and nothing after it -/
def PublishedLast (s : ServerRun) (moves : List ServerMove) (t u : Nat) (y : DatedIndex) : Prop :=
  ∃ v k, t < v ∧ v < u ∧ s.TakesAt moves v k (Publishes k y) ∧ s.Undisturbed moves v u

theorem undisturbed_succ (t : Nat) : s.Undisturbed moves t (t + 1) := by
  intro v k z htv hvu
  omega

theorem Undisturbed.succ {t u : Nat} (h : s.Undisturbed moves t u)
    (hu : ∀ k z, ¬ s.TakesAt moves u k (Publishes k z)) : s.Undisturbed moves t (u + 1) := by
  intro v k z htv hvu
  rcases Nat.lt_or_eq_of_le (Nat.le_of_lt_succ hvu) with h' | rfl
  · exact h v k z htv h'
  · exact hu k z

theorem PublishedLast.not_undisturbed {t u : Nat} {y : DatedIndex}
    (h : s.PublishedLast moves t u y) : ¬ s.Undisturbed moves t u := by
  obtain ⟨v, k, htv, hvu, hp, -⟩ := h
  exact fun hnone => hnone v k y htv hvu hp

/-- After a move that does not publish, the index in use is the one from before it until another is
published, and then it is the one published last. -/
theorem current_between {t u : Nat} (ht : ∀ k z, ¬ s.TakesAt moves t k (Publishes k z))
    (htu : t < u) :
    (s.Undisturbed moves t u ∧ (s.run (moves.take u)).current = (s.run (moves.take t)).current) ∨
      s.PublishedLast moves t u (s.run (moves.take u)).current := by
  -- on the later move: it publishes, or it leaves both the index in use and what was published last
  induction u, htu using Nat.le_induction with
  | base => exact Or.inl ⟨undisturbed_succ t, current_take_succ ht⟩
  | succ u htu ih =>
    by_cases hu : ∃ k z, s.TakesAt moves u k (Publishes k z)
    · obtain ⟨k, z, hp⟩ := hu
      have e : (s.run (moves.take (u + 1))).current = z := by
        rw [hp.run_take_succ, step_of_publishes hp.2]
      rw [e]
      exact Or.inr ⟨u, k, htu, Nat.lt_succ_self u, hp, undisturbed_succ u⟩
    · have hu' : ∀ k z, ¬ s.TakesAt moves u k (Publishes k z) := fun k z hp => hu ⟨k, z, hp⟩
      rw [current_take_succ hu']
      rcases ih with ⟨hnone, e⟩ | ⟨v, k, htv, hvu, hp, hlast⟩
      · exact Or.inl ⟨hnone.succ hu', e⟩
      · exact Or.inr ⟨v, k, htv, Nat.lt_succ_of_lt hvu, hp, hlast.succ hu'⟩

/-! ## Every index in use was read from a directory -/

theorem exists_build_current {c : Settings} {a : Template.Ambient} {d : Disk}
    (hs : start c a d = .ok s) (moves : List ServerMove) :
    ∃ d' root base, RouteIndex.build d' root base = .ok (s.run moves).current.index := by
  induction moves using List.reverseRecOn with
  | nil => exact ⟨_, _, _, (of_start hs).2.1⟩
  | append_singleton moves m ih =>
    have hrun : s.run (moves ++ [m]) = (s.run moves).step m := run_append s moves [m]
    rw [hrun]
    rcases current_step (s.run moves) m with h | ⟨k, -, hk⟩
    · rw [h]
      exact ih
    · obtain ⟨t, -, -, hb, -⟩ := exists_reads (jobs_of_start hs) hk rfl
      exact ⟨_, _, _, hb⟩

/-! ## Refusals -/

theorem exists_refuses {response : Response} {r : HttpRequest} (hs : s.jobs = [])
    (hj : (s.run moves).jobs[i]? = some j) (hx : j.refused? = some (r, x, response)) :
    ∃ u y, s.TakesAt moves u i (Refuses i r x y) ∧
      response = .notFound r.method r.target.path y.index.labels := by
  have h : ∃ u, s.TakesAt moves u i (fun v => Refuses i r x v.current v ∧
      response = .notFound r.method r.target.path v.current.index.labels) := by
    refine exists_takesAt (F := fun j => j.refused? = some (r, x, response)) hs
      (by simp [ServerJob.refused?]) (by simp [ServerJob.refused?])
      (fun v v' j j' hj hadv hF => ?_) hj hx
    cases hadv with
    | refuse q against =>
      cases hF
      exact Or.inr ⟨⟨hj, rfl⟩, rfl⟩
    | stayRequest => exact Or.inl hF
    | _ => cases hF
  obtain ⟨u, hm, hr, he⟩ := h
  exact ⟨u, _, ⟨hm, hr⟩, he⟩

/-- **A refusal lists the index in use when the list is made.**  The `i`th job, a request, has been
resolved against `x` without finding a route, by the `t`th move, and has been refused by the `u`th.  The
labels listed are those of `y`.  If nothing was published between the two moves then `y` is `x`, and none
of its labels spells the request; otherwise `y` is the index published last between them. -/
theorem refusal_lists {c : Settings} {a : Template.Ambient} {d : Disk} (hs : start c a d = .ok s)
    {r : HttpRequest} {response : Response}
    (hj : (s.run moves).jobs[i]? = some (.request r (.finished x none response))) :
    ∃ t u y, t < u ∧ s.TakesAt moves t i (Resolves i r x) ∧ s.TakesAt moves u i (Refuses i r x y) ∧
      response = .notFound r.method r.target.path y.index.labels ∧
      (s.Undisturbed moves t u → y = x ∧ (HttpRequest.isToken r.method = true →
        ∀ q ∈ y.index.routes, q.label ≠ s!"{r.method} {r.target.path}")) ∧
      (¬ s.Undisturbed moves t u → s.PublishedLast moves t u y) := by
  have hjobs := jobs_of_start hs
  obtain ⟨u, y, hrefuse, hresponse⟩ := exists_refuses hjobs hj rfl
  obtain ⟨hnone, t, ht⟩ := exists_resolves hjobs hrefuse.2.1 rfl
  have htu : t < u := by
    have hlt := ht.lt_length
    rw [List.length_take] at hlt
    omega
  have hresolve := ht.of_take
  have hnot : ∀ k z, ¬ s.TakesAt moves t k (Publishes k z) := by
    intro k z hp
    obtain rfl := hp.job_eq hresolve
    have hj := hp.2
    rw [Publishes, hresolve.2.1] at hj
    cases hj
  have hbetween := current_between hnot htu
  rw [hrefuse.2.2, hresolve.2.2] at hbetween
  refine ⟨t, u, y, htu, hresolve, hrefuse, hresponse, fun hquiet => ?_, fun hdisturbed => ?_⟩
  · obtain ⟨-, rfl⟩ := hbetween.resolve_right fun h => h.not_undisturbed hquiet
    refine ⟨rfl, fun htoken => ?_⟩
    obtain ⟨d', root, base, hb⟩ := exists_build_current hs (moves.take t)
    rw [hresolve.2.2] at hb
    exact RouteIndex.label_ne_of_unmatched (RouteIndex.plain_of_build hb) htoken hnone.symm
  · exact hbetween.resolve_left fun h => hdisturbed h.1

/-! ## A refusal that lists what it refuses -/

/-- A request is resolved; then the files change and a reload publishes them, and only then the request is
refused. -/
def overtaken (d : Disk) (r : HttpRequest) : List ServerMove :=
  [.startRequest r, .advance 0, .change d, .startReload, .advance 1, .advance 1, .advance 0]

theorem run_overtaken (hjobs : s.jobs = []) {r : HttpRequest} {new : RouteIndex} {d : Disk}
    (hnone : s.current.index.matchRequest r.method r.target.path = none)
    (hnew : s.dispatcher.build d = .ok new) :
    (s.run (overtaken d r)).jobs[0]? =
      some (.request r (.finished s.current none (.notFound r.method r.target.path new.labels))) := by
  have hnone' : s.dispatcher.index.matchRequest r.method r.target.path = none := hnone
  simp [overtaken, run, step, advance, advanceReload, advanceRequest, current, Dispatcher.publish,
    Dispatcher.resolve, hjobs, hnone', hnew]

theorem Lost.labels_index : Lost.index.labels = ["GET /a"] := by
  have hroutes : Lost.index.routes = [⟨.get, [.literal "a"], .ofText "mocks/a.json"⟩] :=
    List.mergeSort_singleton _
  rw [RouteIndex.labels, hroutes]
  decide

/-- `/a` is refused, and the list of what there is has `GET /a`. -/
theorem Lost.run_overtaken_full :
    ∃ s, start settings ambient .empty = .ok s ∧
      (s.run (overtaken full request)).jobs[0]? =
        some (.request request (.finished ⟨.empty, 0⟩ none (.notFound "GET" "/a" ["GET /a"]))) := by
  obtain ⟨s, hs, hjobs, -, -, hcurrent, hbuild⟩ := start_of_build ambient build_empty
  have hnone : s.current.index.matchRequest request.method request.target.path = none := by
    rw [hcurrent]
    rfl
  have hnew : s.dispatcher.build full = .ok index := by rw [hbuild, build_full]
  have hrun := run_overtaken hjobs hnone hnew
  rw [hcurrent, labels_index] at hrun
  exact ⟨s, hs, hrun⟩

theorem Lost.list_ne : Response.notFound "GET" "/a" ["GET /a"] ≠ .notFound "GET" "/a" [] := by decide

theorem refusal_lists_overtaken :
    ∃ s, start Lost.settings Lost.ambient .empty = .ok s ∧
      ∃ t u y, t < u ∧
        s.TakesAt (overtaken Lost.full Lost.request) t 0 (Resolves 0 Lost.request ⟨.empty, 0⟩) ∧
        s.TakesAt (overtaken Lost.full Lost.request) u 0 (Refuses 0 Lost.request ⟨.empty, 0⟩ y) ∧
        Response.notFound "GET" "/a" ["GET /a"] = .notFound "GET" "/a" y.index.labels ∧
        s.PublishedLast (overtaken Lost.full Lost.request) t u y := by
  obtain ⟨s, hs, hrun⟩ := Lost.run_overtaken_full
  obtain ⟨t, u, y, htu, hresolve, hrefuse, hlist, hquiet, hdisturbed⟩ := refusal_lists hs hrun
  refine ⟨s, hs, t, u, y, htu, hresolve, hrefuse, hlist, hdisturbed fun h => ?_⟩
  rw [(hquiet h).1] at hlist
  exact Lost.list_ne hlist

/-- A refusal can list other routes than those against which the request was resolved, even a literal
route that is labelled as the request is spelled. -/
theorem not_refusal_lists_resolved :
    (¬ ∀ (c : Settings) (a : Template.Ambient) (d : Disk) (s : ServerRun),
      start c a d = .ok s → ∀ (moves : List ServerMove) (i : Nat) (r : HttpRequest) (x : DatedIndex)
        (response : Response),
        (s.run moves).jobs[i]? = some (.request r (.finished x none response)) →
          response = .notFound r.method r.target.path x.index.labels) ∧
    (¬ ∀ (c : Settings) (a : Template.Ambient) (d : Disk) (s : ServerRun),
      start c a d = .ok s → ∀ (moves : List ServerMove) (i : Nat) (r : HttpRequest) (x : DatedIndex)
        (labels : List String),
        (s.run moves).jobs[i]? =
            some (.request r (.finished x none (.notFound r.method r.target.path labels))) →
          ∀ q : Route, q.hasParams = false → q.label = s!"{r.method} {r.target.path}" →
            q.label ∉ labels) := by
  obtain ⟨s, hs, hrun⟩ := Lost.run_overtaken_full
  constructor
  · intro h
    have e := h _ _ _ s hs _ _ _ _ _ hrun
    exact Lost.list_ne e
  · intro h
    have hlabel : Route.label ⟨.get, [.literal "a"], .ofText "mocks/a.json"⟩ = "GET /a" := by decide
    have hnot := h _ _ _ s hs _ _ _ _ _ hrun _ rfl hlabel
    rw [hlabel] at hnot
    exact hnot List.mem_cons_self

end ServerRun

end CannedApi
