import CannedApi.Proofs.Except
import CannedApi.Proofs.Route.Walk
import CannedApi.Proofs.Server.Steps

/-!
# Reloads that overtake one another

Nothing keeps two reloads apart: each reads the directory, and publishes what it has read when it is
done.  So the index in use is the one published last, which need not be the one read last
(`ServerRun.resolved_fresh_iff`).  A reload that fails publishes nothing.
-/

namespace CannedApi

/-- the index that a reload has built -/
def ServerJob.built? : ServerJob → Option DatedIndex
  | .reload (.built x) => some x
  | .reload (.published x) => some x
  | .reload (.finished n (.ok index)) => some ⟨index, n⟩
  | _ => none

/-- the index that a reload has put in use -/
def ServerJob.published? : ServerJob → Option DatedIndex
  | .reload (.published x) => some x
  | .reload (.finished n (.ok index)) => some ⟨index, n⟩
  | _ => none

/-- the index against which a request has been resolved, with what came of it -/
def ServerJob.resolved? : ServerJob → Option (HttpRequest × DatedIndex × Option RouteMatch)
  | .request r (.resolved x found) => some (r, x, found)
  | .request r (.finished x found _) => some (r, x, found)
  | _ => none

theorem ServerJob.built?_of_published? {j : ServerJob} {x : DatedIndex}
    (h : j.published? = some x) : j.built? = some x := by
  cases j with
  | request r stage => cases h
  | reload stage =>
    cases stage with
    | begun | built => cases h
    | published y => exact h
    | finished n result =>
      cases result with
      | error e => cases h
      | ok index => exact h

theorem ServerJob.built?_of_advances {s s' : ServerRun} {j j' : ServerJob}
    (h : j.Advances s j' s') {x : DatedIndex} (hx : j.built? = some x) : j'.built? = some x := by
  cases h with
  | publish | clear | stayReload => exact hx
  | _ => cases hx

namespace ServerRun

/-- The next step of the `i`th job reads the directory, and `x` is what it builds. -/
def Reads (i : Nat) (x : DatedIndex) (s : ServerRun) : Prop :=
  s.jobs[i]? = some (.reload .begun) ∧ s.dispatcher.build s.disk = .ok x.index ∧
    s.readings = x.reading

/-- The next step of the `i`th job fails to read the directory, with `e`, at the `n`th reading. -/
def Fails (i n : Nat) (e : ScanError) (s : ServerRun) : Prop :=
  s.jobs[i]? = some (.reload .begun) ∧ s.dispatcher.build s.disk = .error e ∧ s.readings = n

/-- The next step of the `i`th job puts `x` in use. -/
def Publishes (i : Nat) (x : DatedIndex) (s : ServerRun) : Prop :=
  s.jobs[i]? = some (.reload (.built x))

/-- The next step of the `i`th job resolves the request `r` against `x`. -/
def Resolves (i : Nat) (r : HttpRequest) (x : DatedIndex) (s : ServerRun) : Prop :=
  s.jobs[i]? = some (.request r .begun) ∧ s.current = x

variable {s : ServerRun} {moves : List ServerMove} {i : Nat} {j : ServerJob} {x : DatedIndex}

/-! ## How a job came to what it has -/

theorem exists_reads (hs : s.jobs = []) (hj : (s.run moves).jobs[i]? = some j)
    (hx : j.built? = some x) : ∃ t, s.TakesAt moves t i (Reads i x) := by
  refine exists_takesAt (F := fun j => j.built? = some x) hs (by simp [ServerJob.built?])
    (by simp [ServerJob.built?]) (fun u u' j j' hj hadv hF => ?_) hj hx
  cases hadv with
  | read index hb =>
    cases hF
    exact Or.inr ⟨hj, hb, rfl⟩
  | publish | clear | stayReload => exact Or.inl hF
  | _ => cases hF

theorem exists_fails (hs : s.jobs = []) {n : Nat} {e : ScanError}
    (hj : (s.run moves).jobs[i]? = some (.reload (.finished n (.error e)))) :
    ∃ t, s.TakesAt moves t i (Fails i n e) := by
  refine exists_takesAt (F := fun j => j = .reload (.finished n (.error e))) hs (by simp) (by simp)
    (fun u u' j j' hjob hadv hF => ?_) hj rfl
  cases hadv with
  | fail e hb =>
    cases hF
    exact Or.inr ⟨hjob, hb, rfl⟩
  | stayReload => exact Or.inl hF
  | _ => cases hF

theorem exists_publishes (hs : s.jobs = []) (hj : (s.run moves).jobs[i]? = some j)
    (hx : j.published? = some x) : ∃ t, s.TakesAt moves t i (Publishes i x) := by
  refine exists_takesAt (F := fun j => j.published? = some x) hs (by simp [ServerJob.published?])
    (by simp [ServerJob.published?]) (fun u u' j j' hj hadv hF => ?_) hj hx
  cases hadv with
  | publish y =>
    cases hF
    exact Or.inr hj
  | clear | stayReload => exact Or.inl hF
  | _ => cases hF

theorem exists_resolves (hs : s.jobs = []) (hj : (s.run moves).jobs[i]? = some j)
    {r : HttpRequest} {found : Option RouteMatch} (hx : j.resolved? = some (r, x, found)) :
    found = x.index.matchRequest r.method r.target.path ∧
      ∃ t, s.TakesAt moves t i (Resolves i r x) := by
  have h : ∃ t, s.TakesAt moves t i
      (fun u => Resolves i r x u ∧ found = x.index.matchRequest r.method r.target.path) := by
    refine exists_takesAt (F := fun j => j.resolved? = some (r, x, found)) hs
      (by simp [ServerJob.resolved?]) (by simp [ServerJob.resolved?])
      (fun u u' j j' hj hadv hF => ?_) hj hx
    cases hadv with
    | resolve q =>
      cases hF
      exact Or.inr ⟨⟨hj, rfl⟩, rfl⟩
    | answer | refuse | stayRequest => exact Or.inl hF
    | _ => cases hF
  obtain ⟨t, hm, hr, hfound⟩ := h
  exact ⟨hfound, t, hm, hr⟩

/-! ## The index in use -/

theorem step_of_publishes (h : s.Publishes i x) : (s.step (.advance i)).current = x := by
  simp [step, show s.jobs[i]? = _ from h, advance, advanceReload, current, Dispatcher.publish]

theorem current_step (s : ServerRun) (m : ServerMove) :
    (s.step m).current = s.current ∨ ∃ i, m = .advance i ∧ s.Publishes i (s.step m).current := by
  refine step_keeps
    (P := fun t => t.current = s.current ∨ ∃ i, m = .advance i ∧ s.Publishes i t.current)
    (Or.inl rfl) (fun _ => Or.inl rfl) (fun _ _ => Or.inl rfl) (fun i j j' s' hm hj hadv => ?_)
  rcases ServerJob.current_of_advances hadv with h | h
  · exact Or.inl h
  · rw [h] at hj
    exact Or.inr ⟨i, hm, hj⟩

/-- A move that does not publish leaves the index in use as it is. -/
theorem current_take_succ {t : Nat} (ht : ∀ k z, ¬ s.TakesAt moves t k (Publishes k z)) :
    (s.run (moves.take (t + 1))).current = (s.run (moves.take t)).current := by
  cases hm : moves[t]? with
  | none => rw [List.take_add_one, hm, Option.toList_none, List.append_nil]
  | some m =>
    rw [List.take_add_one, hm, run_append]
    rcases current_step (s.run (moves.take t)) m with h | ⟨k, rfl, hk⟩
    · exact h
    · exact absurd ⟨hm, hk⟩ (ht k _)

/-- Once an index has been published, the index in use is that one or was published later. -/
theorem exists_publishes_current {t : Nat} (h : s.TakesAt moves t i (Publishes i x)) :
    ∃ u k, t ≤ u ∧ s.TakesAt moves u k (Publishes k (s.run moves).current) := by
  induction moves using List.reverseRecOn with
  | nil => cases h.1
  | append_singleton moves m ih =>
    have hrun : s.run (moves ++ [m]) = (s.run moves).step m := run_append s moves [m]
    rw [hrun]
    rcases current_step (s.run moves) m with hc | ⟨k, rfl, hk⟩
    · rw [hc]
      rcases h.of_snoc with h | ⟨rfl, rfl, hp⟩
      · obtain ⟨u, k, hu, hk⟩ := ih h
        exact ⟨u, k, hu, hk.append [m]⟩
      · rw [← hc, step_of_publishes hp]
        exact ⟨_, i, Nat.le_refl _, h⟩
    · exact ⟨_, k, Nat.le_of_lt_succ (by simpa using h.lt_length), takesAt_last hk⟩

/-- A reload that has put `x` in use has built nothing else. -/
theorem exists_built {t u : Nat} (h : s.TakesAt moves t i (Publishes i x)) (htu : t ≤ u) :
    ∃ j, (s.run (moves.take u)).jobs[i]? = some j ∧ j.built? = some x := by
  rw [run_take s moves htu]
  exact job_keeps (F := fun j => j.built? = some x)
    (fun _ _ _ _ hadv hx => ServerJob.built?_of_advances hadv hx) ⟨_, h.2, rfl⟩ _

theorem not_publishes_of_failed {n : Nat} {e : ScanError}
    (hj : (s.run moves).jobs[i]? = some (.reload (.finished n (.error e)))) (t : Nat) :
    ¬ s.TakesAt moves t i (Publishes i x) := by
  intro hp
  obtain ⟨j, hjob, hbuilt⟩ := exists_built hp (Nat.le_of_lt hp.lt_length)
  rw [List.take_length, hj] at hjob
  cases hjob
  cases hbuilt

/-- No move of a reload that fails changes the index in use. -/
theorem current_of_failed {n : Nat} {e : ScanError}
    (hj : (s.run moves).jobs[i]? = some (.reload (.finished n (.error e)))) {t : Nat}
    (ht : moves[t]? = some (.advance i)) :
    (s.run (moves.take (t + 1))).current = (s.run (moves.take t)).current := by
  refine current_take_succ fun k z hp => ?_
  obtain rfl : k = i := by
    have hm := hp.1
    rw [ht] at hm
    cases hm
    rfl
  exact not_publishes_of_failed hj t hp

/-! ## What a reading gives -/

/-- No move changes what the directory is read as. -/
theorem build_step (s : ServerRun) (m : ServerMove) (d : Disk) :
    (s.step m).dispatcher.build d = s.dispatcher.build d :=
  step_keeps (P := fun t => t.dispatcher.build d = s.dispatcher.build d) rfl (fun _ => rfl)
    (fun _ _ => rfl) fun _ _ _ _ _ _ hadv => ServerJob.build_of_advances hadv d

theorem build_run (s : ServerRun) (moves : List ServerMove) (d : Disk) :
    (s.run moves).dispatcher.build d = s.dispatcher.build d := by
  induction moves generalizing s with
  | nil => rfl
  | cons m moves ih => rw [run_cons, ih, build_step]

/-! ## Readings in their order -/

theorem readings_le_step (s : ServerRun) (m : ServerMove) : s.readings ≤ (s.step m).readings :=
  step_keeps (P := fun t => s.readings ≤ t.readings) (Nat.le_refl _) (fun _ => Nat.le_refl _)
    (fun _ _ => Nat.le_refl _) fun _ _ _ _ _ _ hadv => (ServerJob.readings_of_advances hadv).1

theorem readings_le_run (s : ServerRun) (moves : List ServerMove) :
    s.readings ≤ (s.run moves).readings := by
  induction moves generalizing s with
  | nil => exact Nat.le_refl _
  | cons m moves ih => exact Nat.le_trans (readings_le_step s m) (ih (s.step m))

theorem step_of_reads (h : s.Reads i x) : (s.step (.advance i)).readings = x.reading + 1 := by
  obtain ⟨j', s', hadv, e⟩ := step_advance h.1
  rw [e, ← h.2.2]
  exact (ServerJob.readings_of_advances hadv).2 rfl

/-- Later readings have greater numbers. -/
theorem reading_lt_of_reads {t u k : Nat} {y : DatedIndex} (hx : s.TakesAt moves t i (Reads i x))
    (hy : s.TakesAt moves u k (Reads k y)) (htu : t < u) : x.reading < y.reading := by
  have hle := readings_le_run (s.run (moves.take (t + 1))) ((moves.take u).drop (t + 1))
  rw [← run_take s moves htu, hx.run_take_succ, step_of_reads hx.2, hy.2.2.2] at hle
  exact hle

/-! ## An older index in use -/

/-- The `i`th job is a reload that reads `x` at its move `read` and puts it in use at `publish`. -/
def Brings (s : ServerRun) (moves : List ServerMove) (i : Nat) (x : DatedIndex)
    (read publish : Nat) : Prop :=
  s.TakesAt moves read i (Reads i x) ∧ s.TakesAt moves publish i (Publishes i x)

theorem Brings.of_take {t read publish : Nat} (h : s.Brings (moves.take t) i x read publish) :
    s.Brings moves i x read publish :=
  ⟨h.1.of_take, h.2.of_take⟩

theorem Brings.append {read publish : Nat} (h : s.Brings moves i x read publish)
    (more : List ServerMove) : s.Brings (moves ++ more) i x read publish :=
  ⟨h.1.append more, h.2.append more⟩

theorem exists_brings (hs : s.jobs = []) (hj : (s.run moves).jobs[i]? = some j)
    (hx : j.published? = some x) : ∃ read publish, s.Brings moves i x read publish := by
  obtain ⟨read, hread⟩ := exists_reads hs hj (ServerJob.built?_of_published? hx)
  obtain ⟨publish, hpublish⟩ := exists_publishes hs hj hx
  exact ⟨read, publish, hread, hpublish⟩

/-- The index in use, once `x` has been published, came from a reload that published it then or later. -/
theorem exists_brings_current (hs : s.jobs = []) {read publish : Nat}
    (h : s.Brings moves i x read publish) :
    ∃ k read' publish', publish ≤ publish' ∧
      s.Brings moves k (s.run moves).current read' publish' := by
  obtain ⟨publish', k, hle, hpublish⟩ := exists_publishes_current h.2
  obtain ⟨read', hread⟩ := exists_reads hs hpublish.2 (x := (s.run moves).current) rfl
  exact ⟨k, read', publish', hle, hread.of_take, hpublish⟩

/-- The `k`th job reads before the `i`th and puts its `y` in use after that one has put its `x`. -/
def Straggles (s : ServerRun) (moves : List ServerMove) (k : Nat) (y : DatedIndex) (i : Nat)
    (x : DatedIndex) : Prop :=
  k ≠ i ∧ ∃ read publish read' publish', s.Brings moves i x read publish ∧
    s.Brings moves k y read' publish' ∧ read' < read ∧ publish < publish'

theorem Straggles.reading_lt {k : Nat} {y : DatedIndex} (h : s.Straggles moves k y i x) :
    y.reading < x.reading := by
  obtain ⟨-, read, publish, read', publish', hx, hy, hread, -⟩ := h
  exact reading_lt_of_reads hy.1 hx.1 hread

/-- Of two indices, an older one that is published later comes from a straggler. -/
theorem Brings.straggles {read publish k read' publish' : Nat} {y : DatedIndex}
    (hx : s.Brings moves i x read publish) (hy : s.Brings moves k y read' publish')
    (hle : publish ≤ publish') (hlt : y.reading < x.reading) : s.Straggles moves k y i x := by
  have hne : k ≠ i := by
    rintro rfl
    obtain ⟨j, hj, hbuilt⟩ := exists_built hx.2 hle
    rw [hy.2.2] at hj
    cases hj
    cases hbuilt
    exact absurd hlt (Nat.lt_irrefl _)
  have hread : read' < read := by
    rcases Nat.lt_trichotomy read' read with h | rfl | h
    · exact h
    · exact absurd (hy.1.job_eq hx.1) hne
    · exact absurd (reading_lt_of_reads hx.1 hy.1 h) (Nat.not_lt_of_ge (Nat.le_of_lt hlt))
  have hpublish : publish < publish' := by
    rcases Nat.lt_or_eq_of_le hle with h | rfl
    · exact h
    · exact absurd (hy.2.job_eq hx.2) hne
  exact ⟨hne, read, publish, read', publish', hx, hy, hread, hpublish⟩

/-- a server that has just been made: no jobs, and the index is what the directory gave -/
theorem of_start {c : Settings} {a : Template.Ambient} {d : Disk} (h : start c a d = .ok s) :
    s.jobs = [] ∧ RouteIndex.build d c.mockDir c.normalBase = .ok s.current.index ∧
      ∀ d', s.dispatcher.build d' = RouteIndex.build d' c.mockDir c.normalBase := by
  obtain ⟨x, hx, rfl⟩ := Except.map_eq_ok_iff.mp h
  obtain ⟨index, hb, rfl⟩ := Except.map_eq_ok_iff.mp hx
  exact ⟨rfl, hb, fun _ => rfl⟩

theorem jobs_of_start {c : Settings} {a : Template.Ambient} {d : Disk} (h : start c a d = .ok s) :
    s.jobs = [] :=
  (of_start h).1

/-- A request that starts after a reload has put `x` in use is resolved against what some reload has
put in use, at the same move or later. -/
theorem exists_brings_resolved (hs : s.jobs = []) {before after : List ServerMove}
    {read publish : Nat} (hx : s.Brings before i x read publish) {r : HttpRequest} {y : DatedIndex}
    {t k : Nat} (hk : (s.run before).jobs.length ≤ k)
    (ht : s.TakesAt (before ++ .startRequest r :: after) t k (Resolves k r y)) :
    ∃ l read' publish', publish ≤ publish' ∧ publish' < t ∧
      s.Brings (before ++ .startRequest r :: after) l y read' publish' := by
  have hbt : before.length ≤ t := length_le_of_job hk ht.2.1
  have hx' : s.Brings ((before ++ .startRequest r :: after).take t) i x read publish := by
    rw [List.take_append, List.take_of_length_le hbt]
    exact hx.append _
  obtain ⟨l, read', publish', hle, hy⟩ := exists_brings_current hs hx'
  rw [ht.2.2] at hy
  have hlt := hy.2.lt_length
  rw [List.length_take] at hlt
  exact ⟨l, read', publish', hle, Nat.lt_of_lt_of_le hlt (Nat.min_le_left _ _), hy.of_take⟩

theorem Brings.build_eq {c : Settings} {a : Template.Ambient} {d : Disk} (hs : start c a d = .ok s)
    {read publish : Nat} (h : s.Brings moves i x read publish) :
    RouteIndex.build (s.run (moves.take read)).disk c.mockDir c.normalBase = .ok x.index := by
  rw [← (of_start hs).2.2, ← build_run s (moves.take read)]
  exact h.1.2.2.1

/-- **A reload is lost to a straggler alone.**  Let the `i`th job, a reload with the `n`th reading, have
returned after `before`; then a request starts, and after `after` it has been resolved against `y`.  Its
route is the one that `y` has, and `y` is what the directory gave to the reload that read it as the
reading with its number, and that had put it in use when the request was resolved.  `y` is not older than
the reading of the `i`th job, unless it comes from another reload, which read earlier and published later.
A reload that fails is told what was wrong with the directory, and none of its moves changes the index in
use. -/
theorem resolved_fresh_iff {c : Settings} {a : Template.Ambient} {d : Disk}
    (hs : start c a d = .ok s) :
    (∀ (before after : List ServerMove) (i n : Nat) (index : RouteIndex) (r : HttpRequest)
        (j : ServerJob) (y : DatedIndex) (found : Option RouteMatch),
      (s.run before).jobs[i]? = some (.reload (.finished n (.ok index))) →
      (s.run (before ++ .startRequest r :: after)).jobs[(s.run before).jobs.length]? = some j →
      j.resolved? = some (r, y, found) →
        found = y.index.matchRequest r.method r.target.path ∧
        (∃ t k read publish,
          s.TakesAt (before ++ .startRequest r :: after) t (s.run before).jobs.length
            (Resolves (s.run before).jobs.length r y) ∧
          s.Brings (before ++ .startRequest r :: after) k y read publish ∧ publish < t ∧
          RouteIndex.build (s.run ((before ++ .startRequest r :: after).take read)).disk c.mockDir
            c.normalBase = .ok y.index) ∧
        (n ≤ y.reading ↔
          ¬ ∃ k, s.Straggles (before ++ .startRequest r :: after) k y i ⟨index, n⟩)) ∧
    ∀ (moves : List ServerMove) (i n : Nat) (e : ScanError),
      (s.run moves).jobs[i]? = some (.reload (.finished n (.error e))) →
        (∃ t, s.TakesAt moves t i (Fails i n e) ∧
          RouteIndex.build (s.run (moves.take t)).disk c.mockDir c.normalBase = .error e) ∧
        ∀ t, moves[t]? = some (.advance i) →
          (s.run (moves.take (t + 1))).current = (s.run (moves.take t)).current := by
  have hjobs := jobs_of_start hs
  refine ⟨fun before after i n index r j y found hreload hrequest hy => ?_,
    fun moves i n e hfailed => ⟨?_, fun t ht => current_of_failed hfailed ht⟩⟩
  · obtain ⟨hfound, t, ht⟩ := exists_resolves hjobs hrequest hy
    obtain ⟨read, publish, hx⟩ := exists_brings hjobs hreload rfl
    obtain ⟨k, read', publish', hle, hlt, hy'⟩ :=
      exists_brings_resolved hjobs hx (Nat.le_refl _) ht
    refine ⟨hfound, ⟨t, k, read', publish', ht, hy', hlt, hy'.build_eq hs⟩, ?_, ?_⟩
    · rintro hfresh ⟨l, hl⟩
      exact absurd hl.reading_lt (Nat.not_lt_of_ge hfresh)
    · intro hnone
      by_contra hold
      exact hnone ⟨k, (hx.append _).straggles hy' hle (Nat.lt_of_not_le hold)⟩
  · obtain ⟨t, ht⟩ := exists_fails hjobs hfailed
    refine ⟨t, ht, ?_⟩
    rw [← (of_start hs).2.2, ← build_run s (moves.take t)]
    exact ht.2.2.1

/-! ## A reload that is lost -/

theorem start_of_build {c : Settings} {d : Disk} {index : RouteIndex} (a : Template.Ambient)
    (h : RouteIndex.build d c.mockDir c.normalBase = .ok index) :
    ∃ s, start c a d = .ok s ∧ s.jobs = [] ∧ s.disk = d ∧ s.readings = 1 ∧ s.current = ⟨index, 0⟩ ∧
      ∀ d', s.dispatcher.build d' = RouteIndex.build d' c.mockDir c.normalBase := by
  unfold start Dispatcher.new
  rw [h]
  exact ⟨_, rfl, rfl, rfl, rfl, rfl, fun _ => rfl⟩

/-- a request that is resolved as soon as it has started -/
theorem run_request (s : ServerRun) (r : HttpRequest) :
    (s.run [.startRequest r, .advance s.jobs.length]).jobs[s.jobs.length]? =
      some (.request r
        (.resolved s.current (s.current.index.matchRequest r.method r.target.path))) := by
  simp [run, step, advance, advanceRequest, current, Dispatcher.resolve]

/-- Two reloads start, and the first reads.  Then the files change, and the second goes all its way;
only then the first publishes. -/
def straggling (d : Disk) : List ServerMove :=
  [.startReload, .startReload, .advance 0, .change d, .advance 1, .advance 1, .advance 1, .advance 0]

theorem run_straggling (hjobs : s.jobs = []) {old new : RouteIndex} {d : Disk}
    (hold : s.dispatcher.build s.disk = .ok old) (hnew : s.dispatcher.build d = .ok new) :
    (s.run (straggling d)).jobs =
        [.reload (.published ⟨old, s.readings⟩), .reload (.finished (s.readings + 1) (.ok new))] ∧
      (s.run (straggling d)).current = ⟨old, s.readings⟩ := by
  simp [straggling, run, step, advance, advanceReload, current, Dispatcher.publish, hjobs, hold,
    hnew]

/-- The files change, and a reload cannot read them. -/
def failing (d : Disk) : List ServerMove := [.change d, .startReload, .advance 0]

theorem run_failing (hjobs : s.jobs = []) {e : ScanError} {d : Disk}
    (hfail : s.dispatcher.build d = .error e) :
    (s.run (failing d)).jobs = [.reload (.finished s.readings (.error e))] ∧
      (s.run (failing d)).current = s.current := by
  simp [failing, run, step, advance, advanceReload, current, Dispatcher.countReload, hjobs, hfail]

namespace Lost

theorem mocks_legal : IsFileName (Utf8.toBytes "mocks") := by decide

def mocks : FileName := ⟨_, mocks_legal⟩
def answer : FileName := ⟨Utf8.toBytes "a.json", by decide⟩

/-- a directory with one answer -/
def full : Disk :=
  (Disk.empty.put [mocks] (.directory .directory)).put [mocks, answer] (.file .file [])

/-- the directory without the answer, and it may not be read -/
def closed : Disk := Disk.empty.put [mocks] (.directory ⟨false, false, false⟩)

def settings : Settings := { mockDir := .ofText "mocks" }

def ambient : Template.Ambient := .ofSeed default 0

def request : HttpRequest := ⟨"GET", ⟨none, none, "/a", none⟩, [], []⟩

def index : RouteIndex := .ofRoutes [⟨.get, [.literal "a"], .ofText "mocks/a.json"⟩]

theorem build_empty : RouteIndex.build .empty settings.mockDir settings.normalBase = .ok .empty := by
  have hdir : Disk.empty.isDirectory settings.mockDir = false := rfl
  rw [RouteIndex.build, hdir]
  rfl

theorem index_ne_empty : index ≠ .empty := by
  intro h
  have hsize := congrArg RouteIndex.size h
  have hone : index.size = 1 := List.length_mergeSort _
  have hzero : RouteIndex.empty.size = 0 := rfl
  rw [hone, hzero] at hsize
  cases hsize

theorem gives_full : full.Gives settings.mockDir [answer] := ⟨[mocks], .directory, rfl, rfl, .refl _⟩

theorem build_full : RouteIndex.build full settings.mockDir settings.normalBase = .ok index := by
  have hstat : ∀ n ∈ [answer], full.stat (settings.mockDir.join n) = .ok .file :=
    List.forall_mem_singleton.mpr rfl
  exact RouteIndex.build_of_gives gives_full (List.pairwise_singleton _ _) hstat (by decide +kernel)

theorem build_closed : RouteIndex.build closed settings.mockDir settings.normalBase =
    .error ⟨.ofText "mocks", .permissionDenied⟩ := by
  have hdir : closed.isDirectory settings.mockDir = true := rfl
  have hlist : closed.list settings.mockDir = .error .permissionDenied := rfl
  exact RouteIndex.build_of_list_error hdir hlist _

/-- The second of two reloads has returned, and `/a` is there; the request for it finds nothing. -/
theorem run_full :
    ∃ s, start settings ambient .empty = .ok s ∧
      (s.run (straggling full)).jobs.length = 2 ∧
      (s.run (straggling full)).jobs[1]? = some (.reload (.finished 2 (.ok index))) ∧
      (s.run (straggling full ++ [.startRequest request, .advance 2])).jobs[2]? =
        some (.request request (.resolved ⟨.empty, 1⟩ none)) := by
  obtain ⟨s, hs, hjobs, hdisk, hreadings, -, hbuild⟩ := start_of_build ambient build_empty
  have hold : s.dispatcher.build s.disk = .ok .empty := by rw [hbuild, hdisk, build_empty]
  have hnew : s.dispatcher.build full = .ok index := by rw [hbuild, build_full]
  obtain ⟨hrun, hcurrent⟩ := run_straggling hjobs hold hnew
  have hlast := run_request (s.run (straggling full)) request
  rw [hcurrent, hrun, hreadings, ← run_append] at hlast
  refine ⟨s, hs, ?_, ?_, hlast⟩
  · rw [hrun]
    rfl
  · rw [hrun, hreadings]
    rfl

/-- A reload has failed; the request for `/a`, which is there no more, is resolved as before it. -/
theorem run_closed :
    ∃ s, start settings ambient full = .ok s ∧
      (s.run (failing closed)).jobs.length = 1 ∧
      (s.run (failing closed)).jobs[0]? =
        some (.reload (.finished 1 (.error ⟨.ofText "mocks", .permissionDenied⟩))) ∧
      (s.run (failing closed ++ [.startRequest request, .advance 1])).jobs[1]? =
        some (.request request (.resolved ⟨index, 0⟩ (index.matchRequest "GET" "/a"))) := by
  obtain ⟨s, hs, hjobs, -, hreadings, hcurrent, hbuild⟩ := start_of_build ambient build_full
  have hfail : s.dispatcher.build closed = .error ⟨.ofText "mocks", .permissionDenied⟩ := by
    rw [hbuild, build_closed]
  obtain ⟨hrun, hkept⟩ := run_failing hjobs hfail
  have hlast := run_request (s.run (failing closed)) request
  rw [hkept, hcurrent, hrun, ← run_append] at hlast
  refine ⟨s, hs, ?_, ?_, hlast⟩
  · rw [hrun]
    rfl
  · rw [hrun, hreadings]
    rfl

end Lost

/-- A reload that is lost to a straggler, and one that fails. -/
theorem resolved_fresh_iff_straggling :
    (∃ s, start Lost.settings Lost.ambient .empty = .ok s ∧
      RouteIndex.empty.matchRequest "GET" "/a" = none ∧
      (∃ read, RouteIndex.build (s.run (List.take read (straggling Lost.full ++
        [.startRequest Lost.request, .advance 2]))).disk Lost.settings.mockDir
          Lost.settings.normalBase = .ok .empty) ∧
      ∃ k, s.Straggles (straggling Lost.full ++ [.startRequest Lost.request, .advance 2]) k
        ⟨.empty, 1⟩ 1 ⟨Lost.index, 2⟩) ∧
    ∃ s, start Lost.settings Lost.ambient Lost.full = .ok s ∧
      (∃ t, s.TakesAt (failing Lost.closed) t 0
        (Fails 0 1 ⟨.ofText "mocks", .permissionDenied⟩)) ∧
      (s.run (failing Lost.closed)).current = (s.run [.change Lost.closed, .startReload]).current := by
  constructor
  · obtain ⟨s, hs, hlen, hreload, hrequest⟩ := Lost.run_full
    obtain ⟨hfound, ⟨t, k, read, publish, -, -, -, hread⟩, hfresh⟩ :=
      (resolved_fresh_iff hs).1 _ _ _ _ _ _ _ _ _ hreload (by rw [hlen]; exact hrequest) rfl
    refine ⟨s, hs, hfound.symm, ⟨read, hread⟩, ?_⟩
    by_contra hnone
    exact absurd (hfresh.mpr hnone) (by decide)
  · obtain ⟨s, hs, -, hreload, -⟩ := Lost.run_closed
    obtain ⟨⟨t, ht, -⟩, hkept⟩ := (resolved_fresh_iff hs).2 _ _ _ _ hreload
    exact ⟨s, hs, ⟨t, ht⟩, hkept 2 rfl⟩

/-- After a reload has returned, well or not, a request can be resolved against an older index. -/
theorem not_resolved_fresh :
    (¬ ∀ (c : Settings) (a : Template.Ambient) (d : Disk) (s : ServerRun),
      start c a d = .ok s → ∀ (before after : List ServerMove) (i n : Nat) (index : RouteIndex),
        (s.run before).jobs[i]? = some (.reload (.finished n (.ok index))) →
          ∀ (r : HttpRequest) (j : ServerJob) (y : DatedIndex) (found : Option RouteMatch),
            (s.run (before ++ .startRequest r :: after)).jobs[(s.run before).jobs.length]? =
                some j →
              j.resolved? = some (r, y, found) → n ≤ y.reading) ∧
    (¬ ∀ (c : Settings) (a : Template.Ambient) (d : Disk) (s : ServerRun),
      start c a d = .ok s → ∀ (before after : List ServerMove) (i n : Nat) (e : ScanError),
        (s.run before).jobs[i]? = some (.reload (.finished n (.error e))) →
          ∀ (r : HttpRequest) (j : ServerJob) (y : DatedIndex) (found : Option RouteMatch),
            (s.run (before ++ .startRequest r :: after)).jobs[(s.run before).jobs.length]? =
                some j →
              j.resolved? = some (r, y, found) → n ≤ y.reading) := by
  constructor
  · intro h
    obtain ⟨s, hs, hlen, hreload, hrequest⟩ := Lost.run_full
    have hle := h _ _ _ s hs _ _ _ _ _ hreload _ _ _ _ (by rw [hlen]; exact hrequest) rfl
    exact absurd hle (by decide)
  · intro h
    obtain ⟨s, hs, hlen, hreload, hrequest⟩ := Lost.run_closed
    have hle := h _ _ _ s hs _ _ _ _ _ hreload _ _ _ _ (by rw [hlen]; exact hrequest) rfl
    exact absurd hle (by decide)

end ServerRun

end CannedApi
