import CannedApi.Server.Overlap
import Mathlib.Data.List.Induction

/-!
# What one step of a run of a server does

`ServerJob.Advances` lists what one step of a reload or a request can do.  What a job has come to, it was
brought to by one of the moves (`ServerRun.exists_takesAt`); such a move is named by its place in the list
of moves.
-/

namespace CannedApi

/-- The directory has been read once more. -/
def ServerRun.counted (s : ServerRun) : ServerRun := { s with readings := s.readings + 1 }

/-- the run with another dispatcher -/
def ServerRun.withDispatcher (s : ServerRun) (x : Dispatcher) : ServerRun := { s with dispatcher := x }

namespace ServerJob

/-- What one step can make of a job and the server. -/
inductive Advances (s : ServerRun) : ServerJob → ServerJob → ServerRun → Prop where
  | read (index : RouteIndex) (h : s.dispatcher.build s.disk = .ok index) :
      Advances s (.reload .begun) (.reload (.built ⟨index, s.readings⟩)) s.counted
  | fail (e : ScanError) (h : s.dispatcher.build s.disk = .error e) :
      Advances s (.reload .begun) (.reload (.finished s.readings (.error e)))
        (s.counted.withDispatcher (s.dispatcher.countReload none))
  | publish (x : DatedIndex) :
      Advances s (.reload (.built x)) (.reload (.published x))
        { s with dispatcher := s.dispatcher.publish x.index, inUse := x.reading }
  | clear (x : DatedIndex) :
      Advances s (.reload (.published x)) (.reload (.finished x.reading (.ok x.index)))
        (s.withDispatcher (s.dispatcher.clearCache.countReload (some x.index.size)))
  | resolve (r : HttpRequest) :
      Advances s (.request r .begun)
        (.request r (.resolved s.current (s.dispatcher.resolve r.method r.target.path))) s
  | answer (r : HttpRequest) (against : DatedIndex) (m : RouteMatch) :
      Advances s (.request r (.resolved against (some m)))
        (.request r (.finished against (some m)
          (.ofAnswer (s.dispatcher.respond s.disk s.ambient m (r.read s.limit)).1)))
        (s.withDispatcher (s.dispatcher.respond s.disk s.ambient m (r.read s.limit)).2)
  | refuse (r : HttpRequest) (against : DatedIndex) :
      Advances s (.request r (.resolved against none))
        (.request r (.finished against none
          (.notFound r.method r.target.path s.dispatcher.index.labels)))
        (s.withDispatcher
          { s.dispatcher with metrics := s.dispatcher.metrics.countUnmatched r.method })
  | stayReload (n : Nat) (x : Except ScanError RouteIndex) :
      Advances s (.reload (.finished n x)) (.reload (.finished n x)) s
  | stayRequest (r : HttpRequest) (against : DatedIndex) (found : Option RouteMatch)
      (response : Response) :
      Advances s (.request r (.finished against found response))
        (.request r (.finished against found response)) s

theorem advances (s : ServerRun) (j : ServerJob) :
    Advances s j (s.advance j).1 (s.advance j).2 := by
  cases j with
  | reload stage =>
    cases stage with
    | begun =>
      cases h : s.dispatcher.build s.disk with
      | error e =>
        simp only [ServerRun.advance, ServerRun.advanceReload, h]
        exact .fail e h
      | ok index =>
        simp only [ServerRun.advance, ServerRun.advanceReload, h]
        exact .read index h
    | built x => exact .publish x
    | published x => exact .clear x
    | finished n x => exact .stayReload n x
  | request r stage =>
    cases stage with
    | begun => exact .resolve r
    | resolved against found =>
      cases found with
      | none => exact .refuse r against
      | some m => exact .answer r against m
    | finished against found response => exact .stayRequest r against found response

theorem jobs_of_advances {s s' : ServerRun} {j j' : ServerJob} (h : j.Advances s j' s') :
    s'.jobs = s.jobs := by
  cases h <;> rfl

/-- only publishing puts another index in use -/
theorem current_of_advances {s s' : ServerRun} {j j' : ServerJob} (h : j.Advances s j' s') :
    s'.current = s.current ∨ j = .reload (.built s'.current) := by
  cases h with
  | publish x => exact Or.inr rfl
  | _ => exact Or.inl rfl

/-- no step changes which directory is read, nor the path in front of its routes -/
theorem build_of_advances {s s' : ServerRun} {j j' : ServerJob} (h : j.Advances s j' s') (d : Disk) :
    s'.dispatcher.build d = s.dispatcher.build d := by
  cases h <;> rfl

theorem readings_of_advances {s s' : ServerRun} {j j' : ServerJob} (h : j.Advances s j' s') :
    s.readings ≤ s'.readings ∧ (j = .reload .begun → s'.readings = s.readings + 1) := by
  cases h with
  | read | fail => exact ⟨Nat.le_succ _, fun _ => rfl⟩
  | _ => exact ⟨Nat.le_refl _, fun e => by cases e⟩

end ServerJob

namespace ServerRun

theorem step_advance {s : ServerRun} {i : Nat} {j : ServerJob} (h : s.jobs[i]? = some j) :
    ∃ j' s', j.Advances s j' s' ∧ s.step (.advance i) = { s' with jobs := s.jobs.set i j' } := by
  refine ⟨_, _, j.advances s, ?_⟩
  simp only [step, h]
  rw [ServerJob.jobs_of_advances (j.advances s)]

theorem step_advance_none {s : ServerRun} {i : Nat} (h : s.jobs[i]? = none) :
    s.step (.advance i) = s := by
  simp [step, h]

/-- A move keeps what holds of the run, if other files, another job and a step of any job do. -/
theorem step_keeps {P : ServerRun → Prop} {s : ServerRun} {m : ServerMove} (hs : P s)
    (hchange : ∀ d, P { s with disk := d })
    (hstart : ∀ j, j = .reload .begun ∨ (∃ r, j = .request r .begun) →
      P { s with jobs := s.jobs ++ [j] })
    (hadvance : ∀ i j j' s', m = .advance i → s.jobs[i]? = some j → j.Advances s j' s' →
      P { s' with jobs := s.jobs.set i j' }) : P (s.step m) := by
  cases m with
  | change d => exact hchange d
  | startReload => exact hstart _ (Or.inl rfl)
  | startRequest r => exact hstart _ (Or.inr ⟨r, rfl⟩)
  | advance i =>
    cases hj : s.jobs[i]? with
    | none =>
      rw [step_advance_none hj]
      exact hs
    | some j =>
      obtain ⟨j', s', hadv, e⟩ := step_advance hj
      rw [e]
      exact hadvance i j j' s' rfl hj hadv

theorem jobs_length_le_step (s : ServerRun) (m : ServerMove) :
    s.jobs.length ≤ (s.step m).jobs.length :=
  step_keeps (P := fun t => s.jobs.length ≤ t.jobs.length) (Nat.le_refl _) (fun _ => Nat.le_refl _)
    (fun j _ => by simp) (fun i j j' s' _ _ _ => by simp)

theorem jobs_length_le_run (s : ServerRun) (moves : List ServerMove) :
    s.jobs.length ≤ (s.run moves).jobs.length := by
  induction moves generalizing s with
  | nil => exact Nat.le_refl _
  | cons m moves ih => exact Nat.le_trans (jobs_length_le_step s m) (ih (s.step m))

/-- A job that is there was started before. -/
theorem length_le_of_job {s : ServerRun} {before after : List ServerMove} {t k : Nat} {j : ServerJob}
    (hk : (s.run before).jobs.length ≤ k)
    (hj : (s.run ((before ++ after).take t)).jobs[k]? = some j) : before.length ≤ t := by
  by_contra hbt
  rw [List.take_append_of_le_length (Nat.le_of_not_le hbt)] at hj
  have hlt := (List.getElem?_eq_some_iff.mp hj).1
  have hle := jobs_length_le_run (s.run (before.take t)) (before.drop t)
  rw [← run_append, List.take_append_drop] at hle
  omega

theorem run_take (s : ServerRun) (moves : List ServerMove) {t u : Nat} (h : t ≤ u) :
    s.run (moves.take u) = (s.run (moves.take t)).run ((moves.take u).drop t) := by
  have htake : (moves.take u).take t = moves.take t := by
    rw [List.take_take, Nat.min_eq_left h]
  rw [← run_append, ← htake, List.take_append_drop]

/-- what a step of a job keeps, a run keeps of the job -/
theorem job_keeps {F : ServerJob → Prop}
    (hF : ∀ (s s' : ServerRun) j j', j.Advances s j' s' → F j → F j') {s : ServerRun} {i : Nat}
    (h : ∃ j, s.jobs[i]? = some j ∧ F j) (moves : List ServerMove) :
    ∃ j, (s.run moves).jobs[i]? = some j ∧ F j := by
  induction moves generalizing s with
  | nil => exact h
  | cons m moves ih =>
    refine ih ?_
    obtain ⟨x, hx, hFx⟩ := h
    have hi : i < s.jobs.length := (List.getElem?_eq_some_iff.mp hx).1
    refine step_keeps (P := fun t => ∃ j, t.jobs[i]? = some j ∧ F j) ⟨x, hx, hFx⟩
      (fun _ => ⟨x, hx, hFx⟩) (fun j _ => ?_) (fun k j j' s' _ hj hadv => ?_)
    · refine ⟨x, ?_, hFx⟩
      show (s.jobs ++ [j])[i]? = some x
      rw [List.getElem?_append_left hi, hx]
    · by_cases hki : k = i
      · subst hki
        rw [hj] at hx
        cases hx
        exact ⟨j', List.getElem?_set_self hi, hF _ _ _ _ hadv hFx⟩
      · refine ⟨x, ?_, hFx⟩
        show (s.jobs.set k j')[i]? = some x
        rw [List.getElem?_set_ne hki, hx]

/-! ## Moves by their place -/

/-- The `t`th of the moves takes the next step of the `i`th job, in a state with `Q`. -/
def TakesAt (s : ServerRun) (moves : List ServerMove) (t i : Nat) (Q : ServerRun → Prop) : Prop :=
  moves[t]? = some (.advance i) ∧ Q (s.run (moves.take t))

variable {s : ServerRun} {moves : List ServerMove} {t i : Nat} {Q : ServerRun → Prop}

theorem TakesAt.lt_length (h : s.TakesAt moves t i Q) : t < moves.length :=
  (List.getElem?_eq_some_iff.mp h.1).1

theorem TakesAt.job_eq {k : Nat} {Q' : ServerRun → Prop} (h : s.TakesAt moves t i Q)
    (h' : s.TakesAt moves t k Q') : i = k := by
  have hm := h.1
  rw [h'.1] at hm
  cases hm
  rfl

theorem TakesAt.append (h : s.TakesAt moves t i Q) (more : List ServerMove) :
    s.TakesAt (moves ++ more) t i Q := by
  have ht := h.lt_length
  refine ⟨?_, ?_⟩
  · rw [List.getElem?_append_left ht]
    exact h.1
  · rw [List.take_append_of_le_length (Nat.le_of_lt ht)]
    exact h.2

theorem TakesAt.of_take {u : Nat} (h : s.TakesAt (moves.take u) t i Q) : s.TakesAt moves t i Q := by
  have h' := h.append (moves.drop u)
  rwa [List.take_append_drop] at h'

/-- a run just after one of its moves -/
theorem TakesAt.run_take_succ (h : s.TakesAt moves t i Q) :
    s.run (moves.take (t + 1)) = (s.run (moves.take t)).step (.advance i) := by
  rw [List.take_add_one, h.1, run_append]
  rfl

theorem takesAt_last (h : Q (s.run moves)) :
    s.TakesAt (moves ++ [.advance i]) moves.length i Q := by
  refine ⟨?_, ?_⟩
  · simp
  · rw [List.take_left]
    exact h

theorem TakesAt.of_snoc {m : ServerMove} (h : s.TakesAt (moves ++ [m]) t i Q) :
    s.TakesAt moves t i Q ∨ t = moves.length ∧ m = .advance i ∧ Q (s.run moves) := by
  obtain ⟨hm, hQ⟩ := h
  rcases Nat.lt_or_ge t moves.length with ht | ht
  · rw [List.getElem?_append_left ht] at hm
    rw [List.take_append_of_le_length (Nat.le_of_lt ht)] at hQ
    exact Or.inl ⟨hm, hQ⟩
  · have hlt := (List.getElem?_eq_some_iff.mp hm).1
    rw [List.length_append, List.length_singleton] at hlt
    obtain rfl : t = moves.length := by omega
    rw [List.getElem?_append_right (Nat.le_refl _), Nat.sub_self] at hm
    rw [List.take_left] at hQ
    cases hm
    exact Or.inr ⟨rfl, rfl, hQ⟩

/-- What holds of a job and of no job that has just been started was brought about by a move. -/
theorem exists_takesAt {F : ServerJob → Prop} (hs : s.jobs = []) (hreload : ¬ F (.reload .begun))
    (hrequest : ∀ r, ¬ F (.request r .begun))
    (hstep : ∀ (u u' : ServerRun) j j', u.jobs[i]? = some j → j.Advances u j' u' → F j' → F j ∨ Q u)
    {j : ServerJob} (hj : (s.run moves).jobs[i]? = some j) (hF : F j) :
    ∃ t, s.TakesAt moves t i Q := by
  induction moves using List.reverseRecOn generalizing j with
  | nil =>
    rw [run_nil, hs] at hj
    cases hj
  | append_singleton moves m ih =>
    have hlater : ∀ x, (s.run moves).jobs[i]? = some x → F x →
        ∃ t, s.TakesAt (moves ++ [m]) t i Q := by
      intro x hx hFx
      obtain ⟨t, ht⟩ := ih hx hFx
      exact ⟨t, ht.append [m]⟩
    rw [run_append] at hj
    revert hj
    refine step_keeps (P := fun u => u.jobs[i]? = some j → ∃ t, s.TakesAt (moves ++ [m]) t i Q)
      (fun hj => hlater j hj hF) (fun _ hj => hlater j hj hF) (fun x hx hj => ?_)
      (fun k x x' u' hm hx hadv hj => ?_)
    · rcases Nat.lt_or_ge i (s.run moves).jobs.length with hi | hi
      · rw [List.getElem?_append_left hi] at hj
        exact hlater j hj hF
      · -- the job is the one that has just been started
        rw [List.getElem?_append_right hi] at hj
        obtain rfl := List.mem_singleton.mp (List.mem_of_getElem? hj)
        rcases hx with rfl | ⟨r, rfl⟩
        · exact absurd hF hreload
        · exact absurd hF (hrequest r)
    · by_cases hik : k = i
      · subst hik
        have hlt := (List.getElem?_eq_some_iff.mp hx).1
        rw [List.getElem?_set_self hlt] at hj
        cases hj
        rcases hstep _ _ _ _ hx hadv hF with h | h
        · exact hlater x hx h
        · subst hm
          exact ⟨_, takesAt_last h⟩
      · rw [List.getElem?_set_ne hik] at hj
        exact hlater j hj hF

end ServerRun

end CannedApi
