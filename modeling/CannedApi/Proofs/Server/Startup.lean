import CannedApi.Proofs.Server.Notices

/-!
# Changes around the start of watching

A server reads the directory when it is made and watches it only when it is run.  Once a notice has been
sent, the server catches up with the directory (`Following.catchesUp_of_sends`); before the first notice it
has the index that it was made with, and the directory is as the watching found it
(`Following.untouched_of_not_sends`).  So a server that is done with all changes is up to date just if a
notice was sent at all, or nothing of note changed before the watching began
(`Following.idle_upToDate_iff`).
-/

namespace CannedApi

namespace Following

variable {s : Following} {moves : List FollowMove} {m : FollowMove} {t : Nat} {c : Settings} {d : Disk}

/-- Watched, with every change told and every notice taken, and nothing in progress. -/
structure Idle (s : Following) : Prop where
  waiting : s.stage = some .waiting
  told : s.untold = 0
  taken : s.notices = 0

/-- The index in use is the one that the directory has now. -/
def UpToDate (s : Following) : Prop := s.dispatcher.build s.disk = .ok s.dispatcher.index

/-- The move reads the directory, and this comes of it. -/
def Yields (r : Except ScanError RouteIndex) (s : Following) (m : FollowMove) : Prop :=
  s.Reads m ∧ s.dispatcher.build s.disk = r

/-- No reload fails. -/
def ReadsWell (s : Following) (moves : List FollowMove) : Prop :=
  ∀ u e, ¬ At (Yields (.error e)) s moves u

theorem ReadsWell.of_append {more : List FollowMove} (h : s.ReadsWell (moves ++ more)) :
    s.ReadsWell moves := fun u e hu => h u e (hu.append more)

/-! ## Where a state came from -/

theorem build_step (s : Following) (m : FollowMove) (d : Disk) :
    (s.step m).dispatcher.build d = s.dispatcher.build d := by
  obtain ⟨s', e, hm⟩ := s.exists_makes m
  rw [e]
  cases hm <;> rfl

theorem build_run (s : Following) (moves : List FollowMove) (d : Disk) :
    (s.run moves).dispatcher.build d = s.dispatcher.build d := by
  induction moves using List.reverseRecOn with
  | nil => rfl
  | append_singleton moves m ih => rw [run_snoc, build_step, ih]

/-- What a reload holds was read by one of the moves. -/
theorem exists_yields {r : Except ScanError RouteIndex} (hs : s.stage = none)
    (h : (s.run moves).stage = some (.reloading r)) : ∃ u, At (Yields r) s moves u := by
  induction moves using List.reverseRecOn with
  | nil =>
    rw [run_nil, hs] at h
    cases h
  | append_singleton moves m ih =>
    have hearlier : (s.run moves).stage = some (.reloading r) →
        ∃ u, At (Yields r) s (moves ++ [m]) u := fun hstage => by
      obtain ⟨u, hu⟩ := ih hstage
      exact ⟨u, hu.append [m]⟩
    obtain ⟨s', e, hm⟩ := (s.run moves).exists_makes m
    rw [run_snoc, e] at h
    cases hm with
    | read hdue =>
      cases h
      exact ⟨moves.length, at_snoc_iff.mpr (Or.inr ⟨rfl, ⟨hdue, rfl⟩, rfl⟩)⟩
    | change | notify | drain | stay => exact hearlier h
    | _ => cases h

/-- What is watched came to be watched by one of the moves. -/
theorem exists_begins (hs : s.stage = none) (h : (s.run moves).stage ≠ none) :
    ∃ t, At Begins s moves t := by
  induction moves using List.reverseRecOn with
  | nil => exact absurd hs h
  | append_singleton moves m ih =>
    by_cases hbefore : (s.run moves).stage = none
    · obtain ⟨s', e, hm⟩ := (s.run moves).exists_makes m
      rw [run_snoc, e] at h
      cases hm with
      | begin hbegin => exact ⟨moves.length, at_snoc_iff.mpr (Or.inr ⟨rfl, hbegin⟩)⟩
      | change | notify | drain | stay => exact absurd hbefore h
      | receive _ hstage | findNone hstage | read hstage | publish _ hstage | fail _ hstage
      | stop hstage =>
        rw [hbefore] at hstage
        cases hstage
    · obtain ⟨t, ht⟩ := ih hbefore
      exact ⟨t, ht.append [m]⟩

/-! ## After the first notice -/

/-- The server is up to date, or what it has still to do brings it up to date. -/
inductive CatchesUp (s : Following) : Prop where
  | untold (h : 0 < s.untold)
  | expecting (h : s.Expecting)
  | reloading (h : s.stage = some (.reloading (s.dispatcher.build s.disk)))
  | waiting (h : s.stage = some .waiting) (hindex : s.UpToDate)
  | stopped (h : s.stage = some .stopped)

/-- Each move keeps the server catching up, unless a reload fails. -/
theorem CatchesUp.step (h : s.CatchesUp) (hwell : ∀ e, s.stage ≠ some (.reloading (.error e)))
    (m : FollowMove) : (s.step m).CatchesUp := by
  have hexpect : s.Expecting → ¬ s.Reads m → (s.step m).Expecting := fun h hread =>
    (h.step m).resolve_right hread
  obtain ⟨s', hstep, hm⟩ := s.exists_makes m
  rw [hstep] at hexpect ⊢
  cases hm with
  | read hdue => exact .reloading rfl
  | notify told hwatch => exact .expecting (Or.inl (Nat.succ_pos _))
  | receive n hstage hn => exact .expecting (Or.inr (Or.inl rfl))
  | drain n hstage hn => exact .expecting (Or.inr (Or.inl hstage))
  | findNone hstage hn => exact .expecting (Or.inr (Or.inr rfl))
  | stop hstage => exact .stopped rfl
  | fail e hstage => exact absurd hstage (hwell e)
  | stay m => exact h
  | change d =>
    by_cases hwatch : s.isWatching = true
    · refine .untold ?_
      simp [hwatch]
    · cases h with
      | untold h =>
        refine .untold ?_
        simpa [hwatch] using h
      | expecting h => exact .expecting h
      | stopped h => exact .stopped h
      | reloading h => simp [isWatching, h] at hwatch
      | waiting h => simp [isWatching, h] at hwatch
  | begin hbegin =>
    have hstage := hbegin.1
    cases h with
    | untold h => exact .untold h
    | expecting h => exact .expecting (hexpect h fun hread => by cases hread.2)
    | reloading h | waiting h | stopped h =>
      rw [hstage] at h
      cases h
  | publish index hstage =>
    cases h with
    | untold h => exact .untold h
    | expecting h => exact .expecting (hexpect h fun hread => by cases hread.2)
    | reloading h =>
      rw [hstage] at h
      refine .waiting rfl ?_
      have hbuild : .ok index = s.dispatcher.build s.disk := by
        injection h with h
        injection h
      exact hbuild.symm
    | waiting h | stopped h =>
      rw [hstage] at h
      cases h

theorem catchesUp_of_sends (hs : s.stage = none) (hwell : s.ReadsWell moves)
    (h : At Sends s moves t) : (s.run moves).CatchesUp := by
  induction moves using List.reverseRecOn with
  | nil => exact absurd h (not_at_nil Sends s t)
  | append_singleton moves m ih =>
    rw [run_snoc]
    rcases at_snoc_iff.mp h with h | ⟨-, hm⟩
    · refine (ih hwell.of_append h).step (fun e he => ?_) m
      obtain ⟨u, hu⟩ := exists_yields hs he
      exact hwell.of_append u e hu
    · exact .expecting (expecting_of_sends hm)

/-! ## Before the first notice -/

/-- Nothing has been told in the moves that led from `s` to `x`: the dispatcher is the one that the server
was made with, and if there was nothing to be told of, the directory is as the watching found it. -/
structure Untouched (s : Following) (moves : List FollowMove) (x : Following) : Prop where
  stage : x.stage = none ∨ x.stage = some .waiting ∨ x.stage = some .stopped
  taken : x.notices = 0
  dispatcher : x.dispatcher = s.dispatcher
  disk : x.stage = some .waiting → x.untold = 0 →
    ∃ t, At Begins s moves t ∧ (s.run (moves.take t)).disk = x.disk

theorem untouched_of_not_sends (hs : s.stage = none) (hnotices : s.notices = 0)
    (h : ∀ t, ¬ At Sends s moves t) : s.Untouched moves (s.run moves) := by
  induction moves using List.reverseRecOn with
  | nil =>
    refine ⟨Or.inl hs, hnotices, rfl, fun hwait => ?_⟩
    rw [run_nil, hs] at hwait
    cases hwait
  | append_singleton moves m ih =>
    obtain ⟨hstage, htaken, hdispatcher, hdisk⟩ := ih fun t ht => h t (ht.append [m])
    obtain ⟨s', hstep, hm⟩ := (s.run moves).exists_makes m
    rw [run_snoc, hstep]
    cases hm with
    | begin hbegin =>
      refine ⟨Or.inr (Or.inl rfl), htaken, hdispatcher, fun _ _ => ?_⟩
      refine ⟨moves.length, at_snoc_iff.mpr (Or.inr ⟨rfl, hbegin⟩), ?_⟩
      rw [List.take_left]
    | change d =>
      refine ⟨hstage, htaken, hdispatcher, fun hwait htold => ?_⟩
      -- a change while the directory is watched is one to be told of
      replace hwait : (s.run moves).stage = some .waiting := hwait
      simp [isWatching, hwait] at htold
    | notify told hwatch =>
      exact absurd (at_snoc_iff.mpr (Or.inr ⟨rfl, hwatch, told, rfl⟩)) (h moves.length)
    | stop hwait => exact ⟨Or.inr (Or.inr rfl), htaken, hdispatcher, fun hwait => by cases hwait⟩
    | stay m =>
      refine ⟨hstage, htaken, hdispatcher, fun hwait htold => ?_⟩
      obtain ⟨t, ht, e⟩ := hdisk hwait htold
      refine ⟨t, ht.append [m], ?_⟩
      rw [List.take_append_of_le_length (Nat.le_of_lt ht.lt_length), e]
    | receive n hwait hn =>
      rw [htaken] at hn
      cases hn
    | drain _ hother | findNone hother | read hother | publish _ hother | fail _ hother =>
      rw [hother] at hstage
      simp at hstage

/-! ## Up to date -/

theorem of_start (hs : start c d = .ok s) :
    s.disk = d ∧ s.stage = none ∧ s.notices = 0 ∧ s.dispatcher.build d = .ok s.dispatcher.index ∧
      ∀ d', s.dispatcher.build d' = RouteIndex.build d' c.mockDir c.normalBase := by
  obtain ⟨x, hx, rfl⟩ := Except.map_eq_ok_iff.mp hs
  obtain ⟨index, hindex, rfl⟩ := Except.map_eq_ok_iff.mp hx
  exact ⟨rfl, rfl, rfl, hindex, fun _ => rfl⟩

/-- **When a server that follows changes is up to date.**  In every run in which no reload fails, when the
server is watching, has been told of all changes, has taken all notices and is doing nothing, the index in use
is the one of the directory as it is now just if a notice was sent at all, or the directory gave the same
index when the watching began as when the server was made. -/
theorem idle_upToDate_iff (hs : start c d = .ok s) (hwell : s.ReadsWell moves)
    (hidle : (s.run moves).Idle) :
    ∃ t, At Begins s moves t ∧
      (RouteIndex.build (s.run moves).disk c.mockDir c.normalBase = .ok (s.run moves).dispatcher.index ↔
        (∃ u, At Sends s moves u) ∨
          RouteIndex.build (s.run (moves.take t)).disk c.mockDir c.normalBase =
            RouteIndex.build d c.mockDir c.normalBase) := by
  obtain ⟨-, hstage, hnotices, hfirst, hbuild⟩ := of_start hs
  by_cases hsends : ∃ u, At Sends s moves u
  · obtain ⟨u, hu⟩ := hsends
    have hwatched : (s.run moves).stage ≠ none := by simp [hidle.waiting]
    obtain ⟨t, ht⟩ := exists_begins hstage hwatched
    refine ⟨t, ht, fun _ => Or.inl ⟨u, hu⟩, fun _ => ?_⟩
    have hcurrent : (s.run moves).UpToDate := by
      cases catchesUp_of_sends hstage hwell hu with
      | waiting h hindex => exact hindex
      | untold h => simp [hidle.told] at h
      | expecting h => simp [Expecting, hidle.taken, hidle.waiting] at h
      | reloading h | stopped h => simp [hidle.waiting] at h
    rw [UpToDate, build_run, hbuild] at hcurrent
    exact hcurrent
  · have hnone : ∀ u, ¬ At Sends s moves u := fun u hu => hsends ⟨u, hu⟩
    have huntouched := untouched_of_not_sends hstage hnotices hnone
    obtain ⟨t, ht, hdisk⟩ := huntouched.disk hidle.waiting hidle.told
    refine ⟨t, ht, ?_⟩
    rw [hdisk, huntouched.dispatcher, ← hbuild d, hfirst]
    simp [hsends]

/-! ## A change between the reading and the watching -/

/-- The directory is written after it has been read, and watched then. -/
def missed : List FollowMove := [.change ServerRun.Lost.full, .startWatching]

theorem run_missed :
    ∃ s, start watchful .empty = .ok s ∧ s.ReadsWell missed ∧ (s.run missed).Idle ∧
      (s.run missed).disk = ServerRun.Lost.full ∧ (s.run missed).dispatcher.index = .empty := by
  obtain ⟨x, hs, hindex, hdir, -⟩ := start_of_build (c := watchful) rfl ServerRun.Lost.build_empty
  obtain ⟨w, hw⟩ := exists_start_watcher
  rw [← hdir] at hw
  have hrun : (fresh .empty x).run missed =
      { fresh ServerRun.Lost.full x with stage := some .waiting } := by
    simp [fresh, missed, run, step, isWatching, hw]
  refine ⟨_, hs, ?_, ?_, ?_, ?_⟩
  · rintro u e ⟨m, hm, ⟨-, rfl⟩, -⟩
    have hmem := List.mem_of_getElem? hm
    simp [missed] at hmem
  all_goals rw [hrun]
  · exact ⟨rfl, rfl, rfl⟩
  · rfl
  · exact hindex

theorem idle_upToDate_iff_missed :
    ∃ s, start watchful .empty = .ok s ∧ s.ReadsWell missed ∧ (s.run missed).Idle ∧
      ∃ t, At Begins s missed t ∧
        (RouteIndex.build (s.run missed).disk watchful.mockDir watchful.normalBase =
            .ok (s.run missed).dispatcher.index ↔
          (∃ u, At Sends s missed u) ∨
            RouteIndex.build (s.run (missed.take t)).disk watchful.mockDir watchful.normalBase =
              RouteIndex.build .empty watchful.mockDir watchful.normalBase) := by
  obtain ⟨s, hs, hwell, hidle, -⟩ := run_missed
  exact ⟨s, hs, hwell, hidle, idle_upToDate_iff hs hwell hidle⟩

/-- What is written after the directory has been read and before it is watched is missed. -/
theorem not_idle_upToDate :
    ¬ ∀ (c : Settings) (d : Disk) (s : Following) (moves : List FollowMove),
      c.watch = true → start c d = .ok s → s.ReadsWell moves → (s.run moves).Idle →
        RouteIndex.build (s.run moves).disk c.mockDir c.normalBase =
          .ok (s.run moves).dispatcher.index := by
  intro h
  obtain ⟨s, hs, hwell, hidle, hdisk, hindex⟩ := run_missed
  have hbuild := h watchful .empty s missed rfl hs hwell hidle
  rw [hdisk, hindex] at hbuild
  have hfull : RouteIndex.build ServerRun.Lost.full watchful.mockDir watchful.normalBase =
    .ok ServerRun.Lost.index := ServerRun.Lost.build_full
  rw [hfull] at hbuild
  injection hbuild with hbuild
  exact ServerRun.Lost.index_ne_empty hbuild

end Following

end CannedApi
