import CannedApi.Proofs.Server.Reloads
import CannedApi.Server.Following

/-!
# No notice is lost

The task that takes the notices throws most of them away: it waits for one, takes out all that have come,
and reloads once.  `Following.Makes` lists what one move can do.  From it: while a notice has not been
followed by a reading of the directory, one is to come (`Following.expecting_or_reads`), so that when the
task waits and there are no notices, the last reading began after the last notice was sent
(`Following.last_reading_after_notices`).
-/

namespace CannedApi

namespace Following

variable {s : Following} {moves : List FollowMove} {m : FollowMove} {t : Nat}

/-! ## What one move does -/

/-- The move sends a notice. -/
def Sends (s : Following) (m : FollowMove) : Prop := s.isWatching = true ∧ ∃ told, m = .notify told

/-- The move reads the directory, with which a reload begins. -/
def Reads (s : Following) (m : FollowMove) : Prop := s.stage = some .due ∧ m = .readDirectory

/-- The move begins the watching. -/
def Begins (s : Following) (m : FollowMove) : Prop :=
  s.stage = none ∧ s.watch = true ∧ (∃ w, Watcher.start s.disk s.dispatcher.mockDir = .ok w) ∧
    m = .startWatching

/-- What a move can make of the server. -/
inductive Makes (s : Following) : FollowMove → Following → Prop where
  | change (d : Disk) : Makes s (.change d)
      { s with disk := d, untold := if s.isWatching then s.untold + 1 else s.untold }
  | begin (h : s.Begins .startWatching) : Makes s .startWatching { s with stage := some .waiting }
  | notify (told : Nat) (h : s.isWatching = true) : Makes s (.notify told)
      { s with untold := s.untold - told, notices := s.notices + 1 }
  | receive (n : Nat) (h : s.stage = some .waiting) (hn : s.notices = n + 1) : Makes s .receive
      { s with stage := some .draining, notices := n }
  | drain (n : Nat) (h : s.stage = some .draining) (hn : s.notices = n + 1) : Makes s .drain
      { s with notices := n }
  | findNone (h : s.stage = some .draining) (hn : s.notices = 0) : Makes s .findNone
      { s with stage := some .due }
  | read (h : s.stage = some .due) : Makes s .readDirectory
      { s with stage := some (.reloading (s.dispatcher.build s.disk)) }
  | publish (index : RouteIndex) (h : s.stage = some (.reloading (.ok index))) : Makes s .finishReload
      { s with
        stage := some .waiting
        dispatcher := (s.dispatcher.publish index).clearCache.countReload (some index.size) }
  | fail (e : ScanError) (h : s.stage = some (.reloading (.error e))) : Makes s .finishReload
      { s with stage := some .waiting, dispatcher := s.dispatcher.countReload none }
  | stop (h : s.stage = some .waiting) : Makes s .stop { s with stage := some .stopped }
  | stay (m : FollowMove) (hsend : ¬ s.Sends m) (hread : ¬ s.Reads m) (hbegin : ¬ s.Begins m) :
      Makes s m s

theorem makes (s : Following) (m : FollowMove) : s.Makes m (s.step m) := by
  cases m with
  | change d => exact .change d
  | startWatching =>
    simp only [step]
    split
    · rename_i w hstage hwatch hw
      exact .begin ⟨hstage, hwatch, ⟨w, hw⟩, rfl⟩
    · rename_i hnone
      refine .stay _ (by simp [Sends]) (by simp [Reads]) ?_
      rintro ⟨hstage, hwatch, ⟨w, hw⟩, -⟩
      exact hnone w hstage hwatch hw
  | notify told =>
    by_cases h : s.isWatching = true
    · simp only [step, if_pos h]
      exact .notify told h
    · simp only [step, if_neg h]
      exact .stay _ (fun hsend => h hsend.1) (by simp [Reads]) (by simp [Begins])
  | receive =>
    simp only [step]
    split
    · rename_i n hstage hn
      exact .receive n hstage hn
    · exact .stay _ (by simp [Sends]) (by simp [Reads]) (by simp [Begins])
  | drain =>
    simp only [step]
    split
    · rename_i n hstage hn
      exact .drain n hstage hn
    · exact .stay _ (by simp [Sends]) (by simp [Reads]) (by simp [Begins])
  | findNone =>
    simp only [step]
    split
    · rename_i hstage hn
      exact .findNone hstage hn
    · exact .stay _ (by simp [Sends]) (by simp [Reads]) (by simp [Begins])
  | readDirectory =>
    simp only [step]
    split
    · rename_i hstage
      exact .read hstage
    · rename_i hstage
      exact .stay _ (by simp [Sends]) (fun hread => hstage hread.1) (by simp [Begins])
  | finishReload =>
    simp only [step]
    split
    · rename_i index hstage
      exact .publish index hstage
    · rename_i e hstage
      exact .fail e hstage
    · exact .stay _ (by simp [Sends]) (by simp [Reads]) (by simp [Begins])
  | stop =>
    simp only [step]
    split
    · rename_i hstage
      exact .stop hstage
    · exact .stay _ (by simp [Sends]) (by simp [Reads]) (by simp [Begins])

theorem exists_makes (s : Following) (m : FollowMove) : ∃ s', s.step m = s' ∧ s.Makes m s' :=
  ⟨_, rfl, s.makes m⟩

/-! ## Moves by their place -/

/-- The `t`th of the moves is one with `P`, in the state in which it is made. -/
def At (P : Following → FollowMove → Prop) (s : Following) (moves : List FollowMove) (t : Nat) : Prop :=
  ∃ m, moves[t]? = some m ∧ P (s.run (moves.take t)) m

variable {P : Following → FollowMove → Prop}

theorem not_at_nil (P : Following → FollowMove → Prop) (s : Following) (t : Nat) : ¬ At P s [] t := by
  rintro ⟨m, hm, -⟩
  cases hm

theorem at_snoc_iff : At P s (moves ++ [m]) t ↔ At P s moves t ∨ t = moves.length ∧ P (s.run moves) m := by
  rcases Nat.lt_or_ge t moves.length with ht | ht
  · have hne : t ≠ moves.length := Nat.ne_of_lt ht
    unfold At
    rw [List.getElem?_append_left ht, List.take_append_of_le_length (Nat.le_of_lt ht)]
    simp [hne]
  · have hout : ¬ At P s moves t := by
      rintro ⟨x, hx, -⟩
      rw [List.getElem?_eq_none ht] at hx
      cases hx
    constructor
    · rintro ⟨x, hx, hP⟩
      have hlt := (List.getElem?_eq_some_iff.mp hx).1
      rw [List.length_append, List.length_singleton] at hlt
      obtain rfl : t = moves.length := by omega
      rw [List.getElem?_concat_length] at hx
      rw [List.take_left] at hP
      cases hx
      exact Or.inr ⟨rfl, hP⟩
    · rintro (h | ⟨rfl, hP⟩)
      · exact absurd h hout
      · refine ⟨m, List.getElem?_concat_length, ?_⟩
        rw [List.take_left]
        exact hP

theorem At.append (h : At P s moves t) (more : List FollowMove) : At P s (moves ++ more) t := by
  obtain ⟨m, hm, hP⟩ := h
  have ht := (List.getElem?_eq_some_iff.mp hm).1
  refine ⟨m, ?_, ?_⟩
  · rw [List.getElem?_append_left ht, hm]
  · rw [List.take_append_of_le_length (Nat.le_of_lt ht)]
    exact hP

theorem At.lt_length (h : At P s moves t) : t < moves.length := by
  obtain ⟨m, hm, -⟩ := h
  exact (List.getElem?_eq_some_iff.mp hm).1

/-- Where there are moves of a kind, one is the last. -/
theorem At.exists_last (h : At P s moves t) : ∃ u, At P s moves u ∧ ∀ v, At P s moves v → v ≤ u := by
  induction moves using List.reverseRecOn generalizing t with
  | nil => exact absurd h (not_at_nil P s t)
  | append_singleton moves m ih =>
    by_cases hm : P (s.run moves) m
    · refine ⟨moves.length, at_snoc_iff.mpr (Or.inr ⟨rfl, hm⟩), fun v hv => ?_⟩
      have hlt := hv.lt_length
      rw [List.length_append, List.length_singleton] at hlt
      omega
    · have hbefore : ∀ v, At P s (moves ++ [m]) v → At P s moves v := fun v hv =>
        (at_snoc_iff.mp hv).resolve_right fun h => hm h.2
      obtain ⟨u, hu, hlast⟩ := ih (hbefore t h)
      exact ⟨u, hu.append [m], fun v hv => hlast v (hbefore v hv)⟩

theorem run_snoc (s : Following) (moves : List FollowMove) (m : FollowMove) :
    s.run (moves ++ [m]) = (s.run moves).step m := run_append s moves [m]

/-! ## Notices and readings -/

/-- The directory is to be read once more, whatever comes: a notice is there, or one has been taken. -/
def Expecting (s : Following) : Prop :=
  0 < s.notices ∨ s.stage = some .draining ∨ s.stage = some .due

/-- A move leaves a reading to come, unless it is the reading. -/
theorem Expecting.step (h : s.Expecting) (m : FollowMove) : (s.step m).Expecting ∨ s.Reads m := by
  obtain ⟨s', e, hm⟩ := s.exists_makes m
  rw [e]
  unfold Expecting at h ⊢
  cases hm with
  | read hdue => exact Or.inr ⟨hdue, rfl⟩
  | begin hbegin =>
    rw [hbegin.1] at h
    simp only [reduceCtorEq, or_false] at h
    exact Or.inl (Or.inl h)
  | receive n hstage hn => exact Or.inl (Or.inr (Or.inl rfl))
  | drain n hstage hn => exact Or.inl (Or.inr (Or.inl hstage))
  | findNone hstage hn => exact Or.inl (Or.inr (Or.inr rfl))
  | notify told hwatch => exact Or.inl (Or.inl (Nat.succ_pos _))
  | publish index hstage | fail e hstage | stop hstage =>
    rw [hstage] at h
    simp only [Option.some.injEq, reduceCtorEq, or_false] at h
    exact Or.inl (Or.inl h)
  | change d => exact Or.inl h
  | stay m => exact Or.inl h

theorem expecting_of_sends (h : s.Sends m) : (s.step m).Expecting := by
  obtain ⟨hwatch, told, rfl⟩ := h
  refine Or.inl ?_
  simp [step, hwatch]

/-- After a notice has been sent the directory is to be read, or has been read since. -/
theorem expecting_or_reads (h : At Sends s moves t) :
    (s.run moves).Expecting ∨ ∃ u, t < u ∧ At Reads s moves u := by
  induction moves using List.reverseRecOn with
  | nil => exact absurd h (not_at_nil Sends s t)
  | append_singleton moves m ih =>
    rw [run_snoc]
    rcases at_snoc_iff.mp h with h | ⟨-, hm⟩
    · rcases ih h with hexpect | ⟨u, htu, hu⟩
      · refine (hexpect.step m).imp_right fun hread => ?_
        exact ⟨moves.length, h.lt_length, at_snoc_iff.mpr (Or.inr ⟨rfl, hread⟩)⟩
      · exact Or.inr ⟨u, htu, hu.append [m]⟩
    · exact Or.inl (expecting_of_sends hm)

/-- **No notice is lost.**  In every run, when the task waits for a notice and there is none, then for every
notice that has been sent, the last reload that was tried began to read the directory after it. -/
theorem last_reading_after_notices (hwait : (s.run moves).stage = some .waiting)
    (hnone : (s.run moves).notices = 0) (h : At Sends s moves t) :
    ∃ u, t < u ∧ At Reads s moves u ∧ ∀ v, At Reads s moves v → v ≤ u := by
  have hidle : ¬ (s.run moves).Expecting := by
    unfold Expecting
    rw [hwait, hnone]
    simp
  obtain ⟨u, htu, hu⟩ := (expecting_or_reads h).resolve_left hidle
  obtain ⟨last, hread, hlast⟩ := hu.exists_last
  exact ⟨last, Nat.lt_of_lt_of_le htu (hlast u hu), hread, hlast⟩

/-! ## Notices that come late -/

/-- a server with this dispatcher that has just been started, to follow changes -/
def fresh (d : Disk) (x : Dispatcher) : Following := ⟨d, x, true, none, 0, 0⟩

theorem start_of_build {c : Settings} {d : Disk} {index : RouteIndex} (hwatch : c.watch = true)
    (h : RouteIndex.build d c.mockDir c.normalBase = .ok index) :
    ∃ x : Dispatcher, start c d = .ok (fresh d x) ∧ x.index = index ∧ x.mockDir = c.mockDir ∧
      ∀ d', x.build d' = RouteIndex.build d' c.mockDir c.normalBase := by
  refine ⟨⟨c.mockDir, c.normalBase, index, .new c.cache, .countReload {} (some index.size)⟩, ?_, rfl,
    rfl, fun _ => rfl⟩
  rw [start, Dispatcher.new, h, hwatch]
  rfl

/-- One notice comes while others are taken out, and one while the directory is read. -/
def late : List FollowMove :=
  [.startWatching, .notify 0, .receive, .notify 0, .drain, .findNone, .readDirectory, .notify 0,
    .finishReload, .receive, .findNone, .readDirectory, .finishReload]

theorem run_late {d : Disk} {x : Dispatcher} {w : Watcher} {index : RouteIndex}
    (hw : Watcher.start d x.mockDir = .ok w) (hb : x.build d = .ok index) :
    ((fresh d x).run late).stage = some .waiting ∧ ((fresh d x).run late).notices = 0 ∧
      At Sends (fresh d x) late 7 := by
  rw [Dispatcher.build] at hb
  refine ⟨?_, ?_, .notify 0, rfl, ?_, 0, rfl⟩
  all_goals
    simp [fresh, late, run, step, isWatching, hw, hb, Dispatcher.build, Dispatcher.publish,
      Dispatcher.clearCache, Dispatcher.countReload]

/-- the settings under which the directory with one answer is followed -/
def watchful : Settings := { ServerRun.Lost.settings with watch := true }

theorem exists_start_watcher : ∃ w, Watcher.start ServerRun.Lost.full watchful.mockDir = .ok w := by
  have hstat : ServerRun.Lost.full.stat watchful.mockDir = .ok .directory := rfl
  have hreal : ServerRun.Lost.full.realPath watchful.mockDir = .ok [ServerRun.Lost.mocks] := rfl
  have hread : Watcher.mayWatch ServerRun.Lost.full [ServerRun.Lost.mocks] = true := rfl
  have hlist : ServerRun.Lost.full.list watchful.mockDir = .ok [ServerRun.Lost.answer] :=
    Disk.list_of_sorted ServerRun.Lost.gives_full (List.pairwise_singleton _ _)
  refine Watcher.exists_start_of_files hstat hreal hread hlist fun n hn => ?_
  rw [List.mem_singleton.mp hn]
  rfl

theorem last_reading_after_notices_late :
    ∃ s, start watchful ServerRun.Lost.full = .ok s ∧ (s.run late).stage = some .waiting ∧
      (s.run late).notices = 0 ∧ At Sends s late 7 ∧
      ∃ u, 7 < u ∧ At Reads s late u ∧ ∀ v, At Reads s late v → v ≤ u := by
  obtain ⟨x, hs, -, hdir, hbuild⟩ := start_of_build (c := watchful) rfl ServerRun.Lost.build_full
  obtain ⟨w, hw⟩ := exists_start_watcher
  rw [← hdir] at hw
  have hread : x.build ServerRun.Lost.full = .ok ServerRun.Lost.index := by
    rw [hbuild]
    exact ServerRun.Lost.build_full
  obtain ⟨hwait, hnone, hsend⟩ := run_late hw hread
  exact ⟨_, hs, hwait, hnone, hsend, last_reading_after_notices hwait hnone hsend⟩

end Following

end CannedApi
