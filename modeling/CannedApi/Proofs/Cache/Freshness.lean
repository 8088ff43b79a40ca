import CannedApi.Proofs.Cache.Steps

/-!
# No answer from before a clearing

A load that starts after a clearing has raised the generation gives no reading from before that, in
whatever order loads, clearings and changes of files go on (`CacheRun.load_after_raise_fresh`).  A
reading that is kept too late, by a load that looked at the generation before the clearing raised it,
does no harm: what is kept bears the generation that its load looked at first, so a tag from the raise
on belongs to a reading from the raise on.  This tie between tags and readings is kept by every step
(`CacheRun.Ties`).
-/

namespace CannedApi

section
variable {T : UInt64 → Nat → Prop}

/-- The tag of a load stands in the relation to the number of its reading, or of one made now. -/
def CacheJob.Tied (T : UInt64 → Nat → Prop) (c : Cache) : CacheJob → Prop
  | .load _ (.tagged g) => T g c.readings
  | .load _ (.missed g) => T g c.readings
  | .load _ (.fetched g r) => T g r.number
  | .load _ (.approved g r) => T g r.number
  | _ => True

/-- all tags stand in the relation to the numbers of their readings -/
structure CacheRun.Ties (T : UInt64 → Nat → Prop) (s : CacheRun) : Prop where
  kept : ∀ e ∈ s.cache.kept, T e.2.generation e.2.reading.number
  jobs : ∀ j ∈ s.jobs, j.Tied T s.cache

theorem CacheJob.Tied.imp {T' : UInt64 → Nat → Prop} {c c' : Cache} (hT : ∀ g m, T g m → T' g m)
    (hnow : ∀ g, T g c.readings → T' g c'.readings) {j : CacheJob} (h : j.Tied T c) :
    j.Tied T' c' := by
  cases j with
  | clear stage => trivial
  | load p stage =>
    cases stage with
    | tagged g => exact hnow _ h
    | missed g => exact hnow _ h
    | fetched g r => exact hT _ _ h
    | approved g r => exact hT _ _ h
    | begun => trivial
    | finished x => trivial

theorem CacheRun.Ties.imp {T' : UInt64 → Nat → Prop} (hT : ∀ g m, T g m → T' g m) {s : CacheRun}
    (h : s.Ties T) : s.Ties T' :=
  ⟨fun e he => hT _ _ (h.kept e he), fun j hj => (h.jobs j hj).imp hT fun g => hT g _⟩

/-- A step keeps the tie of the job, provided a reading made now under the generation is tied. -/
theorem CacheJob.tied_of_advances {d : Disk} {c c' : Cache} {j j' : CacheJob}
    (h : j.Advances d c j' c') (hnow : T c.generation c.readings) (hj : j.Tied T c) :
    j'.Tied T c' := by
  cases h with
  | tag p => exact hnow
  | miss p g => exact hj
  | fetch p g m hm => exact hj
  | approve p g r => exact hj
  | direct | hit | fail | pass | keep | raise | discard | stayLoad | stayClear => trivial

theorem CacheJob.kept_tied_of_advances {d : Disk} {c c' : Cache} {j j' : CacheJob}
    (h : j.Advances d c j' c') (hj : j.Tied T c)
    (hc : ∀ e ∈ c.kept, T e.2.generation e.2.reading.number) :
    ∀ e ∈ c'.kept, T e.2.generation e.2.reading.number := by
  cases h with
  | keep p g r =>
    intro e he
    rcases Entries.mem_put he with he | rfl
    · exact hc e he
    · exact hj
  | discard n => exact fun e he => by cases he
  | _ => exact hc

namespace CacheRun

theorem ties_step (hT : ∀ g m n, T g m → m ≤ n → T g n) {s : CacheRun}
    (hnow : T s.cache.generation s.cache.readings) (h : s.Ties T) (m : CacheMove) :
    (s.step m).Ties T := by
  refine step_keeps (P := fun t => t.Ties T) h (fun _ => ⟨h.kept, h.jobs⟩) (fun j hj => ?_)
    (fun i j j' c' hj hadv => ?_) m
  · refine ⟨h.kept, fun x hx => ?_⟩
    rcases List.mem_append.mp hx with hx | hx
    · exact h.jobs x hx
    · rw [List.mem_singleton.mp hx]
      rcases hj with rfl | ⟨p, rfl⟩ <;> trivial
  · have hmem : j ∈ s.jobs := List.mem_of_getElem? hj
    have hle : s.cache.readings ≤ c'.readings := readings_le_advance hadv
    refine ⟨CacheJob.kept_tied_of_advances hadv (h.jobs j hmem) h.kept, fun x hx => ?_⟩
    rcases List.mem_or_eq_of_mem_set hx with hx | rfl
    · exact (h.jobs x hx).imp (fun _ _ hg => hg) fun g hg => hT g _ _ hg hle
    · exact CacheJob.tied_of_advances hadv hnow (h.jobs j hmem)

end CacheRun

end

namespace CacheRun

/-! ## Tags are not ahead of the generation -/

def Tagged (s : CacheRun) : Prop := s.Ties fun g _ => g.toNat ≤ s.cache.generation.toNat

theorem tagged_start (d : Disk) : (start d).Tagged := by
  constructor
  · intro e he
    cases he
  · intro j hj
    cases hj

theorem tagged_step {s : CacheRun} (h : s.Tagged) (hreach : s.reach < UInt64.size) (m : CacheMove) :
    (s.step m).Tagged := by
  have hle := generation_le_step hreach m
  have hties := ties_step (fun _ _ _ hg _ => hg) (Nat.le_refl _) h m
  exact hties.imp fun g _ hg => Nat.le_trans hg hle

/-! ## After a clearing has raised the generation -/

/-- From the generation `g₀` on, tags belong to readings from the `n`th on. -/
structure Settled (n g₀ : Nat) (s : CacheRun) : Prop where
  ties : s.Ties fun g m => g₀ ≤ g.toNat → n ≤ m
  readings : n ≤ s.cache.readings
  generation : g₀ ≤ s.cache.generation.toNat

theorem settled_of_raise {s : CacheRun} (h : s.Tagged) (hreach : s.reach < UInt64.size) {i : Nat}
    (hi : s.jobs[i]? = some (.clear .begun)) :
    (s.step (.advance i)).Settled s.cache.readings (s.cache.generation.toNat + 1) := by
  have hstep : (s.step (.advance i)).cache = s.cache.raise := by
    simp [step, hi, CacheJob.advance, CacheJob.advanceClear]
  have hties := ties_step (fun _ _ _ hg _ => hg) (Nat.le_refl _) h (.advance i)
  refine ⟨hties.imp fun g m hg hg₀ => absurd (Nat.le_trans hg₀ hg) (Nat.not_succ_le_self _), ?_, ?_⟩
  · exact readings_le_step s (.advance i)
  · rw [hstep]
    exact Nat.le_of_eq (toNat_raise hi hreach).symm

theorem settled_step {n g₀ : Nat} {s : CacheRun} (h : s.Settled n g₀) (hreach : s.reach < UInt64.size)
    (m : CacheMove) : (s.step m).Settled n g₀ :=
  ⟨ties_step (fun _ _ _ hm hle hg => Nat.le_trans (hm hg) hle) (fun _ => h.readings) h.ties m,
    Nat.le_trans h.readings (readings_le_step s m),
    Nat.le_trans h.generation (generation_le_step hreach m)⟩

/-! ## A load that starts then -/

end CacheRun

/-- The load has not looked at the generation before it was `g₀`, nor read before the `n`th reading. -/
def CacheJob.StartedAfter (n g₀ : Nat) : CacheJob → Prop
  | .load _ (.tagged g) => g₀ ≤ g.toNat
  | .load _ (.missed g) => g₀ ≤ g.toNat
  | .load _ (.fetched g _) => g₀ ≤ g.toNat
  | .load _ (.approved g _) => g₀ ≤ g.toNat
  | .load _ (.finished (.ok r)) => n ≤ r.number
  | _ => True

theorem CacheJob.startedAfter_of_advances {n g₀ : Nat} {s : CacheRun} (hs : s.Settled n g₀)
    {j j' : CacheJob} {c' : Cache} (hj : j ∈ s.jobs) (h : j.Advances s.disk s.cache j' c')
    (hafter : j.StartedAfter n g₀) : j'.StartedAfter n g₀ := by
  have htied := hs.ties.jobs j hj
  cases h with
  | tag p => exact hs.generation
  | direct p m hm => exact hs.readings
  | hit p g r hr => exact hs.ties.kept _ (Cache.mem_of_lookUp hr) hafter
  | miss p g => exact hafter
  | fetch p g m hm => exact hafter
  | approve p g r => exact hafter
  | pass p g r => exact htied hafter
  | keep p g r => exact htied hafter
  | stayLoad p x => exact hafter
  | fail | raise | discard | stayClear => trivial

namespace CacheRun

theorem startedAfter_step {n g₀ : Nat} {s : CacheRun} (hs : s.Settled n g₀) {k : Nat}
    (h : ∃ j, s.jobs[k]? = some j ∧ j.StartedAfter n g₀) (m : CacheMove) :
    ∃ j, (s.step m).jobs[k]? = some j ∧ j.StartedAfter n g₀ := by
  obtain ⟨x, hx, hafter⟩ := h
  refine step_keeps (P := fun t => ∃ j, t.jobs[k]? = some j ∧ j.StartedAfter n g₀)
    ⟨x, hx, hafter⟩ (fun _ => ⟨x, hx, hafter⟩) (fun j _ => ?_) (fun i j j' c' hj hadv => ?_) m
  · refine ⟨x, ?_, hafter⟩
    show (s.jobs ++ [j])[k]? = some x
    rw [List.getElem?_append_left (List.getElem?_eq_some_iff.mp hx).1, hx]
  · by_cases hik : i = k
    · subst hik
      rw [hj] at hx
      cases hx
      refine ⟨j', ?_, CacheJob.startedAfter_of_advances hs (List.mem_of_getElem? hj) hadv hafter⟩
      show (s.jobs.set i j')[i]? = some j'
      rw [List.getElem?_set_self (List.getElem?_eq_some_iff.mp hj).1]
    · refine ⟨x, ?_, hafter⟩
      show (s.jobs.set i j')[k]? = some x
      rw [List.getElem?_set_ne hik, hx]

/-- what a move keeps while the generation does not come round, a run keeps -/
theorem run_keeps {P : CacheRun → Prop}
    (hstep : ∀ s m, P s → s.reach < UInt64.size → P (s.step m)) {s : CacheRun} (moves : List CacheMove)
    (hfew : s.reach + moves.countP isStartClear < UInt64.size) (hs : P s) : P (s.run moves) := by
  induction moves generalizing s with
  | nil => exact hs
  | cons m moves ih =>
    have hm := reach_step s m
    rw [List.countP_cons] at hfew
    exact ih (by omega) (hstep s m hs (by omega))

/-- A load that starts in a settled run gives a reading from the `n`th on. -/
theorem le_number_of_load {n g₀ : Nat} {s : CacheRun} (hs : s.Settled n g₀) {p : Path}
    {after : List CacheMove}
    (hfew : s.reach + (CacheMove.startLoad p :: after).countP isStartClear < UInt64.size) {r : Reading}
    (hload : (s.run (.startLoad p :: after)).jobs[s.jobs.length]? =
      some (.load p (.finished (.ok r)))) : n ≤ r.number := by
  have hreach : s.reach < UInt64.size := Nat.lt_of_le_of_lt (Nat.le_add_right _ _) hfew
  have hstep := reach_step s (.startLoad p)
  have hbegun : (s.step (.startLoad p)).jobs[s.jobs.length]? = some (.load p .begun) := by
    simp [step]
  have hrun := run_keeps
    (P := fun t => t.Settled n g₀ ∧
      ∃ j, t.jobs[s.jobs.length]? = some j ∧ j.StartedAfter n g₀)
    (fun t m ht hr => ⟨settled_step ht.1 hr m, startedAfter_step ht.1 ht.2 m⟩) after
    (by rw [List.countP_cons] at hfew; omega)
    (show (s.step (.startLoad p)).Settled n g₀ ∧ _ from
      ⟨settled_step hs hreach _, _, hbegun, trivial⟩)
  obtain ⟨_, j, hj, hafter⟩ := hrun
  rw [run_cons, hj] at hload
  cases hload
  exact hafter

/-- **A load that starts after a clearing has raised the generation gives a reading made after that.**
The move after `before` raises the generation; then, after `between`, the load of `p` starts, and `r` is
its answer after `after`.  The file was read by a move after the one that raised the generation. -/
theorem load_after_raise_fresh {d : Disk} {before between after : List CacheMove} {i : Nat} {p : Path}
    {r : Reading}
    (hfew : (before ++ .advance i :: between ++ .startLoad p :: after).countP isStartClear < UInt64.size)
    (hraise : ((start d).run before).jobs[i]? = some (.clear .begun))
    (hload : ((start d).run (before ++ .advance i :: between ++ .startLoad p :: after)).jobs[
        ((start d).run (before ++ .advance i :: between)).jobs.length]? =
      some (.load p (.finished (.ok r)))) :
    ∃ earlier k later,
      before ++ .advance i :: between ++ .startLoad p :: after = earlier ++ .advance k :: later ∧
        before.length < earlier.length ∧ ((start d).run earlier).Makes k p.parts r := by
  have hholds : ((start d).run _).Holds p.parts r := Or.inr ⟨_, List.mem_of_getElem? hload, rfl⟩
  obtain ⟨earlier, k, later, hsplit, hmakes⟩ := makes_of_holds hholds
  refine ⟨earlier, k, later, hsplit, ?_, hmakes⟩
  have hle : ((start d).run (before ++ [.advance i])).cache.readings ≤ r.number := by
    have h₁ := reach_start d before
    have h₂ := reach_step ((start d).run before) (.advance i)
    have h₃ := reach_start d (before ++ .advance i :: between)
    simp only [List.countP_append, List.countP_cons, isStartClear, Bool.false_eq_true,
      if_false] at hfew h₂ h₃
    have htagged : ((start d).run before).Tagged :=
      run_keeps (fun _ m h hr => tagged_step h hr m) before
        (show 0 + before.countP isStartClear < UInt64.size by omega) (tagged_start d)
    have hraised := settled_of_raise htagged (by omega) hraise
    have hsettled := run_keeps (fun _ m h hr => settled_step h hr m) between (by omega) hraised
    rw [← run_cons, ← run_append] at hsettled
    rw [run_append (start d) (before ++ _)] at hload
    have hle := le_number_of_load hsettled
      (by simp only [List.countP_cons, isStartClear, Bool.false_eq_true, if_false]; omega) hload
    rw [run_append]
    show (((start d).run before).step (.advance i)).cache.readings ≤ r.number
    simpa [step, hraise, CacheJob.advance, CacheJob.advanceClear, Cache.raise] using hle
  -- were `r` made up to the raise, it would be counted by then
  by_contra hlen
  have hsplit' : (before ++ [.advance i]) ++ (between ++ .startLoad p :: after) =
      earlier ++ .advance k :: later := by
    rw [← hsplit]
    simp
  have hlt := number_lt_readings hmakes hsplit' (by simp; omega)
  omega

/-! ## A load that is kept too late -/

namespace Late

def fileName : FileName := ⟨Utf8.toBytes "item.json", by decide⟩
def path : Path := .ofText "item.json"

/-- what the file holds at first -/
def old : Disk := Disk.empty.put [fileName] (.file .file (Utf8.toBytes "false"))

/-- what it holds after the clearing -/
def new : Disk := Disk.empty.put [fileName] (.file .file (Utf8.toBytes "true"))

theorem load_old : Mock.load old path = .ok ⟨.bool false, .none⟩ := rfl

theorem load_new : Mock.load new path = .ok ⟨.bool true, .none⟩ := rfl

/-- a load comes as far as its second look at the generation -/
def before : List CacheMove :=
  [.startLoad path, .advance 0, .advance 0, .advance 0, .advance 0, .startClear]

/-- the load keeps its answer after the clearing has forgotten all -/
def between : List CacheMove := [.advance 1, .change new, .advance 0]

def after : List CacheMove := [.advance 2, .advance 2, .advance 2, .advance 2, .advance 2]

theorem raises : ((start old).run before).jobs[1]? = some (.clear .begun) := by
  simp [before, run, start, step, CacheJob.advance, CacheJob.advanceLoad, Cache.new, Cache.lookUp,
    Cache.read, load_old, Except.map]

theorem length_jobs : ((start old).run (before ++ .advance 1 :: between)).jobs.length = 2 := by
  simp [before, between, run, start, step, CacheJob.advance, CacheJob.advanceLoad,
    CacheJob.advanceClear, Cache.new, Cache.lookUp, Cache.read, load_old, Except.map]

theorem loads :
    ((start old).run (before ++ .advance 1 :: between ++ .startLoad path :: after)).jobs[2]? =
      some (.load path (.finished (.ok ⟨⟨.bool true, .none⟩, 1⟩))) := by
  simp [before, between, after, run, start, step, CacheJob.advance, CacheJob.advanceLoad,
    CacheJob.advanceClear, Cache.new, Cache.lookUp, Cache.read, Cache.raise, Cache.discard,
    Cache.insert, Entries.put, Entries.get?, load_old, load_new, Except.map]

end Late

theorem load_after_raise_fresh_late :
    ∃ earlier k later,
      Late.before ++ .advance 1 :: Late.between ++ .startLoad Late.path :: Late.after =
          earlier ++ .advance k :: later ∧
        Late.before.length < earlier.length ∧
          ((start Late.old).run earlier).Makes k Late.path.parts ⟨⟨.bool true, .none⟩, 1⟩ :=
  load_after_raise_fresh (by decide) Late.raises (by rw [Late.length_jobs]; exact Late.loads)

end CacheRun

end CannedApi
