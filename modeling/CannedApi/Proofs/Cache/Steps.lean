import CannedApi.Mock.Overlap
import Mathlib.Data.List.Induction

/-!
# What one step of a cache run does

`CacheJob.Advances` lists what one step of a load or a clearing can do; everything else about runs of a
cache is read off it.  Here: files are only ever read more often, a reading that is held was made by one
of the moves (`CacheRun.makes_of_holds`), and the generation does not come round again as long as fewer
than `UInt64.size` clearings are started (`CacheRun.generation_le_step`).
-/

namespace CannedApi

theorem Cache.mem_of_lookUp {c : Cache} {p : Path} {g : UInt64} {r : Reading}
    (h : c.lookUp p g = some r) : (p.parts, ⟨r, g⟩) ∈ c.kept := by
  unfold lookUp at h
  split at h
  · rename_i e he
    split at h
    · rename_i hg
      cases h
      rw [← hg]
      exact Entries.mem_of_get? he
    · cases h
  · cases h

/-- one more file has been read -/
def Cache.counted (c : Cache) : Cache := { c with readings := c.readings + 1 }

namespace CacheJob

/-- What one step can make of a job and the cache. -/
inductive Advances (d : Disk) (c : Cache) : CacheJob → CacheJob → Cache → Prop where
  | tag (p : Path) : Advances d c (.load p .begun) (.load p (.tagged c.generation)) c
  /-- a cache that is not enabled only reads -/
  | direct (p : Path) (m : Mock) (hm : Mock.load d p = .ok m) :
      Advances d c (.load p .begun) (.load p (.finished (.ok ⟨m, c.readings⟩))) c.counted
  | hit (p : Path) (g : UInt64) (r : Reading) (hr : c.lookUp p g = some r) :
      Advances d c (.load p (.tagged g)) (.load p (.finished (.ok r))) c
  | miss (p : Path) (g : UInt64) : Advances d c (.load p (.tagged g)) (.load p (.missed g)) c
  | fetch (p : Path) (g : UInt64) (m : Mock) (hm : Mock.load d p = .ok m) :
      Advances d c (.load p (.missed g)) (.load p (.fetched g ⟨m, c.readings⟩)) c.counted
  | fail (p : Path) (stage : LoadStage) (e : LoadError) :
      Advances d c (.load p stage) (.load p (.finished (.error e))) c.counted
  | approve (p : Path) (g : UInt64) (r : Reading) :
      Advances d c (.load p (.fetched g r)) (.load p (.approved g r)) c
  | pass (p : Path) (g : UInt64) (r : Reading) :
      Advances d c (.load p (.fetched g r)) (.load p (.finished (.ok r))) c
  | keep (p : Path) (g : UInt64) (r : Reading) :
      Advances d c (.load p (.approved g r)) (.load p (.finished (.ok r))) (c.insert p r g)
  | raise : Advances d c (.clear .begun) (.clear (.raised c.readings)) c.raise
  | discard (n : Nat) : Advances d c (.clear (.raised n)) (.clear (.finished n)) c.discard
  | stayLoad (p : Path) (x : Except LoadError Reading) :
      Advances d c (.load p (.finished x)) (.load p (.finished x)) c
  | stayClear (n : Nat) : Advances d c (.clear (.finished n)) (.clear (.finished n)) c

theorem advances (d : Disk) (c : Cache) (j : CacheJob) :
    Advances d c j (j.advance d c).1 (j.advance d c).2 := by
  cases j with
  | clear stage =>
    cases stage with
    | begun => exact .raise
    | raised n => exact .discard n
    | finished n => exact .stayClear n
  | load p stage =>
    cases stage with
    | begun =>
      by_cases he : c.enabled = true
      · simp only [advance, advanceLoad, if_pos he]
        exact .tag p
      · simp only [advance, advanceLoad, if_neg he, Cache.read]
        cases hm : Mock.load d p with
        | error e => exact .fail p .begun e
        | ok m => exact .direct p m hm
    | tagged g =>
      cases hr : c.lookUp p g with
      | none =>
        simp only [advance, advanceLoad, hr]
        exact .miss p g
      | some r =>
        simp only [advance, advanceLoad, hr]
        exact .hit p g r hr
    | missed g =>
      cases hm : Mock.load d p with
      | error e =>
        simp only [advance, advanceLoad, Cache.read, hm, Except.map]
        exact .fail p (.missed g) e
      | ok m =>
        simp only [advance, advanceLoad, Cache.read, hm, Except.map]
        exact .fetch p g m hm
    | fetched g r =>
      by_cases hg : g = c.generation
      · simp only [advance, advanceLoad, if_pos hg]
        exact .approve p g r
      · simp only [advance, advanceLoad, if_neg hg]
        exact .pass p g r
    | approved g r => exact .keep p g r
    | finished x => exact .stayLoad p x

/-- the reading that a load has, with the parts of its path -/
def reading? : CacheJob → Option (List PathPart × Reading)
  | .load p (.fetched _ r) => some (p.parts, r)
  | .load p (.approved _ r) => some (p.parts, r)
  | .load p (.finished (.ok r)) => some (p.parts, r)
  | _ => none

/-- what is kept after a step was kept before or is what the job had -/
theorem kept_of_advances {d : Disk} {c c' : Cache} {j j' : CacheJob} (h : j.Advances d c j' c')
    {key : List PathPart} {r : Reading} {g : UInt64} (hk : (key, ⟨r, g⟩) ∈ c'.kept) :
    (key, ⟨r, g⟩) ∈ c.kept ∨ j.reading? = some (key, r) := by
  cases h with
  | keep p g' r' =>
    rcases Entries.mem_put hk with hk | e
    · exact Or.inl hk
    · cases e
      exact Or.inr rfl
  | discard n => cases hk
  | _ => exact Or.inl hk

/-- what a job has after a step it had before, or it was kept, or the step read it -/
theorem reading_of_advances {d : Disk} {c c' : Cache} {j j' : CacheJob}
    (h : j.Advances d c j' c') {key : List PathPart} {r : Reading}
    (hr : j'.reading? = some (key, r)) :
    j.reading? = some (key, r) ∨ (∃ g, (key, ⟨r, g⟩) ∈ c.kept) ∨
      r.number = c.readings ∧ c'.readings = c.readings + 1 ∧
        ∃ p, p.parts = key ∧ Mock.load d p = .ok r.mock := by
  cases h with
  | hit p g r' hl =>
    cases hr
    exact Or.inr (Or.inl ⟨g, Cache.mem_of_lookUp hl⟩)
  | direct p m hm =>
    cases hr
    exact Or.inr (Or.inr ⟨rfl, rfl, p, rfl, hm⟩)
  | fetch p g m hm =>
    cases hr
    exact Or.inr (Or.inr ⟨rfl, rfl, p, rfl, hm⟩)
  | tag | miss | fail | raise | discard | stayClear => cases hr
  | approve | pass | keep | stayLoad => exact Or.inl hr

end CacheJob

namespace CacheRun

theorem step_advance {s : CacheRun} {i : Nat} {j : CacheJob} (h : s.jobs[i]? = some j) :
    ∃ j' c', j.Advances s.disk s.cache j' c' ∧
      s.step (.advance i) = { s with cache := c', jobs := s.jobs.set i j' } := by
  refine ⟨_, _, j.advances s.disk s.cache, ?_⟩
  simp [step, h]

theorem step_advance_none {s : CacheRun} {i : Nat} (h : s.jobs[i]? = none) :
    s.step (.advance i) = s := by
  simp [step, h]

/-- A move keeps what holds of the run, if other files, another job and a step of any job do. -/
theorem step_keeps {P : CacheRun → Prop} {s : CacheRun} (hs : P s)
    (hchange : ∀ d, P { s with disk := d })
    (hstart : ∀ j, j = .clear .begun ∨ (∃ p, j = .load p .begun) →
      P { s with jobs := s.jobs ++ [j] })
    (hadvance : ∀ i j j' c', s.jobs[i]? = some j → j.Advances s.disk s.cache j' c' →
      P { s with cache := c', jobs := s.jobs.set i j' })
    (m : CacheMove) : P (s.step m) := by
  cases m with
  | change d => exact hchange d
  | startLoad p => exact hstart _ (Or.inr ⟨p, rfl⟩)
  | startClear => exact hstart _ (Or.inl rfl)
  | advance i =>
    cases hj : s.jobs[i]? with
    | none =>
      rw [step_advance_none hj]
      exact hs
    | some j =>
      obtain ⟨j', c', hadv, e⟩ := step_advance hj
      rw [e]
      exact hadvance i j j' c' hj hadv

/-! ## Readings -/

theorem readings_le_advance {d : Disk} {c c' : Cache} {j j' : CacheJob}
    (h : j.Advances d c j' c') : c.readings ≤ c'.readings := by
  cases h with
  | direct | fetch | fail => exact Nat.le_succ _
  | _ => exact Nat.le_refl _

theorem readings_le_step (s : CacheRun) (m : CacheMove) :
    s.cache.readings ≤ (s.step m).cache.readings :=
  step_keeps (P := fun t => s.cache.readings ≤ t.cache.readings) (Nat.le_refl _)
    (fun _ => Nat.le_refl _) (fun _ _ => Nat.le_refl _)
    (fun _ _ _ _ _ hadv => readings_le_advance hadv) m

theorem readings_le_run (s : CacheRun) (moves : List CacheMove) :
    s.cache.readings ≤ (s.run moves).cache.readings := by
  induction moves generalizing s with
  | nil => exact Nat.le_refl _
  | cons m moves ih => exact Nat.le_trans (readings_le_step s m) (ih (s.step m))

/-! ## Readings that are held -/

/-- the reading is kept, or a load has it, for a path with these parts -/
def Holds (s : CacheRun) (key : List PathPart) (r : Reading) : Prop :=
  (∃ g, (key, ⟨r, g⟩) ∈ s.cache.kept) ∨ ∃ j ∈ s.jobs, j.reading? = some (key, r)

/-- The next step of the `i`th job reads the file of a path with these parts, and `r` is what it gives. -/
def Makes (s : CacheRun) (i : Nat) (key : List PathPart) (r : Reading) : Prop :=
  s.cache.readings = r.number ∧ (s.step (.advance i)).cache.readings = r.number + 1 ∧
    ∃ p, p.parts = key ∧ Mock.load s.disk p = .ok r.mock

theorem holds_of_start {s : CacheRun} {j : CacheJob} (hj : j.reading? = none) {key : List PathPart}
    {r : Reading} (h : Holds { s with jobs := s.jobs ++ [j] } key r) : s.Holds key r := by
  rcases h with h | ⟨x, hx, hr⟩
  · exact Or.inl h
  · rcases List.mem_append.mp hx with hx | hx
    · exact Or.inr ⟨x, hx, hr⟩
    · rw [List.mem_singleton.mp hx, hj] at hr
      cases hr

theorem holds_step {s : CacheRun} {m : CacheMove} {key : List PathPart} {r : Reading}
    (h : (s.step m).Holds key r) : s.Holds key r ∨ ∃ i, m = .advance i ∧ s.Makes i key r := by
  have hold : ∀ j ∈ s.jobs, j.reading? = some (key, r) → s.Holds key r := fun j hj hr =>
    Or.inr ⟨j, hj, hr⟩
  cases m with
  | change d => exact Or.inl h
  | startLoad p => exact Or.inl (holds_of_start rfl h)
  | startClear => exact Or.inl (holds_of_start rfl h)
  | advance i =>
    cases hj : s.jobs[i]? with
    | none =>
      rw [step_advance_none hj] at h
      exact Or.inl h
    | some j =>
      have hmem : j ∈ s.jobs := List.mem_of_getElem? hj
      obtain ⟨j', c', hadv, e⟩ := step_advance hj
      rw [e] at h
      rcases h with ⟨g, h⟩ | ⟨x, hx, hr⟩
      · rcases CacheJob.kept_of_advances hadv h with h | h
        · exact Or.inl (Or.inl ⟨g, h⟩)
        · exact Or.inl (hold j hmem h)
      · rcases List.mem_or_eq_of_mem_set hx with hx | rfl
        · exact Or.inl (hold x hx hr)
        · rcases CacheJob.reading_of_advances hadv hr with h | h | ⟨hn, hc, hp⟩
          · exact Or.inl (hold j hmem h)
          · exact Or.inl (Or.inl h)
          · refine Or.inr ⟨i, rfl, hn.symm, ?_, hp⟩
            rw [e, hn]
            exact hc

/-- A reading that is held was made by one of the moves. -/
theorem makes_of_holds {d : Disk} {moves : List CacheMove} {key : List PathPart} {r : Reading}
    (h : ((start d).run moves).Holds key r) :
    ∃ earlier i later, moves = earlier ++ .advance i :: later ∧
      ((start d).run earlier).Makes i key r := by
  induction moves using List.reverseRecOn with
  | nil =>
    rcases h with ⟨g, hg⟩ | ⟨j, hj, _⟩
    · cases hg
    · cases hj
  | append_singleton moves m ih =>
    rw [run_append] at h
    rcases holds_step h with h | ⟨i, rfl, hm⟩
    · obtain ⟨earlier, i, later, rfl, hm⟩ := ih h
      exact ⟨earlier, i, later ++ [m], by simp, hm⟩
    · exact ⟨moves, i, [], rfl, hm⟩

/-- A reading made by a move is counted as soon as that move is done. -/
theorem number_lt_readings {s : CacheRun} {earlier later moves rest : List CacheMove} {k : Nat}
    {key : List PathPart} {r : Reading} (h : (s.run earlier).Makes k key r)
    (hsplit : moves ++ rest = earlier ++ .advance k :: later)
    (hlen : earlier.length < moves.length) : r.number < (s.run moves).cache.readings := by
  have hprefix : earlier ++ [.advance k] <+: moves := by
    refine List.prefix_of_prefix_length_le ⟨later, ?_⟩ ⟨rest, rfl⟩ (by simp; omega)
    rw [hsplit]
    simp
  obtain ⟨more, rfl⟩ := hprefix
  have hle := readings_le_run (s.run (earlier ++ [.advance k])) more
  rw [← run_append, run_append s earlier] at hle
  have hmade : ((s.run earlier).run [.advance k]).cache.readings = r.number + 1 := h.2.1
  omega

/-! ## Generations -/

/-- a clearing that has not yet raised the generation -/
def isPendingClear : CacheJob → Bool
  | .clear .begun => true
  | _ => false

def isStartClear : CacheMove → Bool
  | .startClear => true
  | _ => false

/-- how far the clearings that there are by now can take the generation -/
def reach (s : CacheRun) : Nat := s.cache.generation.toNat + s.jobs.countP isPendingClear

theorem generation_lt_reach {s : CacheRun} {i : Nat} (h : s.jobs[i]? = some (.clear .begun)) :
    s.cache.generation.toNat + 1 ≤ s.reach := by
  have hpos : 0 < s.jobs.countP isPendingClear :=
    List.countP_pos_iff.mpr ⟨_, List.mem_of_getElem? h, rfl⟩
  unfold reach
  omega

theorem reach_advance {s : CacheRun} {i : Nat} {j j' : CacheJob} {c' : Cache}
    (hj : s.jobs[i]? = some j) (h : j.Advances s.disk s.cache j' c') :
    c'.generation.toNat + (s.jobs.set i j').countP isPendingClear ≤ s.reach := by
  obtain ⟨hi, hget⟩ := List.getElem?_eq_some_iff.mp hj
  rw [List.countP_set hi, hget]
  unfold reach
  cases h with
  | raise =>
    -- the generation goes up by one at most, and one clearing fewer is pending
    have hle : (s.cache.generation + 1).toNat ≤ s.cache.generation.toNat + 1 := by
      rw [UInt64.toNat_add]
      exact Nat.mod_le _ _
    have hpos : 0 < s.jobs.countP isPendingClear :=
      List.countP_pos_iff.mpr ⟨_, List.mem_of_getElem? hj, rfl⟩
    show (s.cache.generation + 1).toNat + (_ - 1 + 0) ≤ _
    omega
  | _ => exact Nat.le_refl _

theorem reach_step (s : CacheRun) (m : CacheMove) :
    (s.step m).reach ≤ s.reach + if isStartClear m then 1 else 0 := by
  cases m with
  | change d => exact Nat.le_refl _
  | startLoad p => simp [reach, step, isPendingClear, isStartClear]
  | startClear =>
    simp only [reach, step, isPendingClear, isStartClear, List.countP_append,
      List.countP_singleton, if_true]
    omega
  | advance i =>
    cases hj : s.jobs[i]? with
    | none =>
      rw [step_advance_none hj]
      exact Nat.le_add_right _ _
    | some j =>
      obtain ⟨j', c', hadv, e⟩ := step_advance hj
      rw [e]
      exact reach_advance hj hadv

theorem reach_run (s : CacheRun) (moves : List CacheMove) :
    (s.run moves).reach ≤ s.reach + moves.countP isStartClear := by
  induction moves generalizing s with
  | nil => exact Nat.le_refl _
  | cons m moves ih =>
    have h := ih (s.step m)
    have hm := reach_step s m
    rw [run_cons, List.countP_cons]
    omega

theorem reach_start (d : Disk) (moves : List CacheMove) :
    ((start d).run moves).reach ≤ moves.countP isStartClear := by
  have h := reach_run (start d) moves
  have h0 : (start d).reach = 0 := rfl
  omega

theorem toNat_raise {s : CacheRun} {i : Nat} (h : s.jobs[i]? = some (.clear .begun))
    (hreach : s.reach < UInt64.size) :
    s.cache.raise.generation.toNat = s.cache.generation.toNat + 1 := by
  have hlt := generation_lt_reach h
  show (s.cache.generation + 1).toNat = _
  rw [UInt64.toNat_add]
  exact Nat.mod_eq_of_lt (Nat.lt_of_le_of_lt hlt hreach)

theorem generation_le_step {s : CacheRun} (h : s.reach < UInt64.size) (m : CacheMove) :
    s.cache.generation.toNat ≤ (s.step m).cache.generation.toNat := by
  refine step_keeps (P := fun t => s.cache.generation.toNat ≤ t.cache.generation.toNat)
    (Nat.le_refl _) (fun _ => Nat.le_refl _) (fun _ _ => Nat.le_refl _)
    (fun i j j' c' hj hadv => ?_) m
  cases hadv with
  | raise =>
    show _ ≤ s.cache.raise.generation.toNat
    rw [toNat_raise hj h]
    exact Nat.le_succ _
  | _ => exact Nat.le_refl _

end CacheRun

end CannedApi
