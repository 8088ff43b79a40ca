import CannedApi.Mock.Cache
import Mathlib.Data.List.Nodup

/-!
# What a cache answers

A cache is told apart from another by what it would answer now: the answer kept for a path under its own
generation (`Cache.answer?`).  Neither the number of the generation nor that of a reading shows in it.  Here
is what each operation does to it, and that a cache which keeps what is on the disk goes on to do so
(`Cache.Faithful.load`).
-/

namespace CannedApi

namespace Cache

/-- the answer that is kept for a path and would be used now -/
def answer? (c : Cache) (p : Path) : Option Mock := (c.lookUp p c.generation).map Reading.mock

variable {c c' : Cache} {d : Disk} {p q : Path}

/-! ## Operations -/

theorem answer?_new (enabled : Bool) (p : Path) : (new enabled).answer? p = none := rfl

theorem answer?_clear (c : Cache) (p : Path) : c.clear.answer? p = none := rfl

theorem answer?_of_parts (h : q.parts = p.parts) : c.answer? q = c.answer? p := by
  unfold answer? lookUp
  rw [h]

theorem answer?_insert (r : Reading) :
    (c.insert p r c.generation).answer? q = if q.parts = p.parts then some r.mock else c.answer? q := by
  have hget : Entries.get? (c.insert p r c.generation).kept q.parts =
      if p.parts = q.parts then some ⟨r, c.generation⟩ else Entries.get? c.kept q.parts :=
    Entries.get?_put _ _ _ _
  unfold answer? lookUp
  rw [hget]
  by_cases h : p.parts = q.parts
  · rw [if_pos h, if_pos h.symm]
    simp [insert]
  · rw [if_neg h, if_neg fun e => h e.symm]
    rfl

/-- A load that reads the file itself gives what is in it, and keeps it if that is an answer. -/
theorem load_of_miss (henabled : c.enabled = true) (hmiss : c.answer? p = none) :
    (c.load d p).1.map Reading.mock = Mock.load d p ∧
      ∀ q, (c.load d p).2.answer? q =
        if q.parts = p.parts then (Mock.load d p).toOption else c.answer? q := by
  have hlook : c.lookUp p c.generation = none := Option.map_eq_none_iff.mp hmiss
  cases hm : Mock.load d p with
  | error e =>
    refine ⟨by simp [load, read, henabled, hlook, hm, Except.map], fun q => ?_⟩
    have hkept : (c.load d p).2 = { c with readings := c.readings + 1 } := by
      simp [load, read, henabled, hlook, hm, Except.map]
    rw [hkept]
    show c.answer? q = _
    split
    · rename_i h
      rw [answer?_of_parts h, hmiss]
      rfl
    · rfl
  | ok mock =>
    refine ⟨by simp [load, read, henabled, hlook, hm, Except.map], fun q => ?_⟩
    have hkept : (c.load d p).2 =
        { c with readings := c.readings + 1 }.insert p ⟨mock, c.readings⟩ c.generation := by
      simp [load, read, store, henabled, hlook, hm, Except.map]
    rw [hkept]
    exact answer?_insert (c := { c with readings := c.readings + 1 }) _

theorem load_of_hit (henabled : c.enabled = true) {m : Mock} (hhit : c.answer? p = some m) :
    (c.load d p).1.map Reading.mock = .ok m ∧ (c.load d p).2 = c := by
  obtain ⟨r, hlook, rfl⟩ := Option.map_eq_some_iff.mp hhit
  simp [load, henabled, hlook, Except.map]

theorem load_of_disabled (hdisabled : ¬ c.enabled = true) :
    (c.load d p).1.map Reading.mock = Mock.load d p ∧ ∀ q, (c.load d p).2.answer? q = c.answer? q := by
  refine ⟨?_, fun q => ?_⟩
  · cases hm : Mock.load d p <;> simp [load, read, hdisabled, hm, Except.map]
  · simp [load, read, hdisabled, answer?, lookUp]

theorem enabled_load (c : Cache) (d : Disk) (p : Path) : (c.load d p).2.enabled = c.enabled := by
  by_cases henabled : c.enabled = true
  · cases hlook : c.lookUp p c.generation with
    | some r => simp [load, henabled, hlook]
    | none =>
      cases hm : Mock.load d p <;>
        simp [load, read, store, insert, henabled, hlook, hm, Except.map]
  · simp [load, read, henabled]

/-! ## Caches that answer alike -/

/-- Both are in use or neither is, and they would answer the same. -/
structure Alike (c c' : Cache) : Prop where
  enabled : c.enabled = c'.enabled
  answer? : ∀ p, c.answer? p = c'.answer? p

theorem Alike.refl (c : Cache) : c.Alike c := ⟨rfl, fun _ => rfl⟩

/-- a cache that has been cleared is as good as new -/
theorem alike_clear_new (c : Cache) : c.clear.Alike (new c.enabled) :=
  ⟨rfl, fun p => by rw [answer?_clear, answer?_new]⟩

theorem Alike.clear (h : c.Alike c') : c.clear.Alike c'.clear :=
  ⟨h.enabled, fun p => by rw [answer?_clear, answer?_clear]⟩

theorem Alike.load (h : c.Alike c') (d : Disk) (p : Path) :
    (c.load d p).1.map Reading.mock = (c'.load d p).1.map Reading.mock ∧
      (c.load d p).2.Alike (c'.load d p).2 := by
  have henabled : (c.load d p).2.enabled = (c'.load d p).2.enabled := by
    rw [enabled_load, enabled_load, h.enabled]
  by_cases he : c.enabled = true
  · have he' : c'.enabled = true := h.enabled ▸ he
    cases ha : c.answer? p with
    | some m =>
      have ha' : c'.answer? p = some m := (h.answer? p).symm.trans ha
      obtain ⟨hm, hc⟩ := load_of_hit (d := d) he ha
      obtain ⟨hm', hc'⟩ := load_of_hit (d := d) he' ha'
      rw [hm, hm', hc, hc']
      exact ⟨rfl, h⟩
    | none =>
      have ha' : c'.answer? p = none := (h.answer? p).symm.trans ha
      obtain ⟨hm, hc⟩ := load_of_miss (d := d) he ha
      obtain ⟨hm', hc'⟩ := load_of_miss (d := d) he' ha'
      refine ⟨hm.trans hm'.symm, henabled, fun q => ?_⟩
      rw [hc, hc', h.answer? q]
  · have he' : ¬ c'.enabled = true := h.enabled ▸ he
    obtain ⟨hm, hc⟩ := load_of_disabled (d := d) (p := p) he
    obtain ⟨hm', hc'⟩ := load_of_disabled (d := d) (p := p) he'
    refine ⟨hm.trans hm'.symm, henabled, fun q => ?_⟩
    rw [hc, hc', h.answer? q]

/-! ## Caches that tell what is on the disk -/

/-- What is kept for one of the files is what is in it. -/
def Faithful (c : Cache) (d : Disk) (files : List Path) : Prop :=
  ∀ p ∈ files, ∀ m, c.answer? p = some m → Mock.load d p = .ok m

section
variable {files : List Path}

theorem faithful_new (enabled : Bool) (d : Disk) (files : List Path) : (new enabled).Faithful d files :=
  fun _ _ _ h => by cases h

theorem faithful_clear (c : Cache) (d : Disk) (files : List Path) : c.clear.Faithful d files :=
  fun _ _ _ h => by cases h

/-- A load gives what is in the file, whether it has been kept or not. -/
theorem Faithful.load_eq (h : c.Faithful d files) (hp : p ∈ files) :
    (c.load d p).1.map Reading.mock = Mock.load d p := by
  by_cases henabled : c.enabled = true
  · cases ha : c.answer? p with
    | some m => rw [(load_of_hit henabled ha).1, h p hp m ha]
    | none => exact (load_of_miss henabled ha).1
  · exact (load_of_disabled henabled).1

/-- Loading one file keeps nothing for another: the parts of their paths differ. -/
theorem Faithful.load (h : c.Faithful d files) (hfiles : (files.map Path.parts).Nodup) (hp : p ∈ files) :
    (c.load d p).2.Faithful d files := by
  intro q hq m hm
  by_cases henabled : c.enabled = true
  · cases ha : c.answer? p with
    | some m' =>
      rw [(load_of_hit henabled ha).2] at hm
      exact h q hq m hm
    | none =>
      rw [(load_of_miss henabled ha).2 q] at hm
      split at hm
      · rename_i hparts
        obtain rfl : q = p := List.inj_on_of_nodup_map hfiles hq hp hparts
        cases hl : Mock.load d q with
        | error e =>
          rw [hl] at hm
          cases hm
        | ok m' =>
          rw [hl] at hm
          cases hm
          rfl
      · exact h q hq m hm
  · rw [(load_of_disabled henabled).2 q] at hm
    exact h q hq m hm

end

end Cache

end CannedApi
