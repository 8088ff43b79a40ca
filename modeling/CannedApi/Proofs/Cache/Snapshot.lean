import CannedApi.Proofs.Cache.Freshness
import CannedApi.Proofs.Except
import Mathlib.Data.List.Induction

/-!
# A cache keeps first successes

Files change, answers are loaded and the cache is cleared, one thing after the other.  What a cache in use
answers can be told from what has happened since it was last cleared: for each path the reading that the first
successful load of it gave (`CacheSite.mirrors_run`).  Neither later changes of the file nor failures show in
it, and a path without such a reading is read from its file now (`CacheSite.load_snapshot`).
-/

namespace CannedApi

/-! ## What has happened -/

/-- What is done to a cache and to the files that it reads. -/
inductive CacheAction where
  /-- files change in any way -/
  | change (d : Disk)
  | load (p : Path)
  | clear

inductive CacheEvent where
  | changed
  | loaded (p : Path) (result : Except LoadError Reading)
  | cleared

namespace CacheEvent

/-- what a load has given, with the parts of its path -/
def success? : CacheEvent → Option (List PathPart × Reading)
  | .loaded p (.ok r) => some (p.parts, r)
  | _ => none

def isClearing : CacheEvent → Bool
  | .cleared => true
  | _ => false

/-- the events behind the last clearing -/
def sinceClearing (events : List CacheEvent) : List CacheEvent :=
  (events.reverse.takeWhile fun e => !e.isClearing).reverse

/-- the successful loads since the last clearing, in order -/
def successes (events : List CacheEvent) : Entries (List PathPart) Reading :=
  (sinceClearing events).filterMap success?

/-- The reading of the first successful load of a path since the last clearing, if there was one. -/
def firstReading? (events : List CacheEvent) (p : Path) : Option Reading :=
  Entries.get? (successes events) p.parts

/-- the different paths that have been loaded with success since the last clearing, by their parts -/
def loadedPaths (events : List CacheEvent) : List (List PathPart) :=
  (Entries.keys (successes events)).eraseDups

theorem successes_cleared (events : List CacheEvent) : successes (events ++ [.cleared]) = [] := by
  simp [successes, sinceClearing, isClearing]

theorem successes_concat {e : CacheEvent} (he : e.isClearing = false) (events : List CacheEvent) :
    successes (events ++ [e]) = successes events ++ e.success?.toList := by
  have hsince : sinceClearing (events ++ [e]) = sinceClearing events ++ [e] := by
    simp [sinceClearing, he]
  rw [successes, hsince, List.filterMap_append, successes]
  cases h : e.success? <;> simp [h]

theorem successes_loaded (events : List CacheEvent) (p : Path) (r : Reading) :
    successes (events ++ [.loaded p (.ok r)]) = successes events ++ [(p.parts, r)] :=
  successes_concat rfl events

theorem get?_successes_loaded (events : List CacheEvent) (p : Path) (r : Reading) (parts : List PathPart) :
    Entries.get? (successes (events ++ [.loaded p (.ok r)])) parts =
      (Entries.get? (successes events) parts).or (if p.parts = parts then some r else none) := by
  rw [successes_loaded, Entries.get?_append]
  rfl

theorem loadedPaths_loaded (events : List CacheEvent) (p : Path) (r : Reading) :
    loadedPaths (events ++ [.loaded p (.ok r)]) =
      if p.parts ∈ loadedPaths events then loadedPaths events else loadedPaths events ++ [p.parts] := by
  have hkeys : Entries.keys (successes events ++ [(p.parts, r)]) =
      Entries.keys (successes events) ++ [p.parts] := List.map_append
  rw [loadedPaths, successes_loaded, hkeys, Entries.eraseDups_concat, loadedPaths]
  simp only [List.mem_eraseDups]

theorem exists_loaded_of_mem {events : List CacheEvent} {parts : List PathPart} {r : Reading}
    (h : (parts, r) ∈ successes events) : ∃ p, .loaded p (.ok r) ∈ events := by
  obtain ⟨e, he, hsuccess⟩ := List.mem_filterMap.mp h
  have hmem : e ∈ events := by
    rw [sinceClearing, List.mem_reverse] at he
    exact List.mem_reverse.mp ((List.takeWhile_sublist _).subset he)
  unfold success? at hsuccess
  split at hsuccess
  · rename_i p r'
    cases hsuccess
    exact ⟨p, hmem⟩
  · cases hsuccess

end CacheEvent

/-- A cache with the files that it reads. -/
structure CacheSite where
  disk : Disk
  cache : Cache

namespace CacheSite

open CacheEvent (successes firstReading? loadedPaths)

def start (enabled : Bool) (d : Disk) : CacheSite := ⟨d, .new enabled⟩

/-- what loading a path gives now -/
def load (s : CacheSite) (p : Path) : Except LoadError Reading := (s.cache.load s.disk p).1

/-- What is in the file now, as an object of its own. -/
def readNow (s : CacheSite) (p : Path) : Except LoadError Reading :=
  (Mock.load s.disk p).map fun m => ⟨m, s.cache.readings⟩

def step (s : CacheSite) : CacheAction → CacheEvent × CacheSite
  | .change d => (.changed, { s with disk := d })
  | .load p => (.loaded p (s.load p), { s with cache := (s.cache.load s.disk p).2 })
  | .clear => (.cleared, { s with cache := s.cache.clear })

/-- the events of a run and what it leads to -/
def run (s : CacheSite) (actions : List CacheAction) : List CacheEvent × CacheSite :=
  actions.foldl (fun x a => (x.1 ++ [(x.2.step a).1], (x.2.step a).2)) ([], s)

theorem run_concat (s : CacheSite) (actions : List CacheAction) (a : CacheAction) :
    s.run (actions ++ [a]) =
      ((s.run actions).1 ++ [((s.run actions).2.step a).1], ((s.run actions).2.step a).2) := by
  rw [run, List.foldl_append]
  rfl

variable {s : CacheSite} {events : List CacheEvent} {p : Path} {r : Reading}

/-- A load that reads the file gives what is in it, and the cache counts the reading and keeps at most its
result. -/
theorem load_of_not_kept (h : s.cache.enabled = true → s.cache.lookUp p s.cache.generation = none) :
    s.load p = s.readNow p ∧
      (s.cache.load s.disk p).2 =
        { s.cache with
          readings := s.cache.readings + 1
          kept := if s.cache.enabled then
              (s.readNow p).toOption.elim s.cache.kept fun r =>
                s.cache.kept.put p.parts ⟨r, s.cache.generation⟩
            else s.cache.kept } := by
  unfold load readNow
  by_cases he : s.cache.enabled = true
  · have hlook := h he
    cases hm : Mock.load s.disk p <;>
      simp [Cache.load, Cache.read, Cache.store, Cache.insert, he, hlook, hm, Except.map,
        Except.toOption]
  · cases hm : Mock.load s.disk p <;> simp [Cache.load, Cache.read, he, hm, Except.map]

/-! ## A cache in use -/

/-- The cache keeps, under its own generation, the first readings since the last clearing and nothing else. -/
structure Mirrors (s : CacheSite) (events : List CacheEvent) : Prop where
  enabled : s.cache.enabled = true
  current : ∀ e ∈ s.cache.kept, e.2.generation = s.cache.generation
  readings : ∀ parts, (Entries.get? s.cache.kept parts).map Remembered.reading =
    Entries.get? (successes events) parts
  paths : Entries.keys s.cache.kept = loadedPaths events

theorem Mirrors.lookUp (h : s.Mirrors events) (p : Path) :
    s.cache.lookUp p s.cache.generation = firstReading? events p := by
  rw [firstReading?, ← h.readings, Cache.lookUp]
  cases hget : Entries.get? s.cache.kept p.parts with
  | none => rfl
  | some e =>
    have hcurrent : e.generation = s.cache.generation := h.current _ (Entries.mem_of_get? hget)
    simp [hcurrent]

/-- What is kept is given again, and the cache stays as it is. -/
theorem Mirrors.load_of_some (h : s.Mirrors events) (hfirst : firstReading? events p = some r) :
    s.cache.load s.disk p = (.ok r, s.cache) := by
  have hlook := (h.lookUp p).trans hfirst
  simp [Cache.load, h.enabled, hlook]

/-- Events without a new success leave the snapshot as it is. -/
theorem Mirrors.of_successes {events' : List CacheEvent} (h : s.Mirrors events)
    (hsame : successes events' = successes events) : s.Mirrors events' where
  enabled := h.enabled
  current := h.current
  readings := by rw [hsame]; exact h.readings
  paths := by rw [loadedPaths, hsame]; exact h.paths

/-- A reading that is kept already is the first one still when it is given again. -/
theorem Mirrors.again (h : s.Mirrors events) (hfirst : firstReading? events p = some r) :
    s.Mirrors (events ++ [.loaded p (.ok r)]) := by
  refine ⟨h.enabled, h.current, fun parts => ?_, ?_⟩
  · rw [h.readings, CacheEvent.get?_successes_loaded]
    by_cases hparts : p.parts = parts
    · subst hparts
      have hget : Entries.get? (successes events) p.parts = some r := hfirst
      rw [hget]
      rfl
    · rw [if_neg hparts, Option.or_none]
  · have hmem : p.parts ∈ loadedPaths events := by
      rw [← h.paths]
      by_contra hnot
      have hget := h.readings p.parts
      rw [Entries.get?_eq_none_iff.mpr hnot] at hget
      exact Option.some_ne_none r (hfirst.symm.trans hget.symm)
    rw [h.paths, CacheEvent.loadedPaths_loaded, if_pos hmem]

/-- A new reading is kept behind the others. -/
theorem Mirrors.put (h : s.Mirrors events) (hnone : firstReading? events p = none) (r : Reading) (n : ℕ) :
    CacheSite.Mirrors
      { s with
        cache := { s.cache with
          readings := n
          kept := s.cache.kept.put p.parts ⟨r, s.cache.generation⟩ } }
      (events ++ [.loaded p (.ok r)]) := by
  refine ⟨h.enabled, fun e he => ?_, fun parts => ?_, ?_⟩
  · rcases Entries.mem_put he with hold | rfl
    · exact h.current e hold
    · rfl
  · rw [CacheEvent.get?_successes_loaded, Entries.get?_put, ← h.readings]
    by_cases hparts : p.parts = parts
    · subst hparts
      have hget : (Entries.get? s.cache.kept p.parts).map Remembered.reading = none :=
        (h.readings _).trans hnone
      rw [if_pos rfl, if_pos rfl, hget]
      rfl
    · rw [if_neg hparts, if_neg hparts, Option.or_none]
  · show Entries.keys (Entries.put _ _ _) = _
    rw [CacheEvent.loadedPaths_loaded, Entries.keys_put, h.paths]
    by_cases hmem : p.parts ∈ loadedPaths events
    · rw [if_pos hmem, if_pos hmem]
    · rw [if_neg hmem, if_neg hmem]

/-- **One step keeps the snapshot.** -/
theorem Mirrors.step (h : s.Mirrors events) (a : CacheAction) :
    (s.step a).2.Mirrors (events ++ [(s.step a).1]) := by
  cases a with
  | change d =>
    have hsame : successes (events ++ [.changed]) = successes events := by
      rw [CacheEvent.successes_concat rfl]
      exact List.append_nil _
    exact { h.of_successes hsame with }
  | clear =>
    have hnothing := CacheEvent.successes_cleared events
    refine ⟨h.enabled, fun _ he => absurd he List.not_mem_nil, fun parts => ?_, ?_⟩
    · show _ = Entries.get? (successes (events ++ [.cleared])) parts
      rw [hnothing]
      rfl
    · show _ = (Entries.keys (successes (events ++ [.cleared]))).eraseDups
      rw [hnothing]
      rfl
  | load p =>
    cases hfirst : firstReading? events p with
    | some r =>
      have hload := h.load_of_some hfirst
      show CacheSite.Mirrors { s with cache := (s.cache.load s.disk p).2 }
        (events ++ [.loaded p (s.cache.load s.disk p).1])
      rw [hload]
      exact h.again hfirst
    | none =>
      obtain ⟨hread, hcache⟩ := load_of_not_kept fun _ => (h.lookUp p).trans hfirst
      rw [if_pos h.enabled] at hcache
      show CacheSite.Mirrors { s with cache := (s.cache.load s.disk p).2 } (events ++ [.loaded p (s.load p)])
      rw [hcache, hread]
      cases hnow : s.readNow p with
      | ok r => exact h.put hfirst r _
      | error e =>
        have hsame : successes (events ++ [.loaded p (.error e)]) = successes events := by
          rw [CacheEvent.successes_concat rfl]
          exact List.append_nil _
        exact { h.of_successes hsame with }

theorem mirrors_start (d : Disk) : (start true d).Mirrors [] :=
  ⟨rfl, fun _ he => absurd he List.not_mem_nil, fun _ => rfl, rfl⟩

/-- **A cache in use keeps the snapshot** through a whole run. -/
theorem mirrors_run (d : Disk) (actions : List CacheAction) :
    ((start true d).run actions).2.Mirrors ((start true d).run actions).1 := by
  induction actions using List.reverseRecOn with
  | nil => exact mirrors_start d
  | append_singleton actions a ih =>
    rw [run_concat]
    exact ih.step a

/-! ## A cache that is not in use -/

/-- Nothing is ever kept. -/
structure Idle (s : CacheSite) : Prop where
  disabled : s.cache.enabled = false
  kept : s.cache.kept = []

theorem Idle.load_eq (h : s.Idle) (p : Path) : s.load p = s.readNow p :=
  (load_of_not_kept fun he => absurd (h.disabled.symm.trans he) Bool.false_ne_true).1

theorem Idle.step (h : s.Idle) (a : CacheAction) : (s.step a).2.Idle := by
  cases a with
  | change d => exact ⟨h.disabled, h.kept⟩
  | clear => exact ⟨h.disabled, rfl⟩
  | load p =>
    have hcache := (load_of_not_kept (s := s) (p := p)
      fun he => absurd (h.disabled.symm.trans he) Bool.false_ne_true).2
    show CacheSite.Idle { s with cache := (s.cache.load s.disk p).2 }
    rw [hcache]
    refine ⟨h.disabled, ?_⟩
    show (if s.cache.enabled = true then _ else s.cache.kept) = []
    rw [h.disabled, if_neg Bool.false_ne_true, h.kept]

theorem idle_run (d : Disk) (actions : List CacheAction) : ((start false d).run actions).2.Idle := by
  induction actions using List.reverseRecOn with
  | nil => exact ⟨rfl, rfl⟩
  | append_singleton actions a ih =>
    rw [run_concat]
    exact ih.step a

/-! ## Objects -/

/-- Whatever a load has given was read before now. -/
def Numbered (s : CacheSite) (events : List CacheEvent) : Prop :=
  ∀ p r, .loaded p (.ok r) ∈ events → r.number < s.cache.readings

theorem numbered_concat {s' : CacheSite} {e : CacheEvent} (h : s.Numbered events)
    (hle : s.cache.readings ≤ s'.cache.readings)
    (he : ∀ p r, e = .loaded p (.ok r) → r.number < s'.cache.readings) : s'.Numbered (events ++ [e]) := by
  intro p r hmem
  rcases List.mem_append.mp hmem with hold | hnew
  · exact Nat.lt_of_lt_of_le (h p r hold) hle
  · exact he p r (List.mem_singleton.mp hnew).symm

/-- What has not been kept is an object of its own. -/
theorem Numbered.load_of_not_kept (h : s.Numbered events)
    (hnot : s.cache.enabled = true → s.cache.lookUp p s.cache.generation = none) :
    (s.step (.load p)).2.Numbered (events ++ [(s.step (.load p)).1]) := by
  obtain ⟨hread, hcache⟩ := CacheSite.load_of_not_kept hnot
  have hreadings : (s.step (.load p)).2.cache.readings = s.cache.readings + 1 := by
    show (s.cache.load s.disk p).2.readings = _
    rw [hcache]
  refine numbered_concat h (by omega) fun q r he => ?_
  have hr : s.readNow p = .ok r := by
    rw [← hread]
    exact (CacheEvent.loaded.inj he).2
  obtain ⟨m, -, rfl⟩ := Except.map_eq_ok_iff.mp hr
  show s.cache.readings < _
  omega

theorem Numbered.step (h : s.Numbered events) (hs : s.Mirrors events ∨ s.Idle) (a : CacheAction) :
    (s.step a).2.Numbered (events ++ [(s.step a).1]) := by
  cases a with
  | change d => exact numbered_concat h (Nat.le_refl _) fun _ _ he => by cases he
  | clear => exact numbered_concat h (Nat.le_refl _) fun _ _ he => by cases he
  | load p =>
    rcases hs with hmirrors | hidle
    · cases hfirst : firstReading? events p with
      | none => exact h.load_of_not_kept fun _ => (hmirrors.lookUp p).trans hfirst
      | some r =>
        obtain ⟨q, hmem⟩ := CacheEvent.exists_loaded_of_mem (Entries.mem_of_get? hfirst)
        have hload := hmirrors.load_of_some hfirst
        have hcache : (s.step (.load p)).2.cache = s.cache := congrArg Prod.snd hload
        have hresult : s.load p = .ok r := congrArg Prod.fst hload
        refine numbered_concat h (Nat.le_of_eq (by rw [hcache])) fun _ r' he => ?_
        obtain rfl : r = r' := Except.ok.inj (hresult.symm.trans (CacheEvent.loaded.inj he).2)
        rw [hcache]
        exact h q r hmem
    · exact h.load_of_not_kept fun he => absurd (hidle.disabled.symm.trans he) Bool.false_ne_true

theorem mirrors_or_idle_run (enabled : Bool) (d : Disk) (actions : List CacheAction) :
    ((start enabled d).run actions).2.Mirrors ((start enabled d).run actions).1 ∨
      ((start enabled d).run actions).2.Idle := by
  cases enabled with
  | true => exact Or.inl (mirrors_run d actions)
  | false => exact Or.inr (idle_run d actions)

theorem numbered_run (enabled : Bool) (d : Disk) (actions : List CacheAction) :
    ((start enabled d).run actions).2.Numbered ((start enabled d).run actions).1 := by
  induction actions using List.reverseRecOn with
  | nil => exact fun _ _ h => absurd h List.not_mem_nil
  | append_singleton actions a ih =>
    rw [run_concat]
    exact ih.step (mirrors_or_idle_run enabled d actions) a

/-! ## The snapshot -/

/-- **A cache keeps first successes.**  After any run of file changes, loads and clearings, a cache in use gives
for each path the very object that the first successful load of it since the last clearing gave, if there was
one, and else what is in the file now, be it a failure; and it holds as many answers as different paths have
been loaded with success since then.  One that is not in use always gives what is in the file now, and holds
nothing.  What is read now is another object than all that were given before. -/
theorem load_snapshot {enabled : Bool} {d : Disk} {actions : List CacheAction} {events : List CacheEvent}
    {s : CacheSite} (hrun : (start enabled d).run actions = (events, s)) :
    (∀ p, s.load p = if enabled then (firstReading? events p).elim (s.readNow p) .ok else s.readNow p) ∧
      s.cache.size = (if enabled then (loadedPaths events).length else 0) ∧
      ∀ p q r r', .loaded p (.ok r) ∈ events → s.readNow q = .ok r' → r ≠ r' := by
  have hevents : events = ((start enabled d).run actions).1 := by rw [hrun]
  have hs : s = ((start enabled d).run actions).2 := by rw [hrun]
  refine ⟨fun p => ?_, ?_, fun p q r r' hmem hnow => ?_⟩
  · cases enabled with
    | false => exact hs ▸ (idle_run d actions).load_eq p
    | true =>
      have hmirrors : s.Mirrors events := hs ▸ hevents ▸ mirrors_run d actions
      cases hfirst : firstReading? events p with
      | some r => exact congrArg Prod.fst (hmirrors.load_of_some hfirst)
      | none => exact (load_of_not_kept fun _ => (hmirrors.lookUp p).trans hfirst).1
  · cases enabled with
    | false =>
      have hkept : s.cache.kept = [] := hs ▸ (idle_run d actions).kept
      rw [Cache.size, hkept]
      rfl
    | true =>
      have hmirrors : s.Mirrors events := hs ▸ hevents ▸ mirrors_run d actions
      show s.cache.kept.length = (loadedPaths events).length
      rw [← hmirrors.paths, Entries.keys, List.length_map]
  · obtain ⟨m, -, rfl⟩ := Except.map_eq_ok_iff.mp hnow
    have hlt : r.number < s.cache.readings := by
      have hnumbered : s.Numbered events := hs ▸ hevents ▸ numbered_run enabled d actions
      exact hnumbered p r hmem
    rintro rfl
    exact Nat.lt_irrefl _ hlt

/-! ## A file that is rewritten -/

namespace Rewritten

open CacheRun.Late (path old new load_old)

/-- the same file by a path that leads nowhere, since a file is no directory -/
def spelled : Path := .ofText "item.json/."

theorem parts_spelled : spelled.parts = path.parts := by decide

def actions : List CacheAction := [.load path, .change new, .load spelled]

/-- what the file held when it was read first -/
def first : Reading := ⟨⟨.bool false, .none⟩, 0⟩

def seen : List CacheEvent := [.loaded path (.ok first), .changed, .loaded spelled (.ok first)]

theorem run_actions : ((start true old).run actions).1 = seen := by
  simp [actions, seen, first, run, step, start, load, Cache.new, Cache.load, Cache.lookUp, Cache.read,
    Cache.store, Cache.insert, Entries.put, Entries.get?, load_old, parts_spelled, Except.map]

end Rewritten

/-- The file is read once, whatever it holds later, and answers under each spelling of its path. -/
theorem load_snapshot_rewritten :
    ∃ s, (start true CacheRun.Late.old).run Rewritten.actions = (Rewritten.seen, s) ∧
      s.load CacheRun.Late.path = .ok Rewritten.first ∧ s.cache.size = 1 := by
  have hrun : (start true CacheRun.Late.old).run Rewritten.actions = (Rewritten.seen, _) :=
    Prod.ext Rewritten.run_actions rfl
  obtain ⟨hload, hsize, -⟩ := load_snapshot hrun
  have hpaths : loadedPaths Rewritten.seen = [CacheRun.Late.path.parts] := by decide
  refine ⟨_, hrun, hload _, ?_⟩
  rw [hsize, hpaths]
  rfl

end CacheSite

end CannedApi
