import CannedApi.Mock.Cache

/-!
# Loads and clearings that overlap

Several loads and clearings of one cache at the same time, while files change.  Each goes on by steps of
its own: a load looks at the generation, looks up the answer, reads the file, looks at the generation
again and keeps the answer; a clearing raises the generation and forgets the answers.  A run is a list of
moves in any order, and a move that is not possible changes nothing.  A load or a clearing that nothing
comes between is one of `Cache` (`alone_load`, `alone_clear`).
-/

namespace CannedApi

/-- How far a load has come. -/
inductive LoadStage where
  | begun
  /-- the generation has been looked at -/
  | tagged (generation : UInt64)
  /-- no answer was kept -/
  | missed (generation : UInt64)
  /-- the file has been read -/
  | fetched (generation : UInt64) (r : Reading)
  /-- the generation was still the same after that -/
  | approved (generation : UInt64) (r : Reading)
  | finished (result : Except LoadError Reading)

/-- How far a clearing has come.  It remembers how many files had been read when it raised the
generation. -/
inductive ClearStage where
  | begun
  | raised (readings : Nat)
  | finished (readings : Nat)
  deriving DecidableEq

inductive CacheJob where
  | load (p : Path) (stage : LoadStage)
  | clear (stage : ClearStage)

namespace CacheJob

/-- the next step of a load -/
def advanceLoad (d : Disk) (c : Cache) (p : Path) : LoadStage → LoadStage × Cache
  | .begun =>
    if c.enabled then (.tagged c.generation, c)
    else
      let (r, c) := c.read d p
      (.finished r, c)
  | .tagged g =>
    match c.lookUp p g with
    | some r => (.finished (.ok r), c)
    | none => (.missed g, c)
  | .missed g =>
    match c.read d p with
    | (.ok r, c) => (.fetched g r, c)
    | (.error e, c) => (.finished (.error e), c)
  | .fetched g r => (if g = c.generation then .approved g r else .finished (.ok r), c)
  | .approved g r => (.finished (.ok r), c.insert p r g)
  | .finished r => (.finished r, c)

/-- the next step of a clearing -/
def advanceClear (c : Cache) : ClearStage → ClearStage × Cache
  | .begun => (.raised c.readings, c.raise)
  | .raised n => (.finished n, c.discard)
  | .finished n => (.finished n, c)

def advance (d : Disk) (c : Cache) : CacheJob → CacheJob × Cache
  | .load p stage =>
    let (stage, c) := advanceLoad d c p stage
    (.load p stage, c)
  | .clear stage =>
    let (stage, c) := advanceClear c stage
    (.clear stage, c)

/-- `n` steps that nothing comes between -/
def alone (d : Disk) : Nat → CacheJob × Cache → CacheJob × Cache
  | 0, x => x
  | n + 1, (j, c) => alone d n (j.advance d c)

theorem alone_clear (d : Disk) (c : Cache) :
    alone d 2 (.clear .begun, c) = (.clear (.finished c.readings), c.clear) := rfl

theorem alone_load (d : Disk) (c : Cache) (p : Path) :
    alone d 5 (.load p .begun, c) = (.load p (.finished (c.load d p).1), (c.load d p).2) := by
  by_cases he : c.enabled = true
  · cases hl : c.lookUp p c.generation with
    | some r => simp [alone, advance, advanceLoad, Cache.load, he, hl]
    | none =>
      cases hm : Mock.load d p with
      | error e => simp [alone, advance, advanceLoad, Cache.load, Cache.read, he, hl, hm, Except.map]
      | ok m =>
        simp [alone, advance, advanceLoad, Cache.load, Cache.read, Cache.store, he, hl, hm, Except.map]
  · simp [alone, advance, advanceLoad, Cache.load, he]

end CacheJob

/-- A cache with the jobs at it, in the order in which they were started. -/
structure CacheRun where
  disk : Disk
  cache : Cache
  jobs : List CacheJob

inductive CacheMove where
  /-- files change in any way -/
  | change (d : Disk)
  | startLoad (p : Path)
  | startClear
  /-- the next step of the `i`th job -/
  | advance (i : Nat)

namespace CacheRun

/-- a cache with nothing in it and nothing going on -/
def start (d : Disk) : CacheRun := ⟨d, .new true, []⟩

def step (s : CacheRun) : CacheMove → CacheRun
  | .change d => { s with disk := d }
  | .startLoad p => { s with jobs := s.jobs ++ [.load p .begun] }
  | .startClear => { s with jobs := s.jobs ++ [.clear .begun] }
  | .advance i =>
    match s.jobs[i]? with
    | none => s
    | some j =>
      let (j, c) := j.advance s.disk s.cache
      { s with cache := c, jobs := s.jobs.set i j }

def run (s : CacheRun) (moves : List CacheMove) : CacheRun := moves.foldl step s

theorem run_cons (s : CacheRun) (m : CacheMove) (moves : List CacheMove) :
    s.run (m :: moves) = (s.step m).run moves := rfl

theorem run_append (s : CacheRun) (a b : List CacheMove) : s.run (a ++ b) = (s.run a).run b :=
  List.foldl_append

end CacheRun

end CannedApi
