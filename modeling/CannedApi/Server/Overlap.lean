import CannedApi.Server.Host

/-!
# Reloads and requests that overlap

Reloads and requests of one standalone server at the same time, while files change.  A reload reads the
directory, puts the index in use and clears the cache; a request is resolved, and then either answered or
given the routes that there are by then.  Readings of the directory are numbered, so that an index tells
how old it is.  A run is a list of moves in any order, and a move that is not possible changes nothing.
-/

namespace CannedApi

/-- An index with the number of the reading of the directory that gave it. -/
structure DatedIndex where
  index : RouteIndex
  reading : Nat

inductive ReloadStage where
  | begun
  | built (x : DatedIndex)
  | published (x : DatedIndex)
  | finished (reading : Nat) (result : Except ScanError RouteIndex)

/-- How far a request has come.  It remembers against which index it was resolved. -/
inductive RequestStage where
  | begun
  | resolved (against : DatedIndex) (found : Option RouteMatch)
  | finished (against : DatedIndex) (found : Option RouteMatch) (response : Response)

inductive ServerJob where
  | reload (stage : ReloadStage)
  | request (r : HttpRequest) (stage : RequestStage)

/-- A server with the jobs at it, in the order in which they were started. -/
structure ServerRun where
  limit : Nat
  ambient : Template.Ambient
  disk : Disk
  dispatcher : Dispatcher
  /-- the reading that gave the index in use -/
  inUse : Nat
  /-- how often the directory has been read -/
  readings : Nat
  jobs : List ServerJob

inductive ServerMove where
  /-- files change in any way -/
  | change (d : Disk)
  | startReload
  | startRequest (r : HttpRequest)
  /-- the next step of the `i`th job -/
  | advance (i : Nat)

namespace ServerRun

/-- a server that has just been made -/
def start (s : Settings) (a : Template.Ambient) (d : Disk) : Except ScanError ServerRun :=
  (Dispatcher.new s d).map fun x => ⟨s.maxBodySize, a, d, x, 0, 1, []⟩

/-- the index in use -/
def current (s : ServerRun) : DatedIndex := ⟨s.dispatcher.index, s.inUse⟩

/-- the next step of a reload -/
def advanceReload (s : ServerRun) : ReloadStage → ReloadStage × ServerRun
  | .begun =>
    let s' := { s with readings := s.readings + 1 }
    match s.dispatcher.build s.disk with
    | .ok index => (.built ⟨index, s.readings⟩, s')
    | .error e =>
      (.finished s.readings (.error e), { s' with dispatcher := s.dispatcher.countReload none })
  | .built x =>
    (.published x, { s with dispatcher := s.dispatcher.publish x.index, inUse := x.reading })
  | .published x =>
    (.finished x.reading (.ok x.index),
      { s with dispatcher := s.dispatcher.clearCache.countReload (some x.index.size) })
  | .finished n r => (.finished n r, s)

/-- the next step of a request -/
def advanceRequest (s : ServerRun) (r : HttpRequest) : RequestStage → RequestStage × ServerRun
  | .begun => (.resolved s.current (s.dispatcher.resolve r.method r.target.path), s)
  | .resolved against (some m) =>
    let (a, x) := s.dispatcher.respond s.disk s.ambient m (r.read s.limit)
    (.finished against (some m) (.ofAnswer a), { s with dispatcher := x })
  | .resolved against none =>
    let labels := s.dispatcher.index.labels
    let x := { s.dispatcher with metrics := s.dispatcher.metrics.countUnmatched r.method }
    (.finished against none (.notFound r.method r.target.path labels), { s with dispatcher := x })
  | .finished against found response => (.finished against found response, s)

def advance (s : ServerRun) : ServerJob → ServerJob × ServerRun
  | .reload stage =>
    let (stage, s) := s.advanceReload stage
    (.reload stage, s)
  | .request r stage =>
    let (stage, s) := s.advanceRequest r stage
    (.request r stage, s)

def step (s : ServerRun) : ServerMove → ServerRun
  | .change d => { s with disk := d }
  | .startReload => { s with jobs := s.jobs ++ [.reload .begun] }
  | .startRequest r => { s with jobs := s.jobs ++ [.request r .begun] }
  | .advance i =>
    match s.jobs[i]? with
    | none => s
    | some j =>
      let (j, s) := s.advance j
      { s with jobs := s.jobs.set i j }

def run (s : ServerRun) (moves : List ServerMove) : ServerRun := moves.foldl step s

theorem run_nil (s : ServerRun) : s.run [] = s := rfl

theorem run_cons (s : ServerRun) (m : ServerMove) (moves : List ServerMove) :
    s.run (m :: moves) = (s.step m).run moves := rfl

theorem run_append (s : ServerRun) (a b : List ServerMove) : s.run (a ++ b) = (s.run a).run b :=
  List.foldl_append

/-! ## Nothing in between -/

theorem reload_alone (s : ServerRun) {index : RouteIndex}
    (h : s.dispatcher.build s.disk = .ok index) :
    ((s.advanceReload .begun).2.advanceReload (.built ⟨index, s.readings⟩)).2.advanceReload
        (.published ⟨index, s.readings⟩) =
      (.finished s.readings (.ok index),
        { s with
          dispatcher := (s.dispatcher.reload s.disk).2
          inUse := s.readings
          readings := s.readings + 1 }) := by
  simp [advanceReload, Dispatcher.reload, Dispatcher.publish, Dispatcher.clearCache, h]

theorem request_alone (s : ServerRun) (r : HttpRequest) :
    let s' := (s.advanceRequest r .begun).2
    let found := s.dispatcher.resolve r.method r.target.path
    s'.advanceRequest r (.resolved s.current found) =
      (.finished s.current found (Host.serve s.limit s.dispatcher s.disk s.ambient r).1,
        { s with dispatcher := (Host.serve s.limit s.dispatcher s.disk s.ambient r).2 }) := by
  cases h : s.dispatcher.resolve r.method r.target.path <;>
    simp [advanceRequest, Host.serve, Dispatcher.dispatch, h]

end ServerRun

end CannedApi
