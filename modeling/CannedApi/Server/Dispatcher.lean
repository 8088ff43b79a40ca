import CannedApi.Config.Settings
import CannedApi.Mock.Cache
import CannedApi.Request.Basic
import CannedApi.Route.Match
import CannedApi.Route.Scan
import CannedApi.Server.Metrics
import CannedApi.Server.Response
import CannedApi.Template.Render
import CannedApi.Text.Quoted

/-!
# The dispatcher

The dispatcher holds the index in use, the remembered answers and the counters.  A request is resolved
against the index; the answer of its route is loaded, and its body filled in.  A reload builds a new
index from the disk and puts it in use; if that fails everything stays as it was.
-/

namespace CannedApi

structure Dispatcher where
  mockDir : Path
  /-- the path that all routes stand below, in normal form -/
  base : String
  index : RouteIndex
  cache : Cache
  metrics : Metrics

namespace Dispatcher

/-- A dispatcher for the answers that are on the disk now. -/
def new (s : Settings) (d : Disk) : Except ScanError Dispatcher :=
  (RouteIndex.build d s.mockDir s.normalBase).map fun index =>
    { mockDir := s.mockDir
      base := s.normalBase
      index := index
      cache := Cache.new s.cache
      metrics := Metrics.countReload {} (some index.size) }

/-! ## Reloading -/

/-- the index that the disk has now -/
def build (x : Dispatcher) (d : Disk) : Except ScanError RouteIndex :=
  RouteIndex.build d x.mockDir x.base

/-- puts an index in use -/
def publish (x : Dispatcher) (index : RouteIndex) : Dispatcher := { x with index := index }

/-- forgets the remembered answers -/
def clearCache (x : Dispatcher) : Dispatcher := { x with cache := x.cache.clear }

def countReload (x : Dispatcher) (routes : Option Nat) : Dispatcher :=
  { x with metrics := x.metrics.countReload routes }

/-- The dispatcher with the index that the disk has now, or unchanged if there is none. -/
def reload (x : Dispatcher) (d : Disk) : Except ScanError RouteIndex × Dispatcher :=
  match x.build d with
  | .ok index => (.ok index, ((x.publish index).clearCache).countReload (some index.size))
  | .error e => (.error e, x.countReload none)

/-! ## Answering -/

def resolve (x : Dispatcher) (method path : String) : Option RouteMatch :=
  x.index.matchRequest method path

/-- what a template of a matched request can refer to -/
def context (m : RouteMatch) (r : Request) : Template.Context := ⟨m.params, r.query, r.body⟩

/-- The longest delay, in milliseconds: thirty years of 365 days. -/
def delayLimit : Nat := 946080000000

/-- a loaded answer filled in, or the answer in place of one that cannot be loaded -/
def answer (a : Template.Ambient) (m : RouteMatch) (r : Request) :
    Except LoadError Reading → Answer
  | .error e => .loadFailure e
  | .ok reading =>
    let settings := reading.mock.settings
    ⟨settings.statusCode, Template.render a (context m r) reading.mock.body,
      min settings.delayMillis delayLimit⟩

/-- answers a request that has a route -/
def respond (x : Dispatcher) (d : Disk) (a : Template.Ambient) (m : RouteMatch) (r : Request) :
    Answer × Dispatcher :=
  let (loaded, cache) := x.cache.load d m.route.file
  let result := answer a m r loaded
  (result, { x with cache := cache, metrics := x.metrics.countAnswer r.method result.status })

/-- Answers a request that has been read, if it has a route. -/
def handle (x : Dispatcher) (d : Disk) (a : Template.Ambient) (r : Request) :
    Option Answer × Dispatcher :=
  match x.resolve r.method r.path with
  | none => (none, { x with metrics := x.metrics.countUnmatched r.method })
  | some m =>
    let (result, x) := x.respond d a m r
    (some result, x)

/-- Answers a request as it came in, if it has a route; only then its body is read. -/
def dispatch (x : Dispatcher) (d : Disk) (a : Template.Ambient) (limit : Nat) (r : HttpRequest) :
    Option Answer × Dispatcher :=
  match x.resolve r.method r.target.path with
  | none => (none, { x with metrics := x.metrics.countUnmatched r.method })
  | some m =>
    let (result, x) := x.respond d a m (r.read limit)
    (some result, x)

/-- the dispatcher in short, for people to read -/
def summary (x : Dispatcher) : String :=
  "RequestDispatcher \x7b mock_dir: " ++ Text.quote x.mockDir.display ++ ", prefix: " ++
    Text.quote x.base ++ ", routes: " ++ Text.decimalText x.index.size ++ ", cache: " ++
    (if x.cache.enabled then "true" else "false") ++ " \x7d"

end Dispatcher

end CannedApi
