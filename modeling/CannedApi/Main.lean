import CannedApi.Program
import Std.Async.DNS
import Std.Async.Signal
import Std.Async.Timer
import Std.Http.Server

/-!
# Running the program

The layer between the library and the machine.  It takes what is in files and on the network as values
of the library, asks the library, and sends out what it says.
-/

namespace CannedApi.Main

open Std.Async

/-! ## The disk of the machine -/

/-- what stands at a path, links followed -/
def entryAt (path : String) : IO (Option Entry) := do
  let here := (← IO.currentDir) / path
  match ← here.metadata.toBaseIO with
  | .error _ => return none
  | .ok info =>
    match info.type with
    | .file =>
      match ← (IO.FS.readBinFile here).toBaseIO with
      | .ok content => return some (.file .file content.toList)
      | .error _ => return some (.file ⟨false, true, false⟩ [])
    | .dir =>
      match ← here.readDir.toBaseIO with
      | .ok _ => return some (.directory .directory)
      | .error _ => return some (.directory ⟨false, true, true⟩)
    | _ => return none

/-- puts on the disk what stands at a path, with all below it -/
partial def addTree (d : Disk) (place : RealPath) (path : String) : IO Disk := do
  match ← entryAt path with
  | none => return d
  | some e =>
    let d := if place = [] then d else d.put place e
    if e = .directory .directory then
      let found ← ((← IO.currentDir) / path).readDir
      found.foldlM (fun d (item : IO.FS.DirEntry) =>
        match PathStep.ofPiece (Utf8.toBytes item.fileName) with
        | .name n => addTree d (place ++ [n]) s!"{path}/{item.fileName}"
        | _ => return d) d
    else return d

/-- the real path of a path on a disk whose working directory is the top -/
def placeOf (p : Path) : RealPath :=
  p.steps.foldl (fun place step =>
    match step with
    | .name n => place ++ [n]
    | .up => place.dropLast
    | _ => place) []

/-- A disk with all that stands on the machine at a path, on the way to it, and below it. -/
def diskAt (p : Path) : IO Disk := do
  let way ← p.stages.dropLast.foldlM (fun d stage => do
    match placeOf stage, ← entryAt stage.display with
    | [], _ => return d
    | place, some e => return d.put place e
    | _, none => return d) Disk.empty
  addTree way (placeOf p) p.display

/-! ## Time and chance -/

def now : IO Instant := do
  let nanos := (← Std.Time.Timestamp.now).toNanosecondsSinceUnixEpoch.val
  return ⟨nanos / 1000000000, (nanos % 1000000000).toNat⟩

def surroundings : IO Template.Ambient := do
  let bytes ← IO.getRandomBytes 8
  return .ofSeed (← now) (bytes.foldl (fun w b => w * 256 + b.toUInt64) 0)

/-! ## Requests -/

/-- answers from the file of the route, read now -/
def answerRequest (s : Settings) (state : Std.Mutex Dispatcher) (r : HttpRequest) : IO Response := do
  let a ← surroundings
  state.atomically do
    let x ← get
    let d ← match x.resolve r.method r.target.path with
      | some m => diskAt m.route.file
      | none => pure Disk.empty
    let (response, x) := Host.router s x d a r
    set x
    return response

/-- The bytes of a body.  Where one is left out, as in the response to `HEAD`, there are as many as it
would have; these count but are not sent. -/
def content (r : Response) : ByteArray :=
  match (Entries.get? r.headers "content-length").bind fun n => Text.readDecimal n.toList with
  | some n => if r.body = "" then ⟨Array.replicate n 0⟩ else r.body.toUTF8
  | none => r.body.toUTF8

/-- a response as it is sent -/
def send (r : Response) : Async (Std.Http.Response Std.Http.Body.Full) := do
  let status := (Std.Http.Status.ofCode none r.status.toUInt16).getD .ok
  let headers := r.headers.foldl (fun hs h => (hs.insert? h.1 h.2).getD hs) Std.Http.Headers.empty
  ((Std.Http.Response.new.status status).headers headers).fromBytes (content r)

def serveRequest (s : Settings) (state : Std.Mutex Dispatcher)
    (r : Std.Http.Request Std.Http.Body.Stream) :
    ContextAsync (Std.Http.Response Std.Http.Body.Any) := do
  let content : ByteArray ← r.body.readAll
  let headers := r.line.headers.toList.map fun h =>
    Header.mk (toString h.1) (Utf8.toBytes (toString h.2))
  match HttpRequest.make? (toString r.line.method) (toString r.line.uri) headers content.toList with
  | none => return ← send ⟨400, [], "", 0⟩
  | some request =>
    let response ← answerRequest s state request
    if 0 < response.delay then Std.Async.sleep (.ofNat response.delay)
    return ← send response

/-- the counters as text -/
def serveCounters (state : Std.Mutex Dispatcher) (_ : Std.Http.Request Std.Http.Body.Stream) :
    ContextAsync (Std.Http.Response Std.Http.Body.Any) := do
  let x ← state.atomically get
  return ← send (.plainText (String.join (x.metrics.lines.map (· ++ "\n"))))

/-! ## Addresses -/

def listenAt (address : Std.Net.SocketAddress)
    (f : Std.Http.Request Std.Http.Body.Stream →
      ContextAsync (Std.Http.Response Std.Http.Body.Any)) :
    IO Std.Http.Server :=
  (Std.Http.Server.serve address (Std.Http.Server.Handler.ofFn f) { serverName := none }).block

/-- the address of a host by name or number -/
def addressOf (host : String) (port : UInt16) : IO Std.Net.SocketAddress := do
  match (← (DNS.getAddrInfo host "").block).toList with
  | .v4 a :: _ => return .v4 ⟨a, port⟩
  | .v6 a :: _ => return .v6 ⟨a, port⟩
  | [] => throw (.userError s!"no address for {host}")

def metricsAddress? : SocketAddress → Option Std.Net.SocketAddress
  | .v4 [a, b, c, d] port =>
    some (.v4 ⟨.ofParts a.toUInt8 b.toUInt8 c.toUInt8 d.toUInt8, port.toUInt16⟩)
  | .v6 [a, b, c, d, e, f, g, h] _ port =>
    some (.v6 ⟨.ofParts a.toUInt16 b.toUInt16 c.toUInt16 d.toUInt16 e.toUInt16 f.toUInt16 g.toUInt16
      h.toUInt16, port.toUInt16⟩)
  | _ => none

/-- counters are served if that is asked for; a failure there does not keep the server from starting -/
def listenForCounters (s : Settings) (state : Std.Mutex Dispatcher) : IO Unit := do
  match (s.observability.metricsAddress.bind SocketAddress.parse?).bind metricsAddress? with
  | none => return
  | some address =>
    match ← (listenAt address (serveCounters state)).toBaseIO with
    | .ok _ => return
    | .error e => IO.eprintln s!"Failed to start metrics exporter: {e}"

/-! ## The run -/

/-- milliseconds between two looks at the directory -/
def pause : Std.Time.Millisecond.Offset := 500

/-- Waits for a signal to stop, and meanwhile reloads when the directory has changed. -/
partial def stayUntilStopped (s : Settings) (state : Std.Mutex Dispatcher)
    (signals : List Signal.Waiter) (seen : Disk) : Async Unit := do
  let stops := signals.map fun w => Selectable.case w.selector fun _ => return true
  let tick := Selectable.case (← Selector.sleep pause) fun _ => return false
  if ← Selectable.one (stops ++ [tick]).toArray then return
  if s.watch then
    let d ← diskAt s.mockDir
    if d.entries ≠ seen.entries then state.atomically (modify fun x => (x.reload d).2)
    stayUntilStopped s state signals d
  else stayUntilStopped s state signals seen

/-- Serves until a signal to stop arrives. -/
def serve (s : Settings) : IO UInt32 := do
  let d ← diskAt s.mockDir
  match Session.start s d false with
  | .error e =>
    IO.eprintln e.message
    return 1
  | .ok session =>
    let state ← Std.Mutex.new session.dispatcher
    let attempt : IO Std.Http.Server := do
      listenAt (← addressOf s.host s.port.toUInt16) (serveRequest s state)
    match ← attempt.toBaseIO with
    | .error e =>
      IO.eprintln s!"failed to bind {s.bindAddress}: {e}"
      return 1
    | .ok server =>
      listenForCounters s state
      IO.println s!"Mock server running at http://{s.bindAddress}{session.dispatcher.base}"
      (← IO.getStdout).flush
      let signals ← [Signal.sigint, Signal.sigterm].mapM fun kind => do
        let w ← Signal.Waiter.mk kind false
        discard w.wait
        return w
      (stayUntilStopped s state signals d).block
      server.shutdownAndWait.block
      return 0

end CannedApi.Main

open CannedApi in
def main (args : List String) : IO UInt32 := do
  let d ← match Flags.parse args with
    | .ok { config := some p, .. } => Main.diskAt p
    | _ => pure Disk.empty
  match Program.configure args d with
  | .ok s => Main.serve s
  | .error r =>
    match r with
    | .commandLine .help => IO.println Flags.usage
    | .commandLine .misuse => IO.eprintln Flags.usage
    | _ => r.lines.forM IO.eprintln
    return r.exitCode.toUInt32
