import CannedApi.Server.Host
import CannedApi.Server.Watch

/-!
# Starting a server

A server is started in three steps: the index is built, the address is taken, and, if changes are to be
followed, the directory is watched.
-/

namespace CannedApi

inductive StartError where
  | scan (e : ScanError)
  | addressInUse (address : String)
  | watch (e : OsError)
  deriving DecidableEq, Repr

def StartError.message : StartError → String
  | .scan e => s!"failed to build routes: {e.message}"
  | .addressInUse a => s!"failed to bind {a}: Address already in use (os error 98)"
  | .watch e => s!"failed to watch mock directory: {e.message}"

/-- A server that has been started. -/
structure Session where
  settings : Settings
  dispatcher : Dispatcher
  watcher : Option Watcher

namespace Session

/-- the index built and the address taken -/
def bind (s : Settings) (d : Disk) (addressTaken : Bool) : Except StartError Session :=
  match Dispatcher.new s d with
  | .error e => .error (.scan e)
  | .ok x => if addressTaken then .error (.addressInUse s.bindAddress) else .ok ⟨s, x, none⟩

/-- changes followed from now on, if they are to be -/
def watch (x : Session) (d : Disk) : Except StartError Session :=
  if x.settings.watch then
    match Watcher.start d x.dispatcher.mockDir with
    | .error e => .error (.watch e)
    | .ok w => .ok { x with watcher := some w }
  else .ok x

/-- A server started on what the disk holds. -/
def start (s : Settings) (d : Disk) (addressTaken : Bool) : Except StartError Session :=
  (bind s d addressTaken).bind fun x => x.watch d

end Session

end CannedApi
