import CannedApi.Server.Dispatcher
import CannedApi.Server.Watch

/-!
# Following changes

A server that follows changes starts by reading the directory, and then watches it.  From then on it is
told of every change by a notice, sooner or later, and a task takes the notices: it waits for one, takes
out those that came with it, and reloads when there are no more.  A run is a list of moves in any order,
and a move that is not possible changes nothing.
-/

namespace CannedApi

/-- What the task that takes the notices is doing. -/
inductive FollowStage where
  /-- for a notice -/
  | waiting
  /-- taking out the notices that are there -/
  | draining
  /-- a reload has been decided on -/
  | due
  /-- the directory has been read -/
  | reloading (result : Except ScanError RouteIndex)
  | stopped

structure Following where
  disk : Disk
  dispatcher : Dispatcher
  /-- whether changes are to be followed -/
  watch : Bool
  /-- what the task is doing, once the directory is watched -/
  stage : Option FollowStage
  /-- how many changes there are that no notice has been sent of -/
  untold : Nat
  /-- how many notices have not been taken -/
  notices : Nat

inductive FollowMove where
  /-- files change in any way, which may also be none -/
  | change (d : Disk)
  | startWatching
  /-- a notice is sent, of as many of the changes so far as the watcher has come to; there may be none -/
  | notify (told : Nat)
  /-- a notice ends the waiting -/
  | receive
  /-- a notice is taken out -/
  | drain
  /-- there are no more notices -/
  | findNone
  | readDirectory
  | finishReload
  | stop

namespace Following

/-- a server that has read the directory and does not watch it yet -/
def start (s : Settings) (d : Disk) : Except ScanError Following :=
  (Dispatcher.new s d).map fun x => ⟨d, x, s.watch, none, 0, 0⟩

/-- changes are noticed -/
def isWatching (s : Following) : Bool :=
  match s.stage with
  | none => false
  | some .stopped => false
  | some _ => true

def step (s : Following) : FollowMove → Following
  | .change d => { s with disk := d, untold := if s.isWatching then s.untold + 1 else s.untold }
  | .startWatching =>
    match s.stage, s.watch, Watcher.start s.disk s.dispatcher.mockDir with
    | none, true, .ok _ => { s with stage := some .waiting }
    | _, _, _ => s
  | .notify told =>
    if s.isWatching then { s with untold := s.untold - told, notices := s.notices + 1 } else s
  | .receive =>
    match s.stage, s.notices with
    | some .waiting, n + 1 => { s with stage := some .draining, notices := n }
    | _, _ => s
  | .drain =>
    match s.stage, s.notices with
    | some .draining, n + 1 => { s with notices := n }
    | _, _ => s
  | .findNone =>
    match s.stage, s.notices with
    | some .draining, 0 => { s with stage := some .due }
    | _, _ => s
  | .readDirectory =>
    match s.stage with
    | some .due => { s with stage := some (.reloading (s.dispatcher.build s.disk)) }
    | _ => s
  | .finishReload =>
    match s.stage with
    | some (.reloading (.ok index)) =>
      { s with
        stage := some .waiting
        dispatcher := (s.dispatcher.publish index).clearCache.countReload (some index.size) }
    | some (.reloading (.error _)) =>
      { s with stage := some .waiting, dispatcher := s.dispatcher.countReload none }
    | _ => s
  | .stop =>
    match s.stage with
    | some .waiting => { s with stage := some .stopped }
    | _ => s

def run (s : Following) (moves : List FollowMove) : Following := moves.foldl step s

theorem run_nil (s : Following) : s.run [] = s := rfl

theorem run_append (s : Following) (a b : List FollowMove) : s.run (a ++ b) = (s.run a).run b :=
  List.foldl_append

end Following

end CannedApi
