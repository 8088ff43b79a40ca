import CannedApi.Disk.Change
import CannedApi.Server.Dispatcher

/-!
# Runs of a dispatcher

What is done to a dispatcher one thing after the other: files change, requests come in, routes are
reloaded.  A run gives the replies in their order.
-/

namespace CannedApi

/-- A dispatcher with the disk that it answers from. -/
structure Site where
  disk : Disk
  dispatcher : Dispatcher

inductive Action where
  /-- a change of the disk; one that fails leaves it as it is -/
  | change (c : Change)
  /-- a request that has been read -/
  | handle (a : Template.Ambient) (r : Request)
  /-- a request as it comes in, of whose body a number of bytes is read -/
  | dispatch (a : Template.Ambient) (limit : Nat) (r : HttpRequest)
  | reload

inductive Reply where
  | none
  | answer (result : Option Answer)
  | index (result : Except ScanError RouteIndex)

namespace Site

/-- the dispatcher that settings give on a disk -/
def start (s : Settings) (d : Disk) : Except ScanError Site := (Dispatcher.new s d).map fun x => ⟨d, x⟩

def step (s : Site) : Action → Reply × Site
  | .change c =>
    match s.disk.apply c with
    | .ok d => (.none, { s with disk := d })
    | .error _ => (.none, s)
  | .handle a r =>
    let (result, x) := s.dispatcher.handle s.disk a r
    (.answer result, { s with dispatcher := x })
  | .dispatch a limit r =>
    let (result, x) := s.dispatcher.dispatch s.disk a limit r
    (.answer result, { s with dispatcher := x })
  | .reload =>
    let (result, x) := s.dispatcher.reload s.disk
    (.index result, { s with dispatcher := x })

def run (s : Site) : List Action → List Reply × Site
  | [] => ([], s)
  | a :: rest =>
    let (reply, s) := s.step a
    let (replies, s) := run s rest
    (reply :: replies, s)

theorem run_cons (s : Site) (a : Action) (rest : List Action) :
    s.run (a :: rest) = ((s.step a).1 :: ((s.step a).2.run rest).1, ((s.step a).2.run rest).2) := rfl

theorem run_append (s : Site) (a b : List Action) :
    s.run (a ++ b) = ((s.run a).1 ++ ((s.run a).2.run b).1, ((s.run a).2.run b).2) := by
  induction a generalizing s with
  | nil => rfl
  | cons x rest ih =>
    show s.run (x :: (rest ++ b)) = _
    rw [run_cons, run_cons, ih]
    rfl

end Site

end CannedApi
