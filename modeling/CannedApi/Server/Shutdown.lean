/-!
# Stopping a server

The signal to stop is given on a channel, once or more often.  A listener has a place on the channel, which
is behind all signals given before; so a signal reaches whoever listens when it is given, and who starts to
listen later does not get it.  A server that is started first listens for the task that follows changes, if
there is one, then for itself, and then serves until a signal has come.  A run is a list of moves in any
order, and a move that is not possible changes nothing.
-/

namespace CannedApi

structure Listener where
  /-- how many signals are behind it -/
  place : Nat
  /-- a signal has come and been taken, after which it listens no more -/
  received : Bool
  deriving DecidableEq, Repr

namespace Listener

/-- a listener that starts when this many signals have been given -/
def starting (signals : Nat) : Listener := ⟨signals, false⟩

/-- a signal has come and is not taken yet -/
def isPending (signals : Nat) (l : Listener) : Bool := !l.received && decide (l.place < signals)

/-- The channel keeps the last signal only; to find that one has been missed ends the listening too. -/
def take (signals : Nat) (l : Listener) : Listener :=
  if l.isPending signals then ⟨signals, true⟩ else l

end Listener

inductive StartStage where
  | begun
  /-- the task that follows changes listens, if there is one -/
  | following
  /-- the server listens, too -/
  | listening
  | serving
  | stopped
  /-- the start has been given up -/
  | failed
  deriving DecidableEq, Repr

structure Stopping where
  /-- whether changes are followed -/
  watch : Bool
  stage : StartStage
  /-- how many signals have been given -/
  signals : Nat
  /-- the task that follows changes -/
  task : Option Listener
  server : Option Listener
  deriving DecidableEq, Repr

inductive StopMove where
  /-- gives the signal -/
  | trigger
  /-- the next step of the start -/
  | advance
  /-- the start fails: the address is not known, or the directory cannot be watched -/
  | fail
  /-- the task that follows changes takes its signal -/
  | taskReceives
  /-- the server takes its signal and stops -/
  | serverReceives
  deriving DecidableEq, Repr

namespace Stopping

def start (watch : Bool) : Stopping := ⟨watch, .begun, 0, none, none⟩

def step (s : Stopping) : StopMove → Stopping
  | .trigger => { s with signals := s.signals + 1 }
  | .advance =>
    match s.stage with
    | .begun =>
      { s with stage := .following, task := if s.watch then some (.starting s.signals) else none }
    | .following => { s with stage := .listening, server := some (.starting s.signals) }
    | .listening => { s with stage := .serving }
    | _ => s
  | .fail =>
    match s.stage, s.watch with
    | .begun, _ | .following, true => { s with stage := .failed }
    | _, _ => s
  | .taskReceives => { s with task := s.task.map (.take s.signals) }
  | .serverReceives =>
    match s.stage, s.server with
    | .serving, some l =>
      if l.isPending s.signals then { s with stage := .stopped, server := some (l.take s.signals) } else s
    | _, _ => s

def run (s : Stopping) (moves : List StopMove) : Stopping := moves.foldl step s

theorem run_nil (s : Stopping) : s.run [] = s := rfl

theorem run_cons (s : Stopping) (m : StopMove) (moves : List StopMove) :
    s.run (m :: moves) = (s.step m).run moves := rfl

theorem run_append (s : Stopping) (a b : List StopMove) : s.run (a ++ b) = (s.run a).run b :=
  List.foldl_append

end Stopping

end CannedApi
