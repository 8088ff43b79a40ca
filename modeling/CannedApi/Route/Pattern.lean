import CannedApi.Disk.Path
import CannedApi.Route.Method

/-!
# Patterns and routes

A pattern is a list of segments, each a literal or a parameter.  A route is a method, a pattern and
the file with the answer.
-/

namespace CannedApi

inductive Segment where
  /-- stands for exactly this text -/
  | literal (text : String)
  /-- stands for any text but the empty one, under a name -/
  | param (name : String)
  deriving DecidableEq, Repr, Inhabited

namespace Segment

def isParam : Segment → Bool
  | .literal _ => false
  | .param _ => true

/-- a parameter is shown with a colon before its name -/
def display : Segment → String
  | .literal t => t
  | .param n => ":" ++ n

end Segment

abbrev Pattern := List Segment

namespace Pattern

def hasParams (p : Pattern) : Bool := p.any Segment.isParam

/-- the names of the parameters, in the order of the segments -/
def paramNames (p : Pattern) : List String :=
  p.filterMap fun
    | .literal _ => none
    | .param n => some n

/-- each segment after a slash; without segments a slash alone -/
def display (p : Pattern) : String :=
  match p with
  | [] => "/"
  | p => String.join (p.map fun s => "/" ++ s.display)

end Pattern

structure Route where
  method : Method
  pattern : Pattern
  file : Path
  deriving DecidableEq, Repr

namespace Route

def hasParams (r : Route) : Bool := Pattern.hasParams r.pattern

def path (r : Route) : String := Pattern.display r.pattern

/-- the route as lists of routes show it -/
def label (r : Route) : String := s!"{r.method.name} {r.path}"

end Route

end CannedApi
