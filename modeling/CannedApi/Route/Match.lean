import CannedApi.Entries
import CannedApi.Route.Index
import CannedApi.Text.Percent

/-!
# Which route answers

A request path is cut at slashes before anything else; a literal must equal its segment as it stands,
and the segment of a parameter is bound with its percent escapes undone.  The first route of the index
with the method and a fitting pattern answers.
-/

namespace CannedApi

abbrev Params := Entries String String

/-- the segments of a path, one slash in front not counted -/
def splitPath (path : String) : List String :=
  let cs := path.toList
  let cs := if cs.head? = some '/' then cs.drop 1 else cs
  if cs = [] then [] else (Text.pieces '/' cs).map String.ofList

/-- a segment with its escapes undone, or as it stands if that is no text -/
def decodeSegment (s : String) : String := (Percent.text? s).getD s

namespace Pattern

/-- the parameters bound on top of `acc`, if every segment fits -/
def bind : Pattern → List String → Params → Option Params
  | [], [], acc => some acc
  | .literal t :: p, s :: ss, acc => if t = s then bind p ss acc else none
  | .param n :: p, s :: ss, acc => if s = "" then none else bind p ss (acc.put n (decodeSegment s))
  | _, _, _ => none

end Pattern

/-- The parameters that the route binds, if it fits the method and the segments. -/
def Route.matchSegments (r : Route) (m : Method) (segments : List String) : Option Params :=
  if r.method = m then Pattern.bind r.pattern segments [] else none

structure RouteMatch where
  route : Route
  params : Params
  deriving DecidableEq, Repr

/-- the first route that fits -/
def Route.firstMatch (routes : List Route) (m : Method) (segments : List String) :
    Option RouteMatch :=
  routes.findSome? fun r => (r.matchSegments m segments).map fun ps => ⟨r, ps⟩

namespace RouteIndex

/-- The route that answers a request; a token that names no method finds none. -/
def matchRequest (index : RouteIndex) (token path : String) : Option RouteMatch :=
  match Method.ofToken? token with
  | some m => Route.firstMatch index.routes m (splitPath path)
  | none => none

end RouteIndex

end CannedApi
