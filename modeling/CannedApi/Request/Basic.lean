import CannedApi.Request.Body
import CannedApi.Request.Target

/-!
# Requests

A request as it comes in over HTTP, and the parts of it that a template may refer to.
-/

namespace CannedApi

structure Header where
  name : String
  value : List UInt8
  deriving DecidableEq, Repr

/-- A request as it comes in. -/
structure HttpRequest where
  method : String
  target : Target
  headers : List Header
  body : List UInt8

/-- A request with its query and body read. -/
structure Request where
  method : String
  path : String
  query : QueryParams
  body : Option Json

namespace HttpRequest

/-- A character of methods and header names. -/
def isTokenByte (b : UInt8) : Bool :=
  Target.isAlphanumeric b || Target.isOneOf "!#$%&'*+-.^_`|~" b

def isToken (s : String) : Bool := s != "" && (Utf8.toBytes s).all isTokenByte

/-- No control characters but tabs. -/
def isHeaderValue (v : List UInt8) : Bool := v.all fun b => b == 0x09 || (0x20 ≤ b && b != 0x7F)

/-- The request, if its method, its target and its headers are well-formed. -/
def make? (method uri : String) (headers : List Header) (body : List UInt8) : Option HttpRequest :=
  if isToken method && headers.all fun h => isToken h.name && isHeaderValue h.value then
    (Target.parse uri).map fun t => ⟨method, t, headers, body⟩
  else none

/-- the value of the first header with a name, in any letter case -/
def header? (r : HttpRequest) (name : String) : Option (List UInt8) :=
  (r.headers.find? fun h => h.name.toLower == name.toLower).map Header.value

def contentType? (r : HttpRequest) : Option (List UInt8) := r.header? "content-type"

/-- The request read, with at most `limit` bytes of its body. -/
def read (r : HttpRequest) (limit : Nat) : Request where
  method := r.method
  path := r.target.path
  query := QueryParams.ofRaw r.target.query
  body := Body.parseLimited limit r.contentType? r.body

end HttpRequest

end CannedApi
