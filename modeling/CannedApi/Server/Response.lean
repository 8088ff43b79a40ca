import CannedApi.Mock.Load
import CannedApi.Route.Index

/-!
# Responses

An answer is a status, a JSON body and a delay; a response is what goes out over HTTP.  Every body that
the server makes itself is JSON.
-/

namespace CannedApi

structure Answer where
  status : Nat
  body : Json
  /-- milliseconds to wait first -/
  delay : Nat := 0

structure Response where
  status : Nat
  headers : List (String × String)
  body : String
  delay : Nat := 0
  deriving DecidableEq, Repr

namespace Answer

/-- the answer in place of one that cannot be loaded -/
def loadFailure (e : LoadError) : Answer where
  status := 500
  body := .object [("error", .text "Failed to load mock data"), ("message", .text e.message)]

end Answer

namespace Response

def ofJson (status : Nat) (body : Json) (delay : Nat) : Response :=
  ⟨status, [("content-type", "application/json")], body.write, delay⟩

def ofAnswer (a : Answer) : Response := ofJson a.status a.body a.delay

/-- the response where no route answers: it lists the routes there are -/
def notFound (method path : String) (labels : List String) : Response :=
  ofJson 404
    (.object [("error", .text "Not Found"), ("message", .text s!"Route {method} {path} not found"),
      ("availableRoutes", Json.texts labels)])
    0

def plainText (body : String) : Response :=
  ⟨200, [("content-type", "text/plain; charset=utf-8")], body, 0⟩

end Response

end CannedApi
