import CannedApi.Server.Dispatcher

/-!
# Hosts

Two ways to put a dispatcher to work.  The standalone router answers everything: what has no route gets
a list of the routes.  The layer stands in front of another handler and hands it what has no route.
-/

namespace CannedApi

namespace Response

/-- what every response gets on its way out: the length of its body, and no body for `HEAD`; a
successful `CONNECT` has neither -/
def finish (method : String) (r : Response) : Response :=
  if method = "CONNECT" ∧ 200 ≤ r.status ∧ r.status < 300 then { r with body := "" }
  else
    { r with
      headers := r.headers ++ [("content-length", Text.decimalText (Utf8.toBytes r.body).length)]
      body := if method = "HEAD" then "" else r.body }

/-- the header that tells caches on which request headers a response depends -/
def varyHeader : String × String :=
  ("vary", "origin, access-control-request-method, access-control-request-headers")

/-- opens a response to pages of every origin -/
def openToAll (r : Response) : Response :=
  { r with
    headers := r.headers ++
      [("access-control-allow-origin", "*"), ("access-control-expose-headers", "*"), varyHeader] }

/-- the response to a question which requests are allowed: all of them -/
def allowAll : Response where
  status := 200
  headers :=
    [("access-control-allow-headers", "*"), ("access-control-allow-methods", "*"),
      ("access-control-allow-origin", "*"), ("content-length", "0"), varyHeader]
  body := ""

end Response

namespace Host

/-- The standalone router without cross-origin headers. -/
def serve (limit : Nat) (x : Dispatcher) (d : Disk) (a : Template.Ambient) (r : HttpRequest) :
    Response × Dispatcher :=
  match x.dispatch d a limit r with
  | (some result, x) => (.ofAnswer result, x)
  | (none, x) => (.notFound r.method r.target.path x.index.labels, x)

/-- The standalone router.  With cross-origin headers it answers every `OPTIONS` request itself. -/
def router (s : Settings) (x : Dispatcher) (d : Disk) (a : Template.Ambient) (r : HttpRequest) :
    Response × Dispatcher :=
  if s.cors then
    if r.method = "OPTIONS" then (.allowAll, x)
    else
      let (response, x) := serve s.maxBodySize x d a r
      ((response.finish r.method).openToAll, x)
  else
    let (response, x) := serve s.maxBodySize x d a r
    (response.finish r.method, x)

/-- The layer in front of `next`; one that is not enabled hands everything on. -/
def layer (s : Settings) (next : HttpRequest → Response) (x : Dispatcher) (d : Disk)
    (a : Template.Ambient) (r : HttpRequest) : Response × Dispatcher :=
  if s.enable then
    match x.dispatch d a s.maxBodySize r with
    | (some result, x) => ((Response.ofAnswer result).finish r.method, x)
    | (none, x) => ((next r).finish r.method, x)
  else ((next r).finish r.method, x)

end Host

end CannedApi
