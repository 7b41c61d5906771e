import PooledHttp.Error.Client
import PooledHttp.Message
import PooledHttp.Route

/-!
# Preparing a request for the wire

The target on the wire is the path and query of the request's URI. The caller's header lines go out
as they are, with two exceptions: `Host` is added when the caller gave none, and a request with a
body announces it by one `Expect` line, in place of the caller's own.
-/

set_option autoImplicit false

namespace PooledHttp

/-- The name of the `Host` line. -/
def hostName : Text := "host".toList

/-- The name of the `Expect` line. -/
def expectName : Text := "expect".toList

/-- The value that announces a body. -/
def continueValue : Text := "100-continue".toList

/-- The header with a `Host` line: the caller's if there are any, otherwise the route's authority. -/
def Header.withHost (h : Header) (route : Route) : Except ClientError Header :=
  if h.has hostName then .ok h
  else if Header.isValue route.authority then .ok (h.insert hostName route.authority)
  else .error (.invalidRequest HeaderError.badValue.message)

/-- The header with the announcement of a body, when there is one to announce. -/
def Header.withExpect (h : Header) (announce : Bool) : Header :=
  if announce then h.insert expectName continueValue else h

/-- The request as it goes out on a connection of the route. -/
def Request.prepare (r : Request) (expectContinue : Bool) (route : Route) :
    Except ClientError WireRequest :=
  match Uri.parse r.uri.target with
  | .error e => .error (.invalidRequest e.message)
  | .ok target =>
    match r.header.withHost route with
    | .error e => .error e
    | .ok h => .ok
      { method := r.method
        target := target.display
        version := r.version
        header := h.withExpect (expectContinue && !r.body.isEmpty)
        body := r.body }

end PooledHttp
