import PooledHttp.Error.Client
import PooledHttp.Uri.Parser

/-!
# Routes

A route is a destination: scheme, host and port. Requests to the same route share connections, so
the host is kept in lower case and an absent port is the scheme's own. A route is printed in two
forms: in full for messages, and as the authority that the `Host` header carries.
-/

set_option autoImplicit false

namespace PooledHttp

/-- The schemes that can be routed. -/
inductive Scheme where
  | http
  | https
  deriving DecidableEq, Repr, Hashable

namespace Scheme

/-- The port of a URL that names none. -/
def defaultPort : Scheme → UInt16
  | http => 80
  | https => 443

/-- The scheme as it is written. -/
def name : Scheme → Text
  | http => "http".toList
  | https => "https".toList

/-- The scheme with a given name, in any letter case. -/
def ofName? (t : Text) : Option Scheme :=
  if Text.sameLetters t http.name then some http
  else if Text.sameLetters t https.name then some https
  else none

end Scheme

/-- A destination. -/
structure Route where
  scheme : Scheme
  host : Text
  port : UInt16
  deriving DecidableEq, Repr

namespace Route

/-- Routes are hashed by their fields, as keys of the pool. -/
instance : Hashable Route where
  hash r := mixHash (hash r.scheme) (mixHash (hash (String.ofList r.host)) (hash r.port))

/-- A route to a host whose letters may be of any case. -/
def new (scheme : Scheme) (host : Text) (port : UInt16) : Route := ⟨scheme, Text.lower host, port⟩

/-- Whether connections of the route are secured. -/
def isSecure (r : Route) : Bool := r.scheme == .https

/-- The host, in brackets when it holds a colon. -/
def bracketedHost (r : Route) : Text := if ':' ∈ r.host then '[' :: r.host ++ [']'] else r.host

/-- The value of the `Host` header: the port is left out when it is the scheme's own. -/
def authority (r : Route) : Text :=
  if r.port = r.scheme.defaultPort then r.bracketedHost
  else r.bracketedHost ++ ':' :: Decimal.write r.port.toNat

/-- The printed form, always with the port. -/
def display (r : Route) : Text :=
  r.scheme.name ++ "://".toList ++ r.bracketedHost ++ ':' :: Decimal.write r.port.toNat

/-- The printed form as a string, for messages. -/
def name (r : Route) : String := String.ofList r.display

/-- A host without the brackets around an IP literal. -/
def stripBrackets (host : Text) : Text :=
  ((host.dropWhile (· == '[')).reverse.dropWhile (· == ']')).reverse

/-- The destination of a URL. It has to have one of the two schemes and a host. -/
def ofUri (uri : Uri) : Except ClientError Route :=
  match uri.scheme with
  | none => .error (.invalidRequest s!"No scheme in URL: {String.ofList uri.display}")
  | some written =>
    match Scheme.ofName? written with
    | none => .error (.invalidRequest s!"Unsupported scheme: {String.ofList written}")
    | some scheme =>
      match uri.authority.map Authority.host with
      | none | some [] => .error (.invalidRequest s!"No host in URL: {String.ofList uri.display}")
      | some host =>
        let port := match uri.authority.bind Authority.port? with
          | some n => UInt16.ofNat n
          | none => scheme.defaultPort
        .ok (new scheme (stripBrackets host) port)

end Route
end PooledHttp
