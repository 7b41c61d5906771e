import PooledHttp.Header
import PooledHttp.Uri.Basic

/-!
# Requests and responses

A request as a caller gives it names an absolute URI; a wire request names the target on the
connection it is sent on. A response is a head, with status and header, and a body.
-/

set_option autoImplicit false

namespace PooledHttp

/-- A request method: a token, whose letter case matters. -/
structure Method where
  name : Text
  deriving DecidableEq, Repr

namespace Method

/-- The method with a given name. -/
def ofName? (t : Text) : Option Method :=
  if !t.isEmpty && t.all isTokenChar then some ⟨t⟩ else none

/-- Read a resource. -/
def get : Method := ⟨"GET".toList⟩

/-- Read a resource's head. -/
def head : Method := ⟨"HEAD".toList⟩

/-- Remove a resource. -/
def delete : Method := ⟨"DELETE".toList⟩

/-- Write a resource. -/
def put : Method := ⟨"PUT".toList⟩

/-- Hand data to a resource. -/
def post : Method := ⟨"POST".toList⟩

/-- Change a resource. -/
def patch : Method := ⟨"PATCH".toList⟩

/-- Ask for a tunnel. -/
def connect : Method := ⟨"CONNECT".toList⟩

/-- The methods whose requests always count as enclosing a body. -/
def enclosesBody (m : Method) : Bool := m == post || m == put || m == patch

end Method

/-- The protocol versions a request can ask for. -/
inductive Version where
  | http10
  | http11
  | http2
  deriving DecidableEq, Repr

/-- The version as it is written on a connection, where version 2 goes out as 1.1. -/
def Version.onWire : Version → Text
  | .http10 => "HTTP/1.0".toList
  | .http11 | .http2 => "HTTP/1.1".toList

/-- A request as a caller gives it. -/
structure Request where
  method : Method
  uri : Uri
  version : Version
  header : Header
  body : Bytes
  deriving DecidableEq, Repr

/-- Whether a request may be repeated after any i/o failure: it has no body and its method does not
call for one. -/
def Request.isIdempotent (r : Request) : Bool := !r.method.enclosesBody && r.body.isEmpty

/-- A request as it is sent. -/
structure WireRequest where
  method : Method
  target : Text
  version : Version
  header : Header
  body : Bytes
  deriving DecidableEq, Repr

/-- The request line. -/
def WireRequest.line (r : WireRequest) : Text :=
  r.method.name ++ ' ' :: r.target ++ ' ' :: r.version.onWire

/-- The head of a response. -/
structure ResponseHead where
  status : Nat
  header : Header
  deriving DecidableEq, Repr

/-- Whether a header asks for the connection to be closed: an element of a `Connection` line is
`close`, in any letter case. -/
def Header.wantsClose (h : Header) : Bool :=
  (h.elements "connection".toList).any fun e => Text.sameLetters (Text.trim e) "close".toList

/-- Whether the server asks for the connection to be closed. -/
def ResponseHead.wantsClose (h : ResponseHead) : Bool := h.header.wantsClose

/-- A whole response. -/
structure Response where
  head : ResponseHead
  body : Bytes
  deriving DecidableEq, Repr

end PooledHttp
