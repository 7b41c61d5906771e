import PooledHttp.Error.System

/-!
# Transport failures

A failed attempt has one of seven kinds, and the kind alone decides whether the attempt may be
repeated. `TransportError` joins the kind with the route it happened on, a text and, when there is
one, the text of the underlying failure. The last section classifies what can go wrong on an
established connection.
-/

set_option autoImplicit false

namespace PooledHttp

/-- What went wrong in an attempt, as far as a decision to repeat it needs to know. -/
inductive TransportKind where
  /-- The server closed the connection without an answer. -/
  | noResponse
  /-- The host name has no address. -/
  | unknownHost
  /-- Connecting took too long, or the wait for a place in the pool did. -/
  | connectTimeout
  /-- Reading took too long. -/
  | socketTimeout
  /-- The operation was interrupted. -/
  | interrupted
  /-- The connection could not be secured. -/
  | secureChannel
  /-- Any other i/o failure. -/
  | io
  deriving DecidableEq, Repr

namespace TransportKind

/-- All kinds, in the order in which they are declared. -/
def all : List TransportKind :=
  [noResponse, unknownHost, connectTimeout, socketTimeout, interrupted, secureChannel, io]

/-- Failures after which the request counts as not processed. -/
def isTransient (kind : TransportKind) : Bool := kind != .io

/-- The wording of each kind. -/
def message : TransportKind → String
  | noResponse => "no response"
  | unknownHost => "unknown host"
  | connectTimeout => "connect timeout"
  | socketTimeout => "socket timeout"
  | interrupted => "interrupted"
  | secureChannel => "secure channel failure"
  | io => "i/o error"

/-- The kind of an i/o failure on an established connection. -/
def ofIo : IoKind → TransportKind
  | .timedOut => .socketTimeout
  | .interrupted => .interrupted
  | _ => .io

end TransportKind

/-- A failed attempt: kind, route as printed, text, and the text of the cause when there is one. -/
structure TransportError where
  kind : TransportKind
  route : String
  text : String
  cause : Option String
  deriving DecidableEq, Repr

namespace TransportError

/-- A failure without a cause. -/
def new (kind : TransportKind) (route text : String) : TransportError := ⟨kind, route, text, none⟩

/-- The failure with `cause` attached in place of an earlier one. -/
def causedBy (e : TransportError) (cause : String) : TransportError := { e with cause := some cause }

/-- The whole message. -/
def message (e : TransportError) : String := s!"{e.kind.message} on {e.route}: {e.text}"

/-- An i/o failure on an established connection. -/
def ofIo (route : String) (e : IoError) : TransportError :=
  (new (.ofIo e.kind) route e.message).causedBy e.message

end TransportError

/-- What can be wrong with the head of a response. -/
inductive HeadFault where
  | version
  | status
  | header
  | tooLarge
  deriving DecidableEq, Repr

/-- The wording of each fault. -/
def HeadFault.message : HeadFault → String
  | version => "invalid HTTP version parsed"
  | status => "invalid HTTP status-code parsed"
  | header => "invalid HTTP header parsed"
  | tooLarge => "message head is too large"

/-- What can break an exchange on an established connection. -/
inductive ConnectionFault where
  /-- The connection ended before a whole response head. -/
  | incomplete
  /-- The exchange was given up before the request was sent. -/
  | canceled
  /-- The connection itself gave up waiting. -/
  | expired
  /-- The connection had ended before the request was sent. -/
  | closed
  /-- Reading from the connection failed. -/
  | broken (kind : IoKind)
  /-- The answer is not a response. -/
  | garbled (f : HeadFault)
  /-- Reading the body failed; an end of the connection inside the body is an unexpected end of file. -/
  | bodyBroken (kind : IoKind)
  deriving DecidableEq, Repr

namespace ConnectionFault

/-- The wording of each fault. -/
def message : ConnectionFault → String
  | incomplete => "connection closed before message completed"
  | canceled => "operation was canceled"
  | expired => "read header from client timeout"
  | closed => "channel closed"
  | broken _ => "connection error"
  | garbled f => f.message
  | bodyBroken _ => "error reading a body from connection"

/-- Whether the request has got no answer at all. -/
def isUnanswered : ConnectionFault → Bool
  | incomplete | canceled => true
  | expired | closed | broken _ | garbled _ | bodyBroken _ => false

/-- The kind of the i/o failure behind the fault, when there is one. -/
def ioKind? : ConnectionFault → Option IoKind
  | broken kind | bodyBroken kind => some kind
  | incomplete | canceled | expired | closed | garbled _ => none

/-- The kind of each fault: what is known of the exchange decides before the i/o failure behind it. -/
def kind (fault : ConnectionFault) : TransportKind :=
  if fault.isUnanswered then .noResponse
  else if fault = .expired then .socketTimeout
  else (fault.ioKind?.map .ofIo).getD .io

/-- The fault as a failure of the attempt on `route`. -/
def toError (fault : ConnectionFault) (route : String) : TransportError :=
  (TransportError.new fault.kind route fault.message).causedBy fault.message

end ConnectionFault
end PooledHttp
