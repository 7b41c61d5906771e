import PooledHttp.Config.Basic

/-!
# Failures of a request

What a client reports when a request comes to nothing: the last attempt's transport failure, a
request that cannot be sent at all, a pool that is shut down, or a configuration that is not usable.
-/

set_option autoImplicit false

namespace PooledHttp

/-- The failure of a request. -/
inductive ClientError where
  | transport (e : TransportError)
  | invalidRequest (reason : String)
  | poolClosed
  | config (e : ConfigError)
  deriving DecidableEq, Repr

namespace ClientError

/-- The whole message. A transport failure speaks for itself. -/
def message : ClientError → String
  | transport e => e.message
  | invalidRequest reason => s!"Invalid request: {reason}"
  | poolClosed => "Connection pool is shut down"
  | config e => s!"Invalid configuration: {e.message}"

/-- The text of the cause, when there is one. -/
def cause? : ClientError → Option String
  | transport e => e.cause
  | config e => some e.message
  | invalidRequest _ | poolClosed => none

/-- The kind of a transport failure. -/
def transportKind? : ClientError → Option TransportKind
  | transport e => some e.kind
  | _ => none

end ClientError
end PooledHttp
