/-!
# Failures reported by the operating system

An i/o failure has a kind and, when it carries one, a text of its own; without one the kind's text
stands for it. `SystemError` lists the socket errors with their number and wording.
-/

set_option autoImplicit false

namespace PooledHttp

/-- The kinds of i/o failure. -/
inductive IoKind where
  | timedOut
  | interrupted
  | wouldBlock
  | connectionReset
  | connectionRefused
  | connectionAborted
  | notConnected
  | brokenPipe
  | unexpectedEof
  | invalidData
  | invalidInput
  | notFound
  | permissionDenied
  | addressInUse
  | addressNotAvailable
  | alreadyExists
  | writeZero
  | unsupported
  | outOfMemory
  | hostUnreachable
  | networkUnreachable
  | networkDown
  | other
  deriving DecidableEq, Repr

/-- The text of a failure that has no text of its own. -/
def IoKind.message : IoKind → String
  | .timedOut => "timed out"
  | .interrupted => "operation interrupted"
  | .wouldBlock => "operation would block"
  | .connectionReset => "connection reset"
  | .connectionRefused => "connection refused"
  | .connectionAborted => "connection aborted"
  | .notConnected => "not connected"
  | .brokenPipe => "broken pipe"
  | .unexpectedEof => "unexpected end of file"
  | .invalidData => "invalid data"
  | .invalidInput => "invalid input parameter"
  | .notFound => "entity not found"
  | .permissionDenied => "permission denied"
  | .addressInUse => "address in use"
  | .addressNotAvailable => "address not available"
  | .alreadyExists => "entity already exists"
  | .writeZero => "write zero"
  | .unsupported => "unsupported"
  | .outOfMemory => "out of memory"
  | .hostUnreachable => "host unreachable"
  | .networkUnreachable => "network unreachable"
  | .networkDown => "network down"
  | .other => "other error"

/-- An i/o failure. -/
structure IoError where
  kind : IoKind
  detail : Option String
  deriving DecidableEq, Repr

/-- The text of an i/o failure. -/
def IoError.message (e : IoError) : String := e.detail.getD e.kind.message

/-- The socket errors of the operating system. -/
inductive SystemError where
  | interrupted
  | inputOutput
  | accessDenied
  | invalidArgument
  | brokenPipe
  | addressInUse
  | addressNotAvailable
  | networkDown
  | networkUnreachable
  | connectionAborted
  | connectionReset
  | notConnected
  | timedOut
  | connectionRefused
  | hostUnreachable
  deriving DecidableEq, Repr

namespace SystemError

/-- The error's number. -/
def code : SystemError → Nat
  | interrupted => 4
  | inputOutput => 5
  | accessDenied => 13
  | invalidArgument => 22
  | brokenPipe => 32
  | addressInUse => 98
  | addressNotAvailable => 99
  | networkDown => 100
  | networkUnreachable => 101
  | connectionAborted => 103
  | connectionReset => 104
  | notConnected => 107
  | timedOut => 110
  | connectionRefused => 111
  | hostUnreachable => 113

/-- The error's wording. -/
def wording : SystemError → String
  | interrupted => "Interrupted system call"
  | inputOutput => "Input/output error"
  | accessDenied => "Permission denied"
  | invalidArgument => "Invalid argument"
  | brokenPipe => "Broken pipe"
  | addressInUse => "Address already in use"
  | addressNotAvailable => "Cannot assign requested address"
  | networkDown => "Network is down"
  | networkUnreachable => "Network is unreachable"
  | connectionAborted => "Software caused connection abort"
  | connectionReset => "Connection reset by peer"
  | notConnected => "Transport endpoint is not connected"
  | timedOut => "Connection timed out"
  | connectionRefused => "Connection refused"
  | hostUnreachable => "No route to host"

/-- The kind of i/o failure that the error is. -/
def kind : SystemError → IoKind
  | interrupted => .interrupted
  | inputOutput => .other
  | accessDenied => .permissionDenied
  | invalidArgument => .invalidInput
  | brokenPipe => .brokenPipe
  | addressInUse => .addressInUse
  | addressNotAvailable => .addressNotAvailable
  | networkDown => .networkDown
  | networkUnreachable => .networkUnreachable
  | connectionAborted => .connectionAborted
  | connectionReset => .connectionReset
  | notConnected => .notConnected
  | timedOut => .timedOut
  | connectionRefused => .connectionRefused
  | hostUnreachable => .hostUnreachable

/-- Wording and number, as they appear in messages. -/
def message (e : SystemError) : String := s!"{e.wording} (os error {e.code})"

/-- The i/o failure that the error is raised as. -/
def toIoError (e : SystemError) : IoError := ⟨e.kind, some e.message⟩

end SystemError
end PooledHttp
