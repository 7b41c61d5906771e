import PooledHttp.Client.Service

/-!
# What a simulation reports

Each step of a simulation answers with its direct result, the tasks that finished, the requests that
reached servers, and the figures of the pool.
-/

set_option autoImplicit false

namespace PooledHttp.Simulation

/-- Why a request or a lease cannot be tried, or how it failed. -/
inductive Refusal where
  | header (e : HeaderError)
  | method
  | uri (e : UriError)
  | client (e : ClientError)
  /-- The step itself is at fault: it names a scheme or a way of sending that does not exist, or a
  port that is none. -/
  | malformed (reason : String)
  deriving DecidableEq, Repr

/-- What became of the body of a response. -/
inductive BodyOutcome where
  | whole (bytes : Bytes)
  | broken (e : TransportError)
  | held
  | dropped
  deriving DecidableEq, Repr

/-- How a task ended. -/
inductive Outcome where
  | leased (route : Route) (reused : Bool) (useCount : Nat)
  | responded (head : ResponseHead) (body : BodyOutcome)
  | body (outcome : BodyOutcome)
  | failed (e : Refusal)
  deriving DecidableEq, Repr

/-- A task that has ended. -/
structure Done where
  name : String
  time : Millis
  outcome : Outcome
  deriving DecidableEq, Repr

/-- A request that has reached a server; `none` when the server did not read it. -/
structure Seen where
  server : Nat
  number : Nat
  request : Option WireRequest
  deriving DecidableEq, Repr

/-- The direct result of a step. -/
inductive Result where
  | nothing
  | noClient
  | noLease
  | noBody
  | noConnection
  | noPool
  | unknownStep (name : String)
  | refused (e : Refusal)
  | cancelled
  | finished
  | count (n : Nat)
  | flag (b : Bool)
  /-- Whether clients can still reach the pool. -/
  | clientPool (b : Bool)
  | stats (s : Option Pool.Stats)
  deriving DecidableEq, Repr

/-- The report of a step. -/
structure StepReport where
  time : Millis
  result : Result
  done : List Done
  seen : List Seen
  /-- The open channels of each server. -/
  channels : List Nat
  stats : Option Pool.Stats
  routes : Option (List (Text × Pool.Stats))

/-- The socket options set on a channel. -/
structure SocketOptions where
  noDelay : Option Bool
  keepAlive : Option Bool
  deriving DecidableEq, Repr

/-- The report of a simulation. -/
structure Report where
  steps : List StepReport
  /-- The tasks that have not ended. -/
  waiting : List String
  /-- The options of each channel of each server. -/
  options : List (List SocketOptions)

/-- Whether `a` comes before `b` or at the same place, as texts. -/
def nameLe (a b : String) : Bool := decide (a ≤ b)

/-- The same order of texts given as lists. -/
def textLe (a b : Text) : Bool := nameLe (String.ofList a) (String.ofList b)

/-- The lines of a header in the order of their names, without those that only frame the body. -/
def shownLines (h : Header) : List (Text × Text) :=
  (h.lines.filter fun line =>
    line.1 != "content-length".toList && line.1 != "transfer-encoding".toList).mergeSort
    fun a b => textLe a.1 b.1

end PooledHttp.Simulation
