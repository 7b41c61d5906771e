import PooledHttp.Client.Prepare
import PooledHttp.Client.Reading
import PooledHttp.KeepAlive
import PooledHttp.Pool.System
import PooledHttp.Retry

/-!
# Clients of a pool

The clients of a manager send requests over one pool. A call is one request with all its attempts:
it leases a connection, sends the request, reads the response, and then hands the connection back or
gives it up. After a failed attempt the retry policy decides whether another one follows.

`Service` is the pool together with all calls ever made. As in the pool, an event is one step of one
party, and an event that is not possible in a state leaves the state as it is. A connection that a
call uses goes back to the pool only when the whole response has been read and the server does not
ask for the connection to be closed; in all other cases it is given up.
-/

set_option autoImplicit false

namespace PooledHttp.Client

open Pool

/-- Calls are numbered in the order in which they are made. -/
abbrev CallId := Nat

/-- What all clients of a manager have in common. -/
structure Settings where
  request : RequestSettings
  retry : RetryPolicy
  keepAlive : KeepAlive
  deriving DecidableEq, Repr

/-- An attempt to get a response. -/
structure Attempt where
  route : Route
  /-- Attempts of a call are numbered from one. -/
  number : Nat
  /-- The lease that the attempt works with. -/
  lease : LeaseId
  deriving DecidableEq, Repr

/-- Where a call stands. -/
inductive Stage where
  | leasing (attempt : Attempt)
  | exchanging (attempt : Attempt) (reading : Reading)
  /-- The call is over after this number of attempts. -/
  | finished (attempts : Nat) (result : Except ClientError Response)
  | cancelled

/-- A request with all its attempts. -/
structure Call where
  request : Request
  stage : Stage

/-- Whether the call is still under way. -/
def Stage.inProgress : Stage → Bool
  | .leasing _ | .exchanging _ _ => true
  | .finished _ _ | .cancelled => false

/-- The attempt that is under way. -/
def Stage.attempt? : Stage → Option Attempt
  | .leasing a | .exchanging a _ => some a
  | .finished _ _ | .cancelled => none

/-- What the end of a lease means for the call that asked for it; a lease in progress has none. -/
def leaseOutcome? (route : Route) : Phase → Option (Except ClientError Unit)
  | .held _ => some (.ok ())
  | .ended .poolClosed => some (.error .poolClosed)
  | .ended .timedOut => some (.error (.transport
      (.new .connectTimeout route.name "timeout waiting for connection from pool")))
  | .ended (.refused e) => some (.error (.transport e))
  | _ => none

/-- What can happen. -/
inductive Event where
  /-- A request is given to a client. -/
  | submit (request : Request)
  /-- The lease of a call has come to an end, one way or the other. -/
  | proceed (call : CallId)
  /-- Something arrives on the connection of a call. -/
  | arrive (call : CallId) (arrival : Arrival)
  /-- Nothing has arrived in time. -/
  | overdue (call : CallId)
  /-- A call is given up. -/
  | cancel (call : CallId)
  /-- The owner of the pool goes away, and shuts the pool down if it is a manager. -/
  | abandon (shutdown : Bool)
  /-- Anything else that happens in the pool. -/
  | pool (e : Pool.Event)

/-- A pool with its clients' calls. -/
structure Service where
  settings : Settings
  /-- Whether the owner of the pool is still there. -/
  owned : Bool
  pool : System
  calls : List Call

namespace Service

/-- A pool that has not been used. -/
def init (settings : Settings) (pool : PoolSettings) : Service := ⟨settings, true, .init pool, []⟩

/-- Whether the pool still exists: its owner, a lease or a call keeps it. -/
def hasPool (s : Service) : Bool :=
  s.owned || (s.pool.leases.any fun lease => lease.phase.inProgress || lease.phase.conn?.isSome) ||
    s.calls.any fun call => call.stage.inProgress

/-- The time limit for each wait of an exchange: the request's, or else the connection's. -/
def readLimit (s : Service) : Option Millis :=
  s.settings.request.readTimeout.or s.pool.settings.socket.readTimeout

/-- Put a call into another stage. -/
def setStage (s : Service) (i : CallId) (stage : Stage) : Service :=
  { s with calls := s.calls.modify i fun call => { call with stage := stage } }

/-- An event in the pool. -/
def inPool (s : Service) (e : Pool.Event) : Service := { s with pool := s.pool.step e }

/-- Begin an attempt: the request is prepared, and a lease is asked for. A request that cannot be
prepared is over. -/
def begin (s : Service) (request : Request) (route : Route) (number : Nat) : Stage × Service :=
  match request.prepare s.settings.request.expectContinue route with
  | .error e => (.finished (number - 1) (.error e), s)
  | .ok _ =>
    (.leasing ⟨route, number, s.pool.leases.length⟩,
      s.inPool (.start route s.settings.request.leaseTimeout))

/-- The attempt under way has come to `outcome`. -/
def conclude (s : Service) (i : CallId) (request : Request) (a : Attempt)
    (outcome : Except ClientError Response) : Service :=
  match s.settings.retry.verdict request.isIdempotent a.number outcome with
  | some result => s.setStage i (.finished a.number result)
  | none =>
    let (stage, begun) := s.begin request a.route (a.number + 1)
    begun.setStage i stage

/-- Give a request to a client. It is refused when the pool is gone or the URL has no route. -/
def submit (s : Service) (request : Request) : Service :=
  let (stage, begun) :=
    if !s.hasPool then (.finished 0 (.error .poolClosed), s)
    else match Route.ofUri request.uri with
      | .error e => (.finished 0 (.error e), s)
      | .ok route => s.begin request route 1
  { begun with calls := begun.calls ++ [⟨request, stage⟩] }

/-- The lease of a call has come to an end: the request is sent, or the attempt has failed. -/
def proceed (s : Service) (i : CallId) (call : Call) : Service :=
  match call.stage with
  | .leasing a =>
    match (s.pool.phase? a.lease).bind (leaseOutcome? a.route) with
    | some (.ok ()) => s.setStage i (.exchanging a (.start s.readLimit s.pool.now))
    | some (.error e) => s.conclude i call.request a (.error e)
    | none => s
  | _ => s

/-- The exchange of a call has failed: its connection is given up. -/
def fail (s : Service) (i : CallId) (request : Request) (a : Attempt) (failure : ReadFailure) :
    Service :=
  (s.inPool (.drop a.lease)).conclude i request a
    (.error (.transport (failure.toError a.route.name)))

/-- The whole response is there: the connection goes back to the pool unless the server asks for it
to be closed. -/
def complete (s : Service) (i : CallId) (request : Request) (a : Attempt) (response : Response) :
    Service :=
  let ending := if response.head.wantsClose then Pool.Event.drop a.lease
    else .release a.lease (s.settings.keepAlive.duration response.head.header)
  (s.inPool ending).conclude i request a (.ok response)

/-- Something arrives on the connection of a call. -/
def arrive (s : Service) (i : CallId) (call : Call) (arrival : Arrival) : Service :=
  match call.stage with
  | .exchanging a reading =>
    match reading.receive s.pool.now arrival with
    | .waiting reading => s.setStage i (.exchanging a reading)
    | .complete response => s.complete i call.request a response
    | .failed failure => s.fail i call.request a failure
  | _ => s

/-- Nothing has arrived in time. -/
def overdue (s : Service) (i : CallId) (call : Call) : Service :=
  match call.stage with
  | .exchanging a reading =>
    if reading.isOverdue s.pool.now then s.fail i call.request a .timedOut else s
  | _ => s

/-- A call is given up: its lease, or its connection, is given up with it. -/
def cancel (s : Service) (i : CallId) (call : Call) : Service :=
  match call.stage.attempt? with
  | some a => ((s.inPool (.cancel a.lease)).inPool (.drop a.lease)).setStage i .cancelled
  | none => s

/-- Whether an event of the pool is in the hands of a call: only the call itself gives up its lease
or hands its connection back. -/
def isReserved (s : Service) (e : Pool.Event) : Bool :=
  match e with
  | .cancel l | .drop l | .release l _ => s.calls.any fun call => call.stage.attempt?.any fun a => a.lease == l
  | _ => false

/-- What an event does. -/
def step (s : Service) (e : Event) : Service :=
  let withCall (i : CallId) (f : Call → Service) : Service :=
    match s.calls[i]? with
    | some call => f call
    | none => s
  match e with
  | .submit request => s.submit request
  | .proceed i => withCall i (s.proceed i)
  | .arrive i arrival => withCall i fun call => s.arrive i call arrival
  | .overdue i => withCall i (s.overdue i)
  | .cancel i => withCall i (s.cancel i)
  | .abandon shutdown =>
    if shutdown then { s with owned := false }.inPool .shutdown else { s with owned := false }
  | .pool e => if s.isReserved e then s else s.inPool e

/-- What a series of events does. -/
def run (s : Service) (events : List Event) : Service := events.foldl step s

end Service
end PooledHttp.Client
