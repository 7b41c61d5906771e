import PooledHttp.Pool.Claim

/-!
# A pool and its leases

The books of a pool are changed by many leases at once, each of which goes through phases. This
module puts the books, all leases ever started, the connections ever opened and the clock into one
state, and says what every event does to it. An event is one critical section: what happens between
two events of a lease may be any events of other leases.

A lease starts by claiming a place (`Phase.claiming`). If it takes an idle connection, it waits until
that connection is ready (`readying`); if it may connect, it opens one (`connecting`); otherwise it
is parked, with a deadline that was fixed when it started. In the end it holds a connection (`held`),
which is parked in the pool or dropped later on, or it is over.

Ending a lease and shutting the pool down owe the parked leases a broadcast, which is an event of its
own: `owed` counts the broadcasts that are still to be made. So do removals of idle connections, whose
broadcasts `owedByRemovals` counts. A parked lease that has been woken claims again. An event that is
not possible in a state leaves the state as it is; in particular the clock does not pass the deadline
of a parked lease.
-/

set_option autoImplicit false

namespace PooledHttp.Pool

/-- Leases are numbered in the order in which they are started. -/
abbrev LeaseId := Nat

/-- A connection that a lease holds. -/
structure Held where
  conn : ConnId
  createdAt : Millis
  /-- The number of leases that have held the connection, this one included. -/
  useCount : Nat
  /-- Whether the connection was idle before. -/
  reused : Bool
  deriving DecidableEq, Repr

/-- How a lease ended. -/
inductive LeaseEnd where
  /-- The pool is shut down. -/
  | poolClosed
  /-- The deadline passed while the lease was parked. -/
  | timedOut
  /-- No connection could be opened. -/
  | refused (e : TransportError)
  | cancelled
  /-- The connection was handed back to the pool. -/
  | released
  /-- The connection was given up. -/
  | dropped
  deriving DecidableEq, Repr

/-- Where a lease stands. -/
inductive Phase where
  | claiming
  | readying (c : IdleConnection)
  | connecting
  | parked (woken : Bool)
  | held (h : Held)
  | ended (how : LeaseEnd)
  deriving DecidableEq, Repr

/-- A lease. -/
structure Lease where
  route : Route
  /-- The time at which the lease gives up waiting. -/
  deadline : Option Millis
  phase : Phase
  deriving DecidableEq, Repr

/-- Whether the lease occupies a place in the pool. -/
def Phase.hasPlace : Phase → Bool
  | .readying _ | .connecting | .held _ => true
  | .claiming | .parked _ | .ended _ => false

/-- Whether the lease has neither got a connection nor given up. -/
def Phase.inProgress : Phase → Bool
  | .claiming | .readying _ | .connecting | .parked _ => true
  | .held _ | .ended _ => false

/-- The connection that the lease alone may use. -/
def Phase.conn? : Phase → Option ConnId
  | .readying c => some c.conn
  | .held h => some h.conn
  | .claiming | .connecting | .parked _ | .ended _ => none

/-- A connection that has been opened, with the route it was opened for. -/
structure Connection where
  route : Route
  isOpen : Bool
  deriving DecidableEq, Repr

/-- What can happen. -/
inductive Event where
  /-- A lease is asked for, with a limit on its wait. -/
  | start (route : Route) (limit : Option Millis)
  /-- A lease claims a place. The connections in `failing` are closed meanwhile, after the dead idle
  connections have been removed. -/
  | claim (lease : LeaseId) (failing : List ConnId)
  /-- The idle connection that a lease took is ready. -/
  | ready (lease : LeaseId)
  /-- The idle connection that a lease took turns out to be closed. -/
  | unready (lease : LeaseId)
  /-- A lease has opened a connection. -/
  | connected (lease : LeaseId)
  /-- A lease cannot open a connection. -/
  | refused (lease : LeaseId) (e : TransportError)
  /-- All parked leases are woken, after the end of a lease or the shutdown. -/
  | broadcast
  /-- All parked leases are woken, after a removal of idle connections. -/
  | broadcastRemoval
  /-- A woken lease leaves the waiting room. -/
  | resume (lease : LeaseId)
  /-- The deadline of a parked lease has passed. -/
  | expire (lease : LeaseId)
  /-- A lease that is in progress is given up. -/
  | cancel (lease : LeaseId)
  /-- A held connection goes back to the pool; a keep-alive of zero means that it does not expire. -/
  | release (lease : LeaseId) (keepAlive : Millis)
  /-- A held connection is given up. -/
  | drop (lease : LeaseId)
  /-- A connection has been closed. -/
  | closed (conn : ConnId)
  /-- Time passes. -/
  | tick (time : Millis)
  | closeExpired
  | closeIdle (time : Millis)
  | shutdown
  deriving DecidableEq, Repr

/-- The lease that an event is about. -/
def Event.lease? : Event → Option LeaseId
  | .claim l _ | .ready l | .unready l | .connected l | .refused l _ | .resume l | .expire l
  | .cancel l | .release l _ | .drop l => some l
  | .start _ _ | .broadcast | .broadcastRemoval | .closed _ | .tick _ | .closeExpired | .closeIdle _
  | .shutdown => none

/-- A pool with all its leases and connections. -/
structure System where
  settings : PoolSettings
  now : Millis
  books : State
  leases : List Lease
  connections : List Connection
  /-- Broadcasts that ended leases and the shutdown still have to make. -/
  owed : Nat
  /-- Broadcasts that removals of idle connections still have to make. -/
  owedByRemovals : Nat
  deriving DecidableEq, Repr

namespace System

/-- A pool that has not been used. -/
def init (settings : PoolSettings) : System := ⟨settings, 0, .empty, [], [], 0, 0⟩

/-- Whether a connection is open. -/
def live (s : System) (c : ConnId) : Bool := (s.connections[c]?).any (·.isOpen)

/-- The phase of a lease. -/
def phase? (s : System) (l : LeaseId) : Option Phase := (s.leases[l]?).map (·.phase)

/-- The connection that a lease holds. -/
def held? (s : System) (l : LeaseId) : Option Held :=
  match s.phase? l with
  | some (.held h) => some h
  | _ => none

/-- Put a lease into another phase. -/
def setPhase (s : System) (l : LeaseId) (phase : Phase) : System :=
  { s with leases := s.leases.modify l fun lease => { lease with phase := phase } }

/-- End the occupation of a place, which owes the parked leases a broadcast. -/
def finish (s : System) (route : Route) (parked : Option IdleConnection) : System :=
  { s with books := s.books.finishLease s.live route parked, owed := s.owed + 1 }

/-- A connection is closed. -/
def closeConnection (s : System) (c : ConnId) : System :=
  { s with connections := s.connections.modify c fun k => { k with isOpen := false } }

/-- The claim of a lease, while the connections in `failing` are closed. -/
def claim (s : System) (l : LeaseId) (lease : Lease) (failing : List ConnId) : System :=
  if s.books.closed then s.setPhase l (.ended .poolClosed)
  else
    let after := failing.foldl closeConnection s
    match s.books.claim s.settings s.live after.live s.now lease.route with
    | (.reuse c, books) => { after with books := books }.setPhase l (.readying c)
    | (.connect, books) => { after with books := books }.setPhase l .connecting
    | (.wait, books) => { after with books := books.addPending lease.route }.setPhase l (.parked false)

/-- The idle connection is ready: the lease holds it. -/
def ready (s : System) (l : LeaseId) (lease : Lease) (c : IdleConnection) : System :=
  { s with books := s.books.countReused lease.route }.setPhase l
    (.held ⟨c.conn, c.createdAt, c.useCount + 1, true⟩)

/-- The lease holds the connection it has opened. -/
def connected (s : System) (l : LeaseId) (lease : Lease) : System :=
  let opened : Connection := ⟨lease.route, true⟩
  { s with
    books := s.books.countCreated lease.route
    connections := s.connections ++ [opened] }.setPhase l
    (.held ⟨s.connections.length, s.now, 1, false⟩)

/-- The lease leaves the waiting room. -/
def leave (s : System) (l : LeaseId) (lease : Lease) (phase : Phase) : System :=
  { s with books := s.books.removePending lease.route }.setPhase l phase

/-- The held connection goes back to the pool. -/
def release (s : System) (l : LeaseId) (lease : Lease) (h : Held) (keepAlive : Millis) : System :=
  let expiry := if keepAlive = 0 then none else some (s.now + keepAlive)
  (s.finish lease.route (some ⟨h.conn, s.now, expiry, h.createdAt, h.useCount⟩)).setPhase l
    (.ended .released)

/-- The lease is given up, wherever it stands. -/
def cancel (s : System) (l : LeaseId) (lease : Lease) : System :=
  match lease.phase with
  | .claiming => s.setPhase l (.ended .cancelled)
  | .parked _ => s.leave l lease (.ended .cancelled)
  | .readying _ | .connecting => (s.finish lease.route none).setPhase l (.ended .cancelled)
  | .held _ | .ended _ => s

/-- A parked lease is woken; any other is left alone. -/
def wake (lease : Lease) : Lease :=
  match lease.phase with
  | .parked _ => { lease with phase := .parked true }
  | _ => lease

/-- Whether the clock may go to `time`: no parked lease has an earlier deadline. -/
def mayPass (s : System) (time : Millis) : Bool :=
  s.leases.all fun lease => match lease.phase, lease.deadline with
    | .parked _, some deadline => time ≤ deadline
    | _, _ => true

/-- What an event of a lease does. -/
def stepLease (s : System) (l : LeaseId) (lease : Lease) : Event → System
  | .claim _ failing => if lease.phase = .claiming then s.claim l lease failing else s
  | .ready _ => match lease.phase with
    | .readying c => s.ready l lease c
    | _ => s
  | .unready _ => match lease.phase with
    | .readying _ => (s.finish lease.route none).setPhase l .claiming
    | _ => s
  | .connected _ => if lease.phase = .connecting then s.connected l lease else s
  | .refused _ e =>
    if lease.phase = .connecting then (s.finish lease.route none).setPhase l (.ended (.refused e))
    else s
  | .resume _ => if lease.phase = .parked true then s.leave l lease .claiming else s
  | .expire _ =>
    if lease.phase = .parked false && lease.deadline.any (· ≤ s.now) then
      s.leave l lease (.ended .timedOut)
    else s
  | .cancel _ => s.cancel l lease
  | .release _ keepAlive => match lease.phase with
    | .held h => s.release l lease h keepAlive
    | _ => s
  | .drop _ => match lease.phase with
    | .held _ => (s.finish lease.route none).setPhase l (.ended .dropped)
    | _ => s
  | _ => s

/-- What an event does. -/
def step (s : System) (e : Event) : System :=
  match e with
  | .start route limit =>
    { s with leases := s.leases ++ [⟨route, limit.map (s.now + ·), .claiming⟩] }
  | .broadcast =>
    if s.owed = 0 then s else { s with owed := s.owed - 1, leases := s.leases.map wake }
  | .broadcastRemoval =>
    if s.owedByRemovals = 0 then s
    else { s with owedByRemovals := s.owedByRemovals - 1, leases := s.leases.map wake }
  | .closed c => s.closeConnection c
  | .tick time => if s.mayPass (s.now + time) then { s with now := s.now + time } else s
  | .closeExpired =>
    { s with
      books := (s.books.closeExpired s.live s.now).2
      owedByRemovals := s.owedByRemovals + 1 }
  | .closeIdle time =>
    { s with
      books := (s.books.closeIdle s.live s.now time).2
      owedByRemovals := s.owedByRemovals + 1 }
  | .shutdown =>
    if s.books.closed then s else { s with books := s.books.shutdown, owed := s.owed + 1 }
  | e => match e.lease? with
    | none => s
    | some l => match s.leases[l]? with
      | none => s
      | some lease => s.stepLease l lease e

/-- What a series of events does. -/
def run (s : System) (events : List Event) : System := events.foldl step s

/-- Whether a connection is idle in the pool or belongs to a lease. -/
def owns (s : System) (c : ConnId) : Bool :=
  (s.books.routes.any fun e => e.2.idle.any fun i => i.conn == c) ||
    s.leases.any fun lease => lease.phase.conn? == some c

/-- The figures of the whole pool. -/
def stats (s : System) : Stats := s.books.stats s.settings.maxTotal

/-- The figures of a route, if it is known. -/
def routeStats? (s : System) (route : Route) : Option Stats :=
  s.books.routeStats? s.settings.maxPerRoute route

end System
end PooledHttp.Pool
