import PooledHttp.Config.Basic
import PooledHttp.Route

/-!
# The books of a connection pool

Every open connection of a pool is either leased or idle. The books count the leased connections of
each route and list the idle ones, oldest first, with the time from which each is idle and the time
at which it expires. A route with nothing leased, idle or waiting is forgotten; the totals of
connections created and reused outlive it.

All operations are pure: the time is an argument, and so is `live`, which tells the connections that
are still open from those that have been closed from the other side.
-/

set_option autoImplicit false

namespace PooledHttp.Pool

/-- Connections are numbered in the order in which they are opened. -/
abbrev ConnId := Nat

/-- An idle connection. -/
structure IdleConnection where
  conn : ConnId
  idleSince : Millis
  /-- The time from which the connection may not be used any more; `none` when there is none. -/
  expiry : Option Millis
  createdAt : Millis
  useCount : Nat
  deriving DecidableEq, Repr

namespace IdleConnection

/-- Whether the time of use is over. -/
def isExpired (c : IdleConnection) (now : Millis) : Bool := c.expiry.any fun at_ => at_ ≤ now

/-- Whether the connection can be handed out. -/
def isReusable (c : IdleConnection) (live : ConnId → Bool) (now : Millis) : Bool :=
  !c.isExpired now && live c.conn

end IdleConnection

/-- The books of one route. -/
structure RoutePool where
  /-- Connections that are leased, or being opened or checked for a lease. -/
  leased : Nat
  /-- Idle connections, oldest first. -/
  idle : List IdleConnection
  /-- Leases that wait for a place. -/
  pending : Nat
  created : Nat
  reused : Nat
  deriving DecidableEq, Repr

namespace RoutePool

/-- A route that has just been met. -/
def fresh : RoutePool := ⟨0, [], 0, 0, 0⟩

/-- Whether the route can be forgotten. -/
def isUnused (p : RoutePool) : Bool := p.leased == 0 && p.pending == 0 && p.idle.isEmpty

end RoutePool

/-- What a pool reports about itself or about one of its routes. -/
structure Stats where
  leased : Nat
  available : Nat
  pending : Nat
  max : Nat
  created : Nat
  reused : Nat
  deriving DecidableEq, Repr

/-- All zero. -/
def Stats.zero : Stats := ⟨0, 0, 0, 0, 0, 0⟩

/-- The books of a pool. -/
structure State where
  routes : List (Route × RoutePool)
  leasedTotal : Nat
  idleTotal : Nat
  created : Nat
  reused : Nat
  closed : Bool
  deriving DecidableEq, Repr

namespace State

/-- The books of a pool that has not been used. -/
def empty : State := ⟨[], 0, 0, 0, 0, false⟩

/-- The books of a route, if it is known. -/
def find? (s : State) (route : Route) : Option RoutePool := s.routes.lookup route

/-- The books of a route, known or not. -/
def get (s : State) (route : Route) : RoutePool := (s.find? route).getD .fresh

/-- Change the books of a route, which is entered if it is not known. Other routes keep their place. -/
def modify (s : State) (route : Route) (f : RoutePool → RoutePool) : State :=
  if s.routes.any fun e => e.1 == route then
    { s with routes := s.routes.map fun e => if e.1 = route then (e.1, f e.2) else e }
  else { s with routes := s.routes ++ [(route, f .fresh)] }

/-- Change the books of a route if it is known. -/
def modifyKnown (s : State) (route : Route) (f : RoutePool → RoutePool) : State :=
  { s with routes := s.routes.map fun e => if e.1 = route then (e.1, f e.2) else e }

/-- Forget the routes that are not used. -/
def prune (s : State) : State := { s with routes := s.routes.filter fun e => !e.2.isUnused }

/-- A figure, summed over the entries of a list of routes. -/
def sumOver (routes : List (Route × RoutePool)) (figure : RoutePool → Nat) : Nat :=
  routes.foldr (fun e n => figure e.2 + n) 0

/-- The number of idle connections in a list of routes. -/
def countIdle (routes : List (Route × RoutePool)) : Nat := sumOver routes fun p => p.idle.length

/-- Keep the idle connections that are open and satisfy `keep`, and forget the routes that are then
unused. The answer has the number of connections removed. -/
def evict (s : State) (live : ConnId → Bool) (keep : IdleConnection → Bool) : Nat × State :=
  let kept := s.routes.map fun e =>
    (e.1, { e.2 with idle := e.2.idle.filter fun c => live c.conn && keep c })
  let removed := countIdle s.routes - countIdle kept
  (removed, { s with routes := kept, idleTotal := s.idleTotal - removed }.prune)

/-- Remove the idle connections that have expired or are closed. -/
def closeExpired (s : State) (live : ConnId → Bool) (now : Millis) : Nat × State :=
  s.evict live fun c => !c.isExpired now

/-- Remove the connections that have been idle for at least `time` or are closed. -/
def closeIdle (s : State) (live : ConnId → Bool) (now time : Millis) : Nat × State :=
  s.evict live fun c => now - c.idleSince < time

/-- The route whose oldest idle connection is the oldest of all, with the time from which that one
is idle. -/
def oldestIdle : List (Route × RoutePool) → Option (Route × Millis)
  | [] => none
  | (route, p) :: rest =>
    match p.idle.head?, oldestIdle rest with
    | none, other => other
    | some c, none => some (route, c.idleSince)
    | some c, some (other, since) =>
      if c.idleSince ≤ since then some (route, c.idleSince) else some (other, since)

/-- Remove the connection that has been idle longest, whatever its route; `none` when no connection
is idle. -/
def evictOldest? (s : State) : Option State :=
  (oldestIdle s.routes).map fun (route, _) =>
    { s.modifyKnown route fun p => { p with idle := p.idle.tail } with
      idleTotal := s.idleTotal - 1 }.prune

/-- Enter a lease that has got a place. -/
def addLease (s : State) (route : Route) : State :=
  { s.modify route fun p => { p with leased := p.leased + 1 } with leasedTotal := s.leasedTotal + 1 }

/-- End a lease. Its connection is parked when one is given, it is open, and the pool is not shut
down; otherwise it is closed, and routes that are then unused are forgotten. -/
def finishLease (s : State) (live : ConnId → Bool) (route : Route)
    (parked : Option IdleConnection) : State :=
  let ended := { s.modify route fun p => { p with leased := p.leased - 1 } with
    leasedTotal := s.leasedTotal - 1 }
  match parked with
  | some c =>
    if !s.closed && live c.conn then
      { ended.modify route fun p => { p with idle := p.idle ++ [c] } with
        idleTotal := s.idleTotal + 1 }
    else ended.prune
  | none => ended.prune

/-- Enter a lease that has to wait. -/
def addPending (s : State) (route : Route) : State :=
  s.modify route fun p => { p with pending := p.pending + 1 }

/-- End the wait of a lease. -/
def removePending (s : State) (route : Route) : State :=
  (s.modifyKnown route fun p => { p with pending := p.pending - 1 }).prune

/-- Count a connection that has been opened. -/
def countCreated (s : State) (route : Route) : State :=
  { s.modify route fun p => { p with created := p.created + 1 } with created := s.created + 1 }

/-- Count an idle connection that has been handed out. -/
def countReused (s : State) (route : Route) : State :=
  { s.modify route fun p => { p with reused := p.reused + 1 } with reused := s.reused + 1 }

/-- Shut the pool down: no connection stays idle. -/
def shutdown (s : State) : State :=
  { s with
    closed := true
    routes := s.routes.map fun e => (e.1, { e.2 with idle := [] })
    idleTotal := 0 }

/-- The figures of the whole pool. -/
def stats (s : State) (maxTotal : Nat) : Stats where
  leased := s.leasedTotal
  available := s.idleTotal
  pending := sumOver s.routes fun p => p.pending
  max := maxTotal
  created := s.created
  reused := s.reused

/-- The figures of a route, if it is known. -/
def routeStats? (s : State) (maxPerRoute : Nat) (route : Route) : Option Stats :=
  (s.find? route).map fun p =>
    { leased := p.leased, available := p.idle.length, pending := p.pending, max := maxPerRoute,
      created := p.created, reused := p.reused }

/-- The known routes. -/
def routeList (s : State) : List Route := s.routes.map Prod.fst

end State
end PooledHttp.Pool
