import PooledHttp.Pool.State

/-!
# Claiming a place

A lease looks at the books once, in one step: `State.claim` removes the dead idle connections of all
routes and then decides. An idle connection of the route is taken, the most recently parked one
first. Otherwise the lease may open a connection if both caps allow it; when only the cap over all
routes is in the way, the connection that has been idle longest makes room. Otherwise it has to wait.

Nothing keeps the other side from closing connections during the step, so `State.claim` is told twice
which connections are open: when the dead ones are removed, and when one is taken.
-/

set_option autoImplicit false

namespace PooledHttp.Pool

/-- What a claim comes to. -/
inductive Claim where
  /-- An idle connection is taken. -/
  | reuse (c : IdleConnection)
  /-- A connection may be opened. -/
  | connect
  /-- A cap is in the way. -/
  | wait
  deriving DecidableEq, Repr

namespace State

/-- The most recently parked usable connection, and the list without it and without those parked
after it. -/
def takeLatest? (usable : IdleConnection → Bool) (idle : List IdleConnection) :
    Option (IdleConnection × List IdleConnection) :=
  match idle.reverse.dropWhile fun c => !usable c with
  | [] => none
  | c :: older => some (c, older.reverse)

/-- Take an idle connection of the route and enter the lease. When there is none, the route's list
of idle connections is empty afterwards. -/
def reuse (s : State) (live : ConnId → Bool) (now : Millis) (route : Route) :
    Option IdleConnection × State :=
  let idle := (s.get route).idle
  match takeLatest? (fun c => c.isReusable live now) idle with
  | some (c, older) =>
    (some c, { s.modifyKnown route fun p => { p with idle := older } with
      idleTotal := s.idleTotal - (idle.length - older.length) }.addLease route)
  | none =>
    (none, { s.modifyKnown route fun p => { p with idle := [] } with
      idleTotal := s.idleTotal - idle.length })

/-- Make room for one more connection under the cap over all routes, by closing the one that has
been idle longest if need be. -/
def makeRoom? (s : State) (maxTotal : Nat) : Option State :=
  if s.leasedTotal + s.idleTotal ≥ maxTotal then s.evictOldest? else some s

/-- Claim a place for a lease on `route`. The connections in `live` are open when the dead ones are
removed, and those in `still` when one is taken. -/
def claim (s : State) (settings : PoolSettings) (live still : ConnId → Bool) (now : Millis)
    (route : Route) : Claim × State :=
  match (s.closeExpired live now).2.reuse still now route with
  | (some c, taken) => (.reuse c, taken)
  | (none, swept) =>
    if (swept.get route).leased ≥ settings.maxPerRoute then (.wait, swept)
    else match swept.makeRoom? settings.maxTotal with
      | none => (.wait, swept)
      | some roomy => (.connect, roomy.addLease route)

end State
end PooledHttp.Pool
